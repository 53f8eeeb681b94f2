import ExNetlink.Inventory
import Mathlib.Data.List.Count

/-! The entries of the inventory and the life of their requests.

`~Request` asks `remove` to take the request's entry out, and `remove` finds
the entry by locking its weak pointer. At that moment the pointer no longer
locks, so nothing is ever taken out: an entry is as good as its request is kept
alive. -/
namespace ExNetlink.InventoryEntries
open Inventory Runs

/-- The request has been made, and no reference is left. -/
def Dead (s : State) (r : Request) : Prop := r ∈ s.created ∧ s.useCount r = 0

/-- No destructor is in progress. -/
def Settled (s : State) : Prop := ∀ t, ∀ frame ∈ s.stack t, frame.destroys = none

/-- The entries are those of live requests, when no destructor is in progress. -/
def Listed (s : State) : Prop := Settled s → ∀ r ∈ s.obs, s.alive r

/-- The reference that an event drops. -/
def dropped (s : State) : Event → Option Ref
  | .release t r => some ⟨t, r, false⟩
  | .proceed t => (s.stack t).head?.bind fun frame => frame.drops.map fun e => ⟨t, e, true⟩
  | _ => none

/-- No registered request loses its last reference. -/
def Suits (s : State) (e : Event) : Prop :=
  ∀ ref ∈ dropped s e, s.last ref → ref.request ∉ s.obs

instance (s : State) (e : Event) : Decidable (Suits s e) :=
  inferInstanceAs (Decidable (∀ ref ∈ dropped s e, s.last ref → ref.request ∉ s.obs))

/-! ### What a step does to the references and the entries -/

/-- What a call in progress relies on. -/
def Fits (s : State) (t : Thread) : Frame → Prop
  | .registerOwn r | .registerWants r | .registerHolds r | .registerLeaves r =>
    ⟨t, r, false⟩ ∈ s.refs
  | .removeWants r | .removeLeaves r => Dead s r
  | .removeScans r kept rest => Dead s r ∧ kept ++ rest = s.obs
  | .removeTemp r kept e rest => Dead s r ∧ r ≠ e ∧ kept ++ e :: rest = s.obs
  | .printWants | .printHolds => True
  | .prints rest => ∀ x ∈ rest, x ∈ s.created
  | .printTemp e rest | .printed e rest => ∀ x ∈ e :: rest, x ∈ s.created

/-- The request that a call has a temporary reference to. -/
def borrows : Frame → Option Request
  | .removeTemp _ _ e _ | .printTemp e _ | .printed e _ => some e
  | _ => none

/-- A thread has the temporary reference of its innermost call, and needs no other. -/
def Backed (refs : List Ref) (t : Thread) : List Frame → Prop
  | [] => True
  | frame :: rest => (∀ e ∈ borrows frame, ⟨t, e, true⟩ ∈ refs) ∧ ∀ other ∈ rest, borrows other = none

structure Kept (s : State) : Prop where
  locked : Locked s
  fits : ∀ t, ∀ frame ∈ s.stack t, Fits s t frame
  backed : ∀ t, Backed s.refs t (s.stack t)
  registered : ∀ r ∈ s.obs, r ∈ s.created
  known : ∀ ref ∈ s.refs, ref.request ∈ s.created

/-- The four things that can happen to the references and the entries. Nothing
is taken out of `obs_`. -/
inductive Effect (s next : State) (e : Event) : Prop where
  | same (created : next.created = s.created) (refs : next.refs = s.refs) (obs : next.obs = s.obs)
  | gains (ref : Ref) (source : s.alive ref.request ∨ ref.request ∉ s.created)
      (created : s.created ⊆ next.created) (here : ref.request ∈ next.created)
      (refs : next.refs = ref :: s.refs) (obs : next.obs = s.obs)
  | loses (ref : Ref) (event : dropped s e = some ref) (created : next.created = s.created)
      (refs : next.refs = s.refs.erase ref) (obs : next.obs = s.obs)
  | lists (ref : Ref) (held : ref ∈ s.refs) (created : next.created = s.created)
      (refs : next.refs = s.refs) (obs : next.obs = s.obs ++ [ref.request])
      (t : Thread) (event : e = .proceed t) (mutex : ∃ frame ∈ (s.stack t).head?, .inventory ∈ frame.held)

variable {s next : State} {t : Thread} {e : Event} {r : Request}

theorem alive_of_mem {ref : Ref} (member : ref ∈ s.refs) : s.alive ref.request :=
  List.countP_pos_iff.mpr ⟨ref, member, by simp⟩

theorem drop_effect {ref : Ref} (dropped' : s.drop t ref = some next) :
    next.created = s.created ∧ next.refs = s.refs.erase ref ∧ next.obs = s.obs := by
  unfold State.drop at dropped'
  split at dropped'
  · obtain ⟨-, rfl⟩ := guarded_eq_some.mp dropped'
    exact ⟨rfl, rfl, rfl⟩
  · cases dropped'
    exact ⟨rfl, rfl, rfl⟩

theorem proceed_effect (held : Kept s) {frame : Frame} {rest : List Frame}
    (here : s.stack t = frame :: rest) (stepped : s.proceed t rest frame = some next) :
    Effect s next (.proceed t) := by
  have fits : Fits s t frame := held.fits t frame (by simp [here])
  cases frame with
  | registerOwn r | registerWants r | removeWants r | printWants =>
    obtain ⟨-, rfl⟩ := guarded_eq_some.mp stepped
    exact .same rfl rfl rfl
  | registerHolds r =>
    cases stepped
    exact .lists ⟨t, r, false⟩ fits rfl rfl rfl t rfl ⟨_, by rw [here]; rfl, by simp [Frame.held]⟩
  | registerLeaves r | removeLeaves r | printHolds =>
    cases stepped
    exact .same rfl rfl rfl
  | removeScans r kept later =>
    cases later with
    | nil =>
      cases stepped
      exact .same rfl rfl ((List.append_nil kept).symm.trans fits.2)
    | cons x later =>
      rw [State.proceed] at stepped
      split at stepped
      · rename_i alive
        cases stepped
        refine .gains ⟨t, x, true⟩ (.inl alive) (List.Subset.refl _) ?_ rfl rfl
        exact held.registered x (fits.2 ▸ by simp)
      · cases stepped
        exact .same rfl rfl rfl
  | removeTemp r kept x later =>
    rw [State.proceed] at stepped
    obtain ⟨created, refs, obs⟩ := drop_effect stepped
    exact .loses ⟨t, x, true⟩ (by simp [dropped, here, Frame.drops]) created refs obs
  | prints later =>
    cases later with
    | nil =>
      cases stepped
      exact .same rfl rfl rfl
    | cons x later =>
      rw [State.proceed] at stepped
      split at stepped
      · rename_i alive
        cases stepped
        exact .gains ⟨t, x, true⟩ (.inl alive) (List.Subset.refl _) (fits x (by simp)) rfl rfl
      · cases stepped
        exact .same rfl rfl rfl
  | printTemp x later =>
    obtain ⟨-, rfl⟩ := guarded_eq_some.mp stepped
    exact .same rfl rfl rfl
  | printed x later =>
    rw [State.proceed] at stepped
    obtain ⟨created, refs, obs⟩ := drop_effect stepped
    exact .loses ⟨t, x, true⟩ (by simp [dropped, here, Frame.drops]) created refs obs

theorem step_effect (held : Kept s) (stepped : step s e = some next) : Effect s next e := by
  cases e with
  | create t r =>
    obtain ⟨⟨-, fresh⟩, rfl⟩ := guarded_eq_some.mp stepped
    exact .gains ⟨t, r, false⟩ (.inr fresh) (List.subset_cons_self _ _) List.mem_cons_self rfl rfl
  | copy t u r =>
    obtain ⟨⟨-, source⟩, rfl⟩ := guarded_eq_some.mp stepped
    have alive : s.alive r := alive_of_mem source
    have made : r ∈ s.created := held.known _ source
    exact .gains ⟨u, r, false⟩ (.inl alive) (List.Subset.refl _) made rfl rfl
  | release t r =>
    rw [step] at stepped
    split at stepped
    · obtain ⟨created, refs, obs⟩ := drop_effect stepped
      exact .loses ⟨t, r, false⟩ rfl created refs obs
    · contradiction
  | register1 t r | printAll t =>
    obtain ⟨-, rfl⟩ := guarded_eq_some.mp stepped
    exact .same rfl rfl rfl
  | proceed t =>
    rw [step] at stepped
    split at stepped
    · contradiction
    · rename_i here
      exact proceed_effect held here stepped

/-! ### The invariant -/

theorem without_useCount_le (ref : Ref) (r : Request) :
    (s.without ref).useCount r ≤ s.useCount r :=
  List.erase_sublist.countP_le

theorem without_useCount_other {ref : Ref} (other : r ≠ ref.request) :
    (s.without ref).useCount r = s.useCount r := by
  have unmatched : (ref.request == r) = false := beq_false_of_ne (Ne.symm other)
  simp [State.useCount, State.without, List.countP_erase, unmatched]

/-- A dead request stays dead. -/
theorem Effect.dead (effect : Effect s next e) (dead : Dead s r) : Dead next r := by
  obtain ⟨made, unused⟩ := dead
  cases effect with
  | same created refs obs =>
    refine ⟨created ▸ made, ?_⟩
    rw [State.useCount, refs]
    exact unused
  | gains ref source created here refs obs =>
    refine ⟨created made, ?_⟩
    have other : ref.request ≠ r := by
      rintro rfl
      rcases source with alive | fresh
      · exact (Nat.ne_of_gt alive) unused
      · exact fresh made
    rw [State.useCount, refs, List.countP_cons_of_neg (by simpa using other)]
    exact unused
  | loses ref event created refs obs =>
    refine ⟨created ▸ made, ?_⟩
    rw [State.useCount, refs]
    exact Nat.le_zero.mp (unused ▸ without_useCount_le ref r)
  | lists ref held created refs obs =>
    refine ⟨created ▸ made, ?_⟩
    rw [State.useCount, refs]
    exact unused

theorem Effect.created (effect : Effect s next e) (made : r ∈ s.created) : r ∈ next.created := by
  cases effect with
  | same created | loses _ _ created | lists _ _ created => exact created ▸ made
  | gains _ _ created => exact created made

theorem Effect.registered (effect : Effect s next e) (held : Kept s) :
    (∀ r ∈ next.obs, r ∈ next.created) ∧ ∀ ref ∈ next.refs, ref.request ∈ next.created := by
  cases effect with
  | same created refs obs =>
    rw [created, refs, obs]
    exact ⟨held.registered, held.known⟩
  | gains ref source created here refs obs =>
    rw [refs, obs]
    refine ⟨fun r listed => created (held.registered r listed), fun other member => ?_⟩
    rcases List.mem_cons.mp member with rfl | old
    · exact here
    · exact created (held.known other old)
  | loses ref event created refs obs =>
    rw [created, refs, obs]
    exact ⟨held.registered, fun other member => held.known other (List.mem_of_mem_erase member)⟩
  | lists ref here created refs obs =>
    rw [created, refs, obs]
    refine ⟨fun r listed => ?_, held.known⟩
    rcases List.mem_append.mp listed with old | new
    · exact held.registered r old
    · rw [List.mem_singleton.mp new]
      exact held.known ref here

/-- A call that stays as it is can go on relying on what it relied on: its
reference is not the one that is dropped, and it scans the entries as they were. -/
theorem Effect.fits (effect : Effect s next e) {frame : Frame} (fits : Fits s t frame)
    (apart : ∀ r, dropped s e ≠ some ⟨t, r, false⟩)
    (scanning : Lock.inventory ∈ frame.held → next.obs = s.obs) : Fits next t frame := by
  have kept : ∀ r, ⟨t, r, false⟩ ∈ s.refs → ⟨t, r, false⟩ ∈ next.refs := by
    intro r member
    cases effect with
    | same _ refs | lists _ _ _ refs => exact refs ▸ member
    | gains _ _ _ _ refs => exact refs ▸ List.mem_cons_of_mem _ member
    | loses ref event _ refs =>
      rw [refs]
      refine (List.mem_erase_of_ne ?_).mpr member
      rintro rfl
      exact apart r event
  cases frame with
  | registerOwn r | registerWants r | registerHolds r | registerLeaves r => exact kept r fits
  | removeWants r | removeLeaves r => exact effect.dead fits
  | removeScans r done rest =>
    obtain ⟨dead, whole⟩ := fits
    exact ⟨effect.dead dead, whole.trans (scanning (by simp [Frame.held])).symm⟩
  | removeTemp r done x rest =>
    obtain ⟨dead, other, whole⟩ := fits
    exact ⟨effect.dead dead, other, whole.trans (scanning (by simp [Frame.held])).symm⟩
  | printWants | printHolds => trivial
  | prints rest => exact fun x member => effect.created (fits x member)
  | printTemp x rest | printed x rest => exact fun y member => effect.created (fits y member)

/-- While the innermost call of a thread has `Inventory::mut_`, no other call has. -/
theorem Effect.scanning {frame other : Frame} {rest : List Frame} {v : Thread}
    (effect : Effect s next (.proceed t)) (locked : Locked s) (here : s.stack t = frame :: rest)
    (elsewhere : v = t ∧ other ∈ rest ∨ v ≠ t ∧ other ∈ s.stack v)
    (mutex : Lock.inventory ∈ other.held) : next.obs = s.obs := by
  cases effect with
  | same _ _ obs | gains _ _ _ _ _ obs | loses _ _ _ _ obs => exact obs
  | lists ref held created refs obs u event top =>
    obtain rfl : t = u := Event.proceed.inj event
    obtain ⟨first, top, mine⟩ := top
    rw [here] at top
    obtain rfl : frame = first := Option.some.inj top
    rcases elsewhere with ⟨-, below⟩ | ⟨different, member⟩
    · have once := locked.once t
      rw [State.held, here, List.flatMap_cons, List.nodup_append] at once
      exact absurd rfl (once.2.2 _ mine _ (List.mem_flatMap.mpr ⟨other, below, mutex⟩))
    · refine absurd (locked.owned.unique (l := Lock.inventory) ?_ ?_) different
      · exact List.mem_flatMap.mpr ⟨other, member, mutex⟩
      · exact List.mem_flatMap.mpr ⟨frame, by simp [here], mine⟩

theorem drop_stack {ref : Ref} (dropped' : s.drop t ref = some next) : next.stack = s.stack ∨
    s.last ref ∧ next.stack = Function.update s.stack t (.removeWants ref.request :: s.stack t) := by
  unfold State.drop at dropped'
  split at dropped'
  · rename_i last
    obtain ⟨-, rfl⟩ := guarded_eq_some.mp dropped'
    exact .inr ⟨last, rfl⟩
  · cases dropped'
    exact .inl rfl

/-- The destructor of a request whose last reference is dropped finds it dead. -/
theorem drop_dead {ref : Ref} (made : ref.request ∈ s.created) (last : s.last ref)
    (dropped' : s.drop t ref = some next) : Dead next ref.request := by
  obtain ⟨created, refs, -⟩ := drop_effect dropped'
  refine ⟨created ▸ made, ?_⟩
  rw [State.useCount, refs]
  exact last

/-- The calls of a thread are in order. -/
def Orderly (s : State) (t : Thread) (frames : List Frame) : Prop :=
  (∀ frame ∈ frames, Fits s t frame) ∧ Backed s.refs t frames

theorem backed_of_none {refs : List Ref} {frames : List Frame}
    (none : ∀ frame ∈ frames, borrows frame = none) : Backed refs t frames := by
  cases frames with
  | nil => trivial
  | cons frame rest =>
    obtain ⟨first, others⟩ := List.forall_mem_cons.mp none
    exact ⟨by simp [first], others⟩

/-- The calls of a thread that drops a reference. -/
theorem drop_frames {ref : Ref} {frames : List Frame} (made : ref.request ∈ s.created)
    (fits : ∀ frame ∈ frames, Fits next t frame) (none : ∀ frame ∈ frames, borrows frame = none)
    (dropped' : (s.become t frames).drop t ref = some next) :
    ∃ after, next.stack = Function.update s.stack t after ∧ Orderly next t after := by
  rcases drop_stack dropped' with stack | ⟨last, stack⟩
  · exact ⟨frames, stack, fits, backed_of_none none⟩
  · refine ⟨.removeWants ref.request :: frames, ?_, ?_, ?_, none⟩
    · rw [stack, become_stack]
      exact Function.update_idem ..
    · exact List.forall_mem_cons.mpr ⟨drop_dead (s := s.become t frames) made last dropped', fits⟩
    · simp [borrows]

/-- The calls of a thread after a step of the innermost one, `rest` being the others. -/
theorem proceed_frames (held : Kept s) {frame : Frame} {rest : List Frame}
    (here : s.stack t = frame :: rest) (stepped : s.proceed t rest frame = some next) :
    ∃ after, next.stack = Function.update s.stack t after ∧ Orderly next t after := by
  have effect := proceed_effect held here stepped
  have apart : ∀ r, dropped s (.proceed t) ≠ some ⟨t, r, false⟩ := by
    intro r
    simp [dropped, here]
  have fits : Fits s t frame := held.fits t frame (by simp [here])
  have backed : Backed s.refs t (frame :: rest) := here ▸ held.backed t
  obtain ⟨mine, none⟩ := backed
  have others : ∀ other ∈ rest, Fits next t other := fun other below =>
    effect.fits (held.fits t other (by simp [here, below])) apart
      (effect.scanning held.locked here (.inl ⟨rfl, below⟩))
  have popped : Orderly next t rest := ⟨others, backed_of_none none⟩
  -- what the next call in line relies on, when it holds before the step
  have carry : ∀ other, Fits s t other → (Lock.inventory ∈ other.held → next.obs = s.obs) →
      ∀ frame ∈ other :: rest, Fits next t frame := fun other now scanning =>
    List.forall_mem_cons.mpr ⟨effect.fits now apart scanning, others⟩
  cases frame with
  | registerOwn r | registerWants r =>
    obtain ⟨-, rfl⟩ := guarded_eq_some.mp stepped
    exact ⟨_, rfl, carry _ fits fun _ => rfl, by simp [borrows], none⟩
  | registerHolds r =>
    cases stepped
    exact ⟨_, rfl, carry (.registerLeaves r) fits (by simp [Frame.held]), by simp [borrows], none⟩
  | registerLeaves r | removeLeaves r =>
    cases stepped
    exact ⟨_, rfl, popped⟩
  | removeWants r =>
    obtain ⟨-, rfl⟩ := guarded_eq_some.mp stepped
    exact ⟨_, rfl, carry (.removeScans r [] s.obs) ⟨fits, rfl⟩ fun _ => rfl, by simp [borrows], none⟩
  | removeScans r kept later =>
    obtain ⟨dead, whole⟩ := fits
    cases later with
    | nil =>
      cases stepped
      exact ⟨_, rfl, carry (.removeLeaves r) dead (by simp [Frame.held]), by simp [borrows], none⟩
    | cons x later =>
      rw [State.proceed] at stepped
      split at stepped
      · rename_i alive
        cases stepped
        refine ⟨_, rfl, carry (.removeTemp r kept x later) ⟨dead, ?_, whole⟩ fun _ => rfl, ?_, none⟩
        · rintro rfl
          exact (Nat.ne_of_gt alive) dead.2
        · rintro _ ⟨⟩
          exact List.mem_cons_self
      · cases stepped
        refine ⟨_, rfl, carry (.removeScans r (kept ++ [x]) later) ⟨dead, ?_⟩ fun _ => rfl,
          by simp [borrows], none⟩
        rw [← whole, List.append_assoc]
        rfl
  | removeTemp r kept x later =>
    obtain ⟨dead, other, whole⟩ := fits
    rw [State.proceed, if_neg other] at stepped
    have made : x ∈ s.created := held.registered x (whole ▸ by simp)
    have unchanged : next.obs = s.obs := (drop_effect stepped).2.2
    refine drop_frames made (carry (.removeScans r (kept ++ [x]) later) ⟨dead, ?_⟩
      fun _ => unchanged) (List.forall_mem_cons.mpr ⟨rfl, none⟩) stepped
    rw [← whole, List.append_assoc]
    rfl
  | printWants =>
    obtain ⟨-, rfl⟩ := guarded_eq_some.mp stepped
    exact ⟨_, rfl, carry .printHolds trivial fun _ => rfl, by simp [borrows], none⟩
  | printHolds =>
    cases stepped
    exact ⟨_, rfl, carry (.prints s.obs) held.registered (by simp [Frame.held]), by simp [borrows],
      none⟩
  | prints later =>
    cases later with
    | nil =>
      cases stepped
      exact ⟨_, rfl, popped⟩
    | cons x later =>
      rw [State.proceed] at stepped
      split at stepped
      · cases stepped
        refine ⟨_, rfl, carry (.printTemp x later) fits fun _ => rfl, ?_, none⟩
        rintro _ ⟨⟩
        exact List.mem_cons_self
      · cases stepped
        exact ⟨_, rfl, carry (.prints later) (List.forall_mem_cons.mp fits).2 fun _ => rfl,
          by simp [borrows], none⟩
  | printTemp x later =>
    obtain ⟨-, rfl⟩ := guarded_eq_some.mp stepped
    exact ⟨_, rfl, carry (.printed x later) fits fun _ => rfl, mine, none⟩
  | printed x later =>
    obtain ⟨made, listed⟩ := List.forall_mem_cons.mp fits
    rw [State.proceed] at stepped
    exact drop_frames made (carry (.prints later) listed (by simp [Frame.held]))
      (List.forall_mem_cons.mpr ⟨rfl, none⟩) stepped

/-- The references of other threads are not touched. -/
theorem Effect.backed {v : Thread} {frames : List Frame} (effect : Effect s next e)
    (apart : ∀ r, dropped s e ≠ some ⟨v, r, true⟩) (backed : Backed s.refs v frames) :
    Backed next.refs v frames := by
  cases frames with
  | nil => trivial
  | cons frame rest =>
    refine ⟨fun x borrowed => ?_, backed.2⟩
    have member := backed.1 x borrowed
    cases effect with
    | same _ refs | lists _ _ _ refs => exact refs ▸ member
    | gains _ _ _ _ refs => exact refs ▸ List.mem_cons_of_mem _ member
    | loses ref event _ refs =>
      rw [refs]
      refine (List.mem_erase_of_ne ?_).mpr member
      rintro rfl
      exact apart x event

/-- One thread's calls change, and those of the others are still in order. -/
theorem orderly_update {after : List Frame} (stack : next.stack = Function.update s.stack t after)
    (own : Orderly next t after) (others : ∀ v, v ≠ t → Orderly next v (s.stack v)) :
    ∀ v, Orderly next v (next.stack v) := by
  rw [stack]
  exact (Function.forall_update_iff s.stack fun v frames => Orderly next v frames).mpr ⟨own, others⟩

theorem orderly_step (held : Kept s) (stepped : step s e = some next) :
    ∀ v, Orderly next v (next.stack v) := by
  have effect := step_effect held stepped
  cases e with
  | create t r | copy t u r =>
    obtain ⟨-, rfl⟩ := guarded_eq_some.mp stepped
    exact fun v => ⟨fun frame member =>
      effect.fits (held.fits v frame member) (by simp [dropped]) fun _ => rfl,
      effect.backed (by simp [dropped]) (held.backed v)⟩
  | release t r =>
    rw [step] at stepped
    split at stepped
    · rename_i guarded
      have unchanged : s.become t [] = s := by
        rw [State.become, ← guarded.1, Function.update_eq_self]
      rw [← unchanged] at stepped
      have made : r ∈ s.created := held.known _ guarded.2
      obtain ⟨after, stack, orderly⟩ :=
        drop_frames made (List.forall_mem_nil _) (List.forall_mem_nil _) stepped
      refine orderly_update stack orderly fun v other => ⟨fun frame member => ?_, ?_⟩
      · refine effect.fits (held.fits v frame member) ?_ fun _ => (drop_effect stepped).2.2
        intro r' same
        exact other (congrArg Ref.thread (Option.some.inj same)).symm
      · exact effect.backed (by simp [dropped]) (held.backed v)
    · contradiction
  | register1 t r =>
    obtain ⟨⟨-, source⟩, rfl⟩ := guarded_eq_some.mp stepped
    refine orderly_update rfl ⟨List.forall_mem_singleton.mpr source, by simp [Backed, borrows]⟩
      fun v _ => ⟨fun frame member => ?_, held.backed v⟩
    exact effect.fits (held.fits v frame member) (by simp [dropped]) fun _ => rfl
  | printAll t =>
    obtain ⟨-, rfl⟩ := guarded_eq_some.mp stepped
    refine orderly_update rfl ⟨List.forall_mem_singleton.mpr trivial, by simp [Backed, borrows]⟩
      fun v _ => ⟨fun frame member => ?_, held.backed v⟩
    exact effect.fits (held.fits v frame member) (by simp [dropped]) fun _ => rfl
  | proceed t =>
    rw [step] at stepped
    split at stepped
    · contradiction
    · rename_i here
      obtain ⟨after, stack, orderly⟩ := proceed_frames held here stepped
      refine orderly_update stack orderly fun v other => ⟨fun frame member => ?_, ?_⟩
      · refine effect.fits (held.fits v frame member) (by simp [dropped, here]) ?_
        exact effect.scanning held.locked here (.inr ⟨other, member⟩)
      · refine effect.backed (fun r => ?_) (held.backed v)
        simp [dropped, here, other.symm]

theorem Kept.step (held : Kept s) (stepped : step s e = some next) : Kept next := by
  have orderly := orderly_step held stepped
  obtain ⟨registered, known⟩ := (step_effect held stepped).registered held
  exact ⟨held.locked.step stepped, fun t => (orderly t).1, fun t => (orderly t).2, registered, known⟩

theorem kept_start : Kept start where
  locked := locked_start
  fits := nofun
  backed _ := trivial
  registered := nofun
  known := nofun

/-! ### Destructors do not wait for their request -/

/-- Whoever has `Request::mut_` locked has a reference, or destroys the request. -/
theorem request_free (held : Kept s) {ref : Ref} (source : ref ∈ s.refs) (last : s.last ref)
    (apart : ref.temporary = true ∨ s.stack ref.thread = []) :
    s.owner (.request ref.request) = none := by
  by_contra taken
  obtain ⟨u, owner⟩ := Option.ne_none_iff_exists'.mp taken
  obtain ⟨frame, inside, locks⟩ := List.mem_flatMap.mp ((held.locked.owned _ u).mp owner)
  have fits := held.fits u frame inside
  have dying : ¬ Dead s ref.request := fun dead => (Nat.ne_of_gt (alive_of_mem source)) dead.2
  have registering : ⟨u, ref.request, false⟩ ∉ s.refs := by
    intro other
    have different : ⟨u, ref.request, false⟩ ≠ ref := by
      intro same
      rcases apart with temporary | idle
      · rw [← same] at temporary
        contradiction
      · rw [← same] at idle
        rw [idle] at inside
        contradiction
    have remains : ⟨u, ref.request, false⟩ ∈ (s.without ref).refs :=
      (List.mem_erase_of_ne different).mpr other
    exact (Nat.ne_of_gt (alive_of_mem remains)) last
  cases frame with
  | registerWants r | registerHolds r | registerLeaves r =>
    obtain rfl : ref.request = r := by simpa [Frame.held] using locks
    exact registering fits
  | removeWants r | removeLeaves r =>
    obtain rfl : ref.request = r := by simpa [Frame.held] using locks
    exact dying fits
  | removeScans r kept rest | removeTemp r kept x rest =>
    obtain rfl : ref.request = r := by simpa [Frame.held] using locks
    exact dying fits.1
  | registerOwn | printWants | printHolds | prints | printTemp | printed =>
    simp [Frame.held] at locks

theorem drop_isSome {ref : Ref} (free : s.last ref → s.owner (.request ref.request) = none) :
    (s.drop t ref).isSome := by
  unfold State.drop
  split
  · rename_i last
    have unlocked : (s.without ref).owner (.request ref.request) = none := free last
    simp [State.lock, unlocked]
  · rfl

/-- In every reachable state a thread that gives a reference up goes on: when it
is the last one, the destructor finds `Request::mut_` free. -/
theorem drops_never_wait {events : List Event} (ran : run step start events = some s) :
    (∀ t r, s.stack t = [] → ⟨t, r, false⟩ ∈ s.refs → (step s (.release t r)).isSome) ∧
      ∀ t frame rest, s.stack t = frame :: rest → frame.drops.isSome →
        (step s (.proceed t)).isSome := by
  have kept : ∀ s e next, Kept s → step s e = some next → Kept next :=
    fun s e next held stepped => held.step stepped
  have held := run_keeps kept kept_start ran
  constructor
  · intro t r idle source
    rw [step, if_pos ⟨idle, source⟩]
    exact drop_isSome fun last => request_free held source last (.inr idle)
  · intro t frame rest here dropping
    have backed : Backed s.refs t (frame :: rest) := here ▸ held.backed t
    simp only [step, here]
    cases frame with
    | removeTemp r kept x later | printed x later =>
      exact drop_isSome fun last => request_free held (backed.1 x rfl) last (.inl rfl)
    | _ => cases dropping

/-! ### Runs -/

/-- Every entry is that of a live request. -/
def Live (s : State) : Prop := ∀ r ∈ s.obs, s.alive r

/-- An entry is that of a dead request. -/
def Stale (s : State) : Prop := ∃ r ∈ s.obs, Dead s r

theorem live_step (held : Kept s) (live : Live s) (suited : Suits s e)
    (stepped : step s e = some next) : Live next := by
  intro r listed
  cases step_effect held stepped with
  | same created refs obs =>
    rw [State.alive, State.useCount, refs]
    exact live r (obs ▸ listed)
  | gains ref source created here refs obs =>
    rw [State.alive, State.useCount, refs]
    exact Nat.lt_of_lt_of_le (live r (obs ▸ listed)) (List.sublist_cons_self _ _).countP_le
  | loses ref event created refs obs =>
    rw [obs] at listed
    rw [State.alive, State.useCount, refs]
    change 0 < (s.without ref).useCount r
    by_cases same : r = ref.request
    · rw [same] at listed ⊢
      exact Nat.pos_of_ne_zero fun last => suited ref event last listed
    · rw [without_useCount_other same]
      exact live r listed
  | lists ref here created refs obs =>
    rw [State.alive, State.useCount, refs]
    rw [obs] at listed
    rcases List.mem_append.mp listed with old | new
    · exact live r old
    · rw [List.mem_singleton.mp new]
      exact alive_of_mem here

theorem stale_step (held : Kept s) (stale : Stale s) (stepped : step s e = some next) :
    Stale next := by
  obtain ⟨r, listed, dead⟩ := stale
  have effect := step_effect held stepped
  refine ⟨r, ?_, effect.dead dead⟩
  cases effect with
  | same _ _ obs | gains _ _ _ _ _ obs | loses _ _ _ _ obs => exact obs ▸ listed
  | lists _ _ _ _ obs => exact obs ▸ List.mem_append_left _ listed

theorem dropped_effect {ref : Ref} (event : dropped s e = some ref)
    (stepped : step s e = some next) :
    next.created = s.created ∧ next.refs = s.refs.erase ref ∧ next.obs = s.obs := by
  cases e with
  | create | copy | register1 | printAll => cases event
  | release t r =>
    cases event
    rw [step] at stepped
    split at stepped
    · exact drop_effect stepped
    · contradiction
  | proceed t =>
    rw [step] at stepped
    split at stepped
    · contradiction
    · rename_i frame rest here
      rw [dropped, here] at event
      cases frame with
      | removeTemp r kept x later =>
        cases event
        exact drop_effect (s := s.become t _) stepped
      | printed x later =>
        cases event
        exact drop_effect (s := s.become t _) stepped
      | _ => cases event

/-- A registered request that loses its last reference leaves its entry behind. -/
theorem stale_of_not_suits (held : Kept s) (stepped : step s e = some next)
    (unsuited : ¬ Suits s e) : Stale next := by
  simp only [Suits, not_forall, not_not] at unsuited
  obtain ⟨ref, event, last, listed⟩ := unsuited
  obtain ⟨created, refs, obs⟩ := dropped_effect event stepped
  refine ⟨ref.request, obs ▸ listed, created ▸ held.registered _ listed, ?_⟩
  rw [State.useCount, refs]
  exact last

/-- In every run in which no registered request loses its last reference, every
state without a destructor in progress has entries of live requests only. In a
run that ends without a destructor in progress this is also necessary. -/
theorem entries_live {events : List Event} {final : State}
    (ran : run step start events = some final) :
    (Meets step Suits start events → Throughout step Listed start events) ∧
      (Settled final → Listed final → Meets step Suits start events) := by
  constructor
  · intro met
    have kept : ∀ s e next, (Kept s ∧ Live s) → Suits s e → step s e = some next →
        Kept next ∧ Live next := by
      rintro s e next ⟨held, live⟩ suited stepped
      exact ⟨held.step stepped, live_step held live suited stepped⟩
    exact (throughout_of_run kept ⟨kept_start, nofun⟩ ran met).mono fun s held _ => held.2
  · intro settled listed
    have kept : ∀ s e next, Kept s → step s e = some next → Kept next :=
      fun s e next held stepped => held.step stepped
    refine meets_of_not_spoilt kept (fun s e next held stepped => stale_of_not_suits held stepped)
      (fun s e next held stale stepped => stale_step held stale stepped) kept_start ran ?_
    rintro ⟨r, member, dead⟩
    exact (Nat.ne_of_gt (listed settled r member)) dead.2

/-- A request that is not registered dies while a registered one is printed. -/
theorem entries_live_printing :
    Throughout step Listed start [.create 0 0, .register1 0 0, .proceed 0, .proceed 0, .proceed 0,
      .proceed 0, .create 1 1, .printAll 0, .proceed 0, .proceed 0, .proceed 0, .release 1 1,
      .proceed 0, .proceed 0] :=
  (entries_live rfl).1 (by decide)

/-- A request that is made, registered and given up is still listed. -/
theorem entry_outlives_request :
    let events : List Event := [.create 0 0, .register1 0 0, .proceed 0, .proceed 0, .proceed 0,
      .proceed 0, .release 0 0, .proceed 0, .proceed 0, .proceed 0, .proceed 0]
    (∃ s, run step start events = some s ∧ Settled s ∧ s.obs = [0] ∧ ¬ s.alive 0) ∧
      ¬ Throughout step Listed start events := by
  intro events
  have reached : ∃ s, run step start events = some s ∧ Settled s ∧ s.obs = [0] ∧ ¬ s.alive 0 := by
    refine ⟨_, rfl, fun t frame member => ?_, rfl, by decide⟩
    simp [State.unlock, State.become, State.without, start] at member
  refine ⟨reached, fun held => ?_⟩
  obtain ⟨s, ran, settled, entries, dead⟩ := reached
  obtain ⟨final, same, listed⟩ := held.final
  obtain rfl : s = final := Option.some.inj (ran.symm.trans same)
  exact dead (listed settled 0 (by simp [entries]))

end ExNetlink.InventoryEntries
