import ExNetlink.Inventory

/-! Destructors that run inside `Inventory::remove`.

The predicate of `erase_if` holds a temporary reference to each live request it
looks at. Should all other references go meanwhile, the temporary is the last
one, and dropping it runs `~Request` and `remove` again on a thread that has
`Inventory::mut_` locked. Nothing else makes a thread lock that mutex twice:
`printAll` has released it before it drops anything. -/
namespace ExNetlink.InventoryReentry
open Inventory Runs

/-- The thread is about to lock `Inventory::mut_`, which it has. -/
def Reenters (s : State) (t : Thread) : Prop :=
  ∃ frame rest, s.stack t = frame :: rest ∧ frame.wants = some .inventory ∧
    s.owner .inventory = some t

def Safe (s : State) : Prop := ∀ t, ¬ Reenters s t

/-- A temporary that is dropped under `Inventory::mut_`, in the predicate of
`erase_if`, is not the last reference to its request. -/
def Suits (s : State) : Event → Prop
  | .proceed t => ∀ frame ∈ (s.stack t).head?, Lock.inventory ∈ frame.held →
    ∀ e ∈ frame.drops, ¬ s.last ⟨t, e, true⟩
  | _ => True

instance (s : State) : DecidablePred (Suits s)
  | .proceed t => inferInstanceAs (Decidable (∀ frame ∈ (s.stack t).head?,
      Lock.inventory ∈ frame.held → ∀ e ∈ frame.drops, ¬ s.last ⟨t, e, true⟩))
  | .create _ _ | .copy _ _ _ | .release _ _ | .register1 _ _ | .printAll _ => isTrue trivial

/-- Only the innermost call of a thread has `Inventory::mut_`. -/
def Unnested (s : State) : Prop := ∀ t, ∀ frame ∈ (s.stack t).tail, Lock.inventory ∉ frame.held

variable {s next : State} {t : Thread} {frames rest : List Frame}

theorem not_held_of_wants {frame : Frame} (wanting : frame.wants = some .inventory) :
    Lock.inventory ∉ frame.held := by
  cases frame with
  | registerWants r | removeWants r => simp [Frame.held]
  | printWants => simp [Frame.held]
  | _ => simp [Frame.wants] at wanting

theorem safe_of_unnested (locked : Locked s) (unnested : Unnested s) : Safe s := by
  rintro t ⟨frame, rest, here, wanting, owner⟩
  have held : Lock.inventory ∈ s.held t := (locked.owned .inventory t).mp owner
  rw [State.held, here, List.flatMap_cons, List.mem_append, List.mem_flatMap] at held
  rcases held with own | ⟨other, below, inside⟩
  · exact not_held_of_wants wanting own
  · exact unnested t other (by rwa [here]) inside

theorem Unnested.become (unnested : Unnested s) {u : State}
    (stack : u.stack = Function.update s.stack t frames)
    (below : ∀ frame ∈ frames.tail, Lock.inventory ∉ frame.held) : Unnested u := by
  unfold Unnested
  rw [stack]
  exact (Function.forall_update_iff s.stack
    fun _ frames => ∀ frame ∈ frames.tail, Lock.inventory ∉ frame.held).mpr
      ⟨below, fun v _ => unnested v⟩

/-- A reference is dropped where `Inventory::mut_` is not held, or it is not the last one. -/
theorem Unnested.drop (unnested : Unnested s) {ref : Ref}
    (outside : s.last ref → ∀ frame ∈ s.stack t, Lock.inventory ∉ frame.held)
    (dropped : s.drop t ref = some next) : Unnested next := by
  unfold State.drop at dropped
  split at dropped
  · rename_i last
    obtain ⟨-, rfl⟩ := guarded_eq_some.mp dropped
    exact Unnested.become (s := s.without ref) unnested rfl (outside last)
  · cases dropped
    exact unnested

theorem Unnested.proceed (unnested : Unnested s) {frame : Frame} (here : s.stack t = frame :: rest)
    (suited : Suits s (.proceed t)) (stepped : s.proceed t rest frame = some next) :
    Unnested next := by
  have below : ∀ frame ∈ rest, Lock.inventory ∉ frame.held := by
    have tail := unnested t
    rwa [here] at tail
  have popped : ∀ frame ∈ rest.tail, Lock.inventory ∉ frame.held :=
    fun frame member => below frame (List.mem_of_mem_tail member)
  cases frame with
  | registerOwn r | registerWants r | removeWants r | printWants =>
    obtain ⟨-, rfl⟩ := guarded_eq_some.mp stepped
    exact unnested.become rfl below
  | registerHolds r | printHolds =>
    cases stepped
    exact unnested.become rfl below
  | registerLeaves r | removeLeaves r =>
    cases stepped
    exact unnested.become rfl popped
  | removeScans r kept later =>
    cases later with
    | nil =>
      cases stepped
      exact unnested.become rfl below
    | cons e later =>
      rw [State.proceed] at stepped
      split at stepped
      · cases stepped
        exact unnested.become rfl below
      · cases stepped
        exact unnested.become rfl below
  | removeTemp r kept e later =>
    have another : ¬ s.last ⟨t, e, true⟩ :=
      suited _ (by rw [here]; rfl) (by simp [Frame.held]) e rfl
    rw [State.proceed] at stepped
    refine Unnested.drop ?_ (fun last => absurd ((become_last _ _).mp last) another) stepped
    exact unnested.become rfl below
  | prints later =>
    cases later with
    | nil =>
      cases stepped
      exact unnested.become rfl popped
    | cons e later =>
      rw [State.proceed] at stepped
      split at stepped
      · cases stepped
        exact unnested.become rfl below
      · cases stepped
        exact unnested.become rfl below
  | printTemp e later =>
    obtain ⟨-, rfl⟩ := guarded_eq_some.mp stepped
    exact unnested.become rfl below
  | printed e later =>
    rw [State.proceed] at stepped
    refine Unnested.drop ?_ (fun _ frame member => ?_) stepped
    · exact unnested.become rfl below
    · rw [become_stack] at member
      rcases List.mem_cons.mp member with rfl | under
      · simp [Frame.held]
      · exact below frame under

theorem Unnested.step {e : Event} (unnested : Unnested s) (suited : Suits s e)
    (stepped : step s e = some next) : Unnested next := by
  cases e with
  | create t r | copy t u r =>
    obtain ⟨-, rfl⟩ := guarded_eq_some.mp stepped
    exact unnested
  | release t r =>
    rw [Inventory.step] at stepped
    split at stepped
    · rename_i guarded
      refine unnested.drop (fun _ frame member => ?_) stepped
      rw [guarded.1] at member
      contradiction
    · contradiction
  | register1 t r | printAll t =>
    obtain ⟨-, rfl⟩ := guarded_eq_some.mp stepped
    exact unnested.become rfl (by simp)
  | proceed t =>
    rw [Inventory.step] at stepped
    split at stepped
    · contradiction
    · rename_i here
      exact unnested.proceed here suited stepped

/-- Dropping the last reference inside `erase_if` leads straight back to the mutex. -/
theorem suits_of_safe {e : Event} (locked : Locked s) (stepped : step s e = some next)
    (safe : Safe next) : Suits s e := by
  cases e with
  | create | copy | release | register1 | printAll => trivial
  | proceed t =>
    intro frame top mine e dropped last
    obtain ⟨rest, here⟩ := List.head?_eq_some_iff.mp top
    have owner : s.owner .inventory = some t := by
      refine (locked.owned .inventory t).mpr ?_
      simp [State.held, here, mine]
    cases frame with
    | removeTemp r kept e' later =>
      obtain rfl : e' = e := Option.some.inj dropped
      simp only [Inventory.step, here, State.proceed, State.drop, become_last, if_pos last] at stepped
      obtain ⟨-, rfl⟩ := guarded_eq_some.mp stepped
      have other : Lock.inventory ≠ .request e' := by simp
      refine safe t ⟨.removeWants e', _, become_stack _, rfl, ?_⟩
      dsimp only
      rw [Function.update_of_ne other]
      exact owner
    | printed e' later => simp [Frame.held] at mine
    | _ => cases dropped

/-- Over every run: no thread tries to lock `Inventory::mut_` while it has it,
exactly when no temporary that the predicate of `erase_if` drops is the last
reference to its request. -/
theorem inventory_safe_iff {events : List Event} {final : State}
    (ran : run step start events = some final) :
    Throughout step Safe start events ↔ Meets step Suits start events := by
  have kept : ∀ s e next, (Locked s ∧ Unnested s) → Suits s e → step s e = some next →
      Locked next ∧ Unnested next := by
    rintro s e next ⟨locked, unnested⟩ suited stepped
    exact ⟨locked.step stepped, unnested.step suited stepped⟩
  refine throughout_iff_meets_of_run kept ?_ (fun s held => safe_of_unnested held.1 held.2)
    ⟨locked_start, nofun⟩ ran
  rintro s e next ⟨locked, -⟩ stepped safe
  exact suits_of_safe locked stepped safe

/-- Thread 0 destroys request 0 while it looks at request 1, of which thread 1
keeps a reference. -/
theorem inventory_safe_kept :
    Throughout step Safe start [.create 0 0, .create 1 1, .register1 1 1, .proceed 1, .proceed 1,
      .proceed 1, .proceed 1, .release 0 0, .proceed 0, .proceed 0, .proceed 0, .proceed 0,
      .proceed 0] :=
  (inventory_safe_iff rfl).mpr (by decide)

/-- Thread 1 gives its reference up in between: the temporary is the last one. -/
theorem temporary_reenters :
    let events : List Event := [.create 0 0, .create 1 1, .register1 1 1, .proceed 1, .proceed 1,
      .proceed 1, .proceed 1, .release 0 0, .proceed 0, .proceed 0, .release 1 1, .proceed 0]
    (∃ s, run step start events = some s ∧ Reenters s 0) ∧ ¬ Throughout step Safe start events := by
  have reached : ∃ s, run step start [.create 0 0, .create 1 1, .register1 1 1, .proceed 1,
      .proceed 1, .proceed 1, .proceed 1, .release 0 0, .proceed 0, .proceed 0, .release 1 1,
      .proceed 0] = some s ∧ Reenters s 0 := ⟨_, rfl, _, _, rfl, rfl, rfl⟩
  refine ⟨reached, fun held => ?_⟩
  obtain ⟨s, ran, reenters⟩ := reached
  obtain ⟨final, same, safe⟩ := held.final
  obtain rfl : s = final := Option.some.inj (ran.symm.trans same)
  exact safe 0 reenters

end ExNetlink.InventoryReentry
