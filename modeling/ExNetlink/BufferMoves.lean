import ExNetlink.CirculationBuffer
import ExNetlink.Heap
import ExNetlink.Owners
import ExNetlink.Runs

/-! Ring objects in memory: construction, moves and destruction of
`circulation_buffer` in `buffer.h`, beside the calls that use a ring.

The constructor allocates the array, growing replaces it, the destructor frees
it. A moved-from ring keeps its length and its indices but has no array. The
move assignment takes the other's array over without freeing its own. So no
array is ever freed twice or used after it was freed, and an array is left
behind exactly by a move assignment to a ring that has one. -/
namespace ExNetlink.BufferMoves
open Owners Runs CirculationBuffer

/-- The members of a `circulation_buffer`. -/
structure Object where
  buf : Option Nat
  length : Nat
  readindex : Nat
  writeindex : Nat
  deriving DecidableEq, Repr

/-- The ring with these members over an array. -/
def Object.ring (o : Object) (cells : List UInt8) : CirculationBuffer where
  buf := cells
  length := o.length
  readindex := o.readindex
  writeindex := o.writeindex

/-- The members of a ring whose array is the block `buf`. -/
def Object.of (buf : Option Nat) (b : CirculationBuffer) : Object where
  buf := buf
  length := b.length
  readindex := b.readindex
  writeindex := b.writeindex

/-- The heap and the ring objects that are alive, by name. -/
structure Memory where
  heap : Heap UInt8 := .empty
  objects : Nat → Option Object := fun _ => none

inductive Op where
  /-- `circulation_buffer x(length)`. -/
  | construct (x length : Nat)
  /-- `circulation_buffer x(std::move(y))`. -/
  | moveConstruct (x y : Nat)
  /-- `x = std::move(y)`. -/
  | moveAssign (x y : Nat)
  | destroy (x : Nat)
  | append (x : Nat) (data : List UInt8) (fresh : Nat → UInt8)
  | skip (x len : Nat)
  | retrieveAll (x : Nat)

def Memory.set (s : Memory) (x : Nat) (o : Option Object) : Memory :=
  { s with objects := Function.update s.objects x o }

/-- `delete[]`, which passes over a null pointer. -/
def release (heap : Heap UInt8) : Option Nat → Option (Heap UInt8)
  | some buf => heap.free buf
  | none => some heap

/-- The state after a call. There is none when a name is not alive, or alive
already, and where the program has no defined behaviour. -/
def step (s : Memory) : Op → Option Memory
  | .construct x length =>
    if s.objects x = none then
      let (heap, buf) := s.heap.malloc (List.replicate length 0)
      some ({ s with heap := heap }.set x (some (.of (some buf) (make length))))
    else none
  | .moveConstruct x y => do
    let ot ← s.objects y
    if s.objects x = none then
      some ((s.set x (some ot)).set y (some { ot with buf := none }))
    else none
  | .moveAssign x y => do
    let ot ← s.objects y
    -- the object's own array is not freed; `x` and `y` may be the same
    if s.objects x ≠ none then
      some ((s.set x (some ot)).set y (some { ot with buf := none }))
    else none
  | .destroy x => do
    let o ← s.objects x
    let heap ← release s.heap o.buf
    some ({ s with heap := heap }.set x none)
  | .append x data fresh => do
    let o ← s.objects x
    let buf ← o.buf
    let cells ← s.heap.blocks buf
    let ring := o.ring cells
    let after ← ring.append data data.length fresh
    if ring.writedSize < data.length then
      -- `make_memory`: a new array, and the old one is freed
      let (heap, newBuf) := s.heap.malloc after.buf
      let heap ← release heap (some buf)
      some ({ s with heap := heap }.set x (some (.of (some newBuf) after)))
    else
      some ({ s with heap := { s.heap with
        blocks := Function.update s.heap.blocks buf (some after.buf) } }.set x
          (some (.of (some buf) after)))
  | .skip x len => do
    let o ← s.objects x
    let after ← (o.ring []).skip len
    some (s.set x (some (.of o.buf after)))
  | .retrieveAll x => do
    let o ← s.objects x
    some (s.set x (some (.of o.buf (o.ring []).retrieveAll)))

/-- The array a ring has. -/
def Memory.holds (s : Memory) (x : Nat) : Option Nat := (s.objects x).bind Object.buf

def Memory.Live (s : Memory) (buf : Nat) : Prop := (s.heap.blocks buf).isSome

/-- A move assignment goes to a ring without an array. -/
def Suits (s : Memory) : Op → Prop
  | .moveAssign x _ => s.holds x = none
  | _ => True

instance (s : Memory) : DecidablePred (Suits s)
  | .moveAssign x _ => inferInstanceAs (Decidable (s.holds x = none))
  | .construct _ _ | .moveConstruct _ _ | .destroy _ | .append _ _ _ | .skip _ _
  | .retrieveAll _ => isTrue trivial

/-! ### One call -/

variable {s next : Memory} {x y : Nat}

theorem holds_set (s : Memory) (x : Nat) (o : Option Object) :
    (s.set x o).holds = Function.update s.holds x (o.bind Object.buf) := by
  funext z
  by_cases this : z = x
  · subst this
    simp [Memory.holds, Memory.set]
  · simp [Memory.holds, Memory.set, this]

/-- Everything a call can do to the arrays. -/
inductive Change (s : Memory) (op : Op) (next : Memory) : Prop
  | same (suited : Suits s op) (holds : next.holds = s.holds) (live : next.Live = s.Live)
      (names : next.heap.next = s.heap.next)
  /-- A ring without an array gets a new one. -/
  | give (x : Nat) (suited : Suits s op) (empty : s.holds x = none)
      (holds : next.holds = Owners.give s.holds x s.heap.next)
      (live : next.Live = fun b => b = s.heap.next ∨ s.Live b)
      (names : next.heap.next = s.heap.next + 1)
  /-- A ring lets its array go and gets a new one. -/
  | replace (x : Nat) (suited : Suits s op)
      (holds : next.holds = Owners.give (Owners.drop s.holds x) x s.heap.next)
      (live : next.Live = fun b => b = s.heap.next ∨ LiveWithout s.Live (s.holds x) b)
      (names : next.heap.next = s.heap.next + 1)
  | move (x y : Nat) (suited : Suits s op ↔ s.holds x = none)
      (holds : next.holds = Owners.move s.holds x y) (live : next.Live = s.Live)
      (names : next.heap.next = s.heap.next)
  | drop (x : Nat) (suited : Suits s op) (holds : next.holds = Owners.drop s.holds x)
      (live : next.Live = LiveWithout s.Live (s.holds x)) (names : next.heap.next = s.heap.next)

theorem holds_of {o : Object} (found : s.objects x = some o) : s.holds x = o.buf := by
  rw [Memory.holds, found, Option.bind_some]

/-- An object that keeps its array. -/
theorem holds_set_same {o after : Object} (found : s.objects x = some o) (same : after.buf = o.buf) :
    (s.set x (some after)).holds = s.holds := by
  rw [holds_set, Option.bind_some, same, ← holds_of found, Function.update_eq_self]

/-- What both moves do. -/
theorem holds_moved {ot : Object} (found : s.objects y = some ot) :
    ((s.set x (some ot)).set y (some { ot with buf := none })).holds = Owners.move s.holds x y := by
  rw [holds_set, holds_set, Option.bind_some, Option.bind_some, ← holds_of found]
  rfl

theorem live_release {h after : Heap UInt8} {buf : Option Nat} (released : release h buf = some after)
    (b : Nat) : (after.blocks b).isSome ↔ (h.blocks b).isSome ∧ buf ≠ some b := by
  cases buf with
  | none =>
    obtain rfl := Option.some.inj released
    simp
  | some buf => simpa using Heap.free_live released b

theorem next_release {h after : Heap UInt8} {buf : Option Nat}
    (released : release h buf = some after) : after.next = h.next := by
  cases buf with
  | none => exact congrArg Heap.next (Option.some.inj released).symm
  | some buf => exact Heap.free_next released

/-- Names of arrays are given out in order. -/
def Named (s : Memory) : Prop := ∀ b, s.Live b → b < s.heap.next

theorem append_change {data : List UInt8} {fresh : Nat → UInt8} (named : Named s)
    (stepped : step s (.append x data fresh) = some next) : Change s (.append x data fresh) next := by
  obtain ⟨o, found, made⟩ := Option.bind_eq_some_iff.mp stepped
  obtain ⟨buf, has, made⟩ := Option.bind_eq_some_iff.mp made
  obtain ⟨cells, known, made⟩ := Option.bind_eq_some_iff.mp made
  obtain ⟨after, appended, made⟩ := Option.bind_eq_some_iff.mp made
  clear stepped
  have held := (holds_of found).trans has
  have alive : s.Live buf := by
    rw [Memory.Live, known]
    rfl
  have older := named buf alive
  split at made
  · obtain ⟨heap, released, made⟩ := Option.bind_eq_some_iff.mp made
    obtain rfl := Option.some.inj made
    refine .replace x trivial ?_ (funext fun b => propext ?_) (next_release released)
    · have set := holds_set { s with heap := heap } x (some (.of (some s.heap.next) after))
      refine set.trans ?_
      rw [Owners.give, Owners.drop, Function.update_idem]
      rfl
    · refine (live_release released b).trans ((and_congr_left' (s.heap.malloc_live _ b)).trans ?_)
      rw [LiveWithout, held, or_and_right]
      refine or_congr_left (and_iff_left_of_imp ?_)
      rintro rfl same
      exact absurd (Option.some.inj same) (Nat.ne_of_lt older)
  · obtain rfl := Option.some.inj made
    refine .same trivial (holds_set_same found has.symm) (funext fun b => propext ?_) rfl
    by_cases this : b = buf
    · subst this
      exact iff_of_true (by simp [Memory.Live, Memory.set]) alive
    · simp [Memory.Live, Memory.set, this]

theorem step_change {op : Op} (named : Named s) (stepped : step s op = some next) : Change s op next := by
  cases op with
  | construct x length =>
    obtain ⟨absent, rfl⟩ := guarded_eq_some.mp stepped
    refine .give x trivial (by rw [Memory.holds, absent]; rfl) ?_ (funext fun b => propext ?_) rfl
    · exact holds_set _ x _
    · exact s.heap.malloc_live _ b
  | moveConstruct x y =>
    obtain ⟨ot, found, made⟩ := Option.bind_eq_some_iff.mp stepped
    obtain ⟨absent, rfl⟩ := guarded_eq_some.mp made
    have empty : s.holds x = none := by
      rw [Memory.holds, absent]
      rfl
    exact .move x y (iff_of_true trivial empty) (holds_moved found) rfl rfl
  | moveAssign x y =>
    obtain ⟨ot, found, made⟩ := Option.bind_eq_some_iff.mp stepped
    obtain ⟨-, rfl⟩ := guarded_eq_some.mp made
    exact .move x y Iff.rfl (holds_moved found) rfl rfl
  | destroy x =>
    obtain ⟨o, found, made⟩ := Option.bind_eq_some_iff.mp stepped
    obtain ⟨heap, released, made⟩ := Option.bind_eq_some_iff.mp made
    obtain rfl := Option.some.inj made
    refine .drop x trivial (holds_set _ x none) (funext fun b => propext ?_)
      (next_release released)
    rw [LiveWithout, holds_of found]
    exact live_release released b
  | append x data fresh => exact append_change named stepped
  | skip x len =>
    obtain ⟨o, found, made⟩ := Option.bind_eq_some_iff.mp stepped
    obtain ⟨after, skipped, made⟩ := Option.bind_eq_some_iff.mp made
    obtain rfl := Option.some.inj made
    exact .same trivial (holds_set_same found rfl) rfl rfl
  | retrieveAll x =>
    obtain ⟨o, found, made⟩ := Option.bind_eq_some_iff.mp stepped
    obtain rfl := Option.some.inj made
    exact .same trivial (holds_set_same found rfl) rfl rfl

/-! ### Runs -/

/-- What carries the induction: each array has one ring at most. -/
structure Kept (s : Memory) : Prop where
  sole : Sole s.Live s.holds
  named : Named s

theorem Kept.unnamed (held : Kept s) : ¬ s.Live s.heap.next :=
  fun live => absurd (held.named _ live) (Nat.lt_irrefl _)

theorem kept_start : Kept {} where
  sole := sole_of_empty fun _ => rfl
  named b live := by cases live

theorem kept_change {op : Op} (held : Kept s) (changed : Change s op next) : Kept next := by
  cases changed with
  | same _ holds live names =>
    refine ⟨?_, fun b alive => ?_⟩
    · rw [holds, live]
      exact held.sole
    · rw [live] at alive
      rw [names]
      exact held.named b alive
  | give x _ empty holds live names =>
    refine ⟨?_, fun b alive => ?_⟩
    · rw [holds, live]
      exact held.sole.give held.unnamed x
    · rw [live] at alive
      rw [names]
      rcases alive with rfl | old
      · exact Nat.lt_succ_self _
      · exact Nat.lt_succ_of_lt (held.named b old)
  | replace x _ holds live names =>
    have dropped := held.sole.drop x
    refine ⟨?_, fun b alive => ?_⟩
    · rw [holds, live]
      exact dropped.give (fun alive => held.unnamed alive.1) x
    · rw [live] at alive
      rw [names]
      rcases alive with rfl | old
      · exact Nat.lt_succ_self _
      · exact Nat.lt_succ_of_lt (held.named b old.1)
  | move x y _ holds live names =>
    refine ⟨?_, fun b alive => ?_⟩
    · rw [holds, live]
      exact held.sole.move x y
    · rw [live] at alive
      rw [names]
      exact held.named b alive
  | drop x _ holds live names =>
    refine ⟨?_, fun b alive => ?_⟩
    · rw [holds, live]
      exact held.sole.drop x
    · rw [live] at alive
      rw [names]
      exact held.named b alive.1

/-- Without a move assignment to a ring that has an array, every array has its
ring. -/
theorem tidy_change {op : Op} (tidy : Tidy s.Live s.holds) (suited : Suits s op)
    (changed : Change s op next) : Tidy next.Live next.holds := by
  cases changed with
  | same _ holds live names =>
    rw [holds, live]
    exact tidy
  | give x _ empty holds live names =>
    rw [holds, live]
    exact tidy.give empty
  | replace x _ holds live names =>
    rw [holds, live]
    exact (tidy.drop x).give (Function.update_self _ _ _)
  | move x y suits holds live names =>
    rw [holds, live]
    exact tidy.move (suits.mp suited) y
  | drop x _ holds live names =>
    rw [holds, live]
    exact tidy.drop x

/-- An array that no ring has stays so: nobody can free it. -/
theorem lost_change {op : Op} {b : Nat} (held : Kept s) (lost : Lost s.Live s.holds b)
    (changed : Change s op next) : Lost next.Live next.holds b := by
  cases changed with
  | same _ holds live names =>
    rw [holds, live]
    exact lost
  | give x _ empty holds live names =>
    rw [holds, live]
    exact lost.give held.unnamed x
  | replace x _ holds live names =>
    rw [holds, live]
    exact (lost.drop x).give (fun alive => held.unnamed alive.1) x
  | move x y _ holds live names =>
    rw [holds, live]
    exact lost.move x y
  | drop x _ holds live names =>
    rw [holds, live]
    exact lost.drop x

theorem lost_unsuited {op : Op} (held : Kept s) (unsuited : ¬ Suits s op)
    (changed : Change s op next) : ∃ b, Lost next.Live next.holds b := by
  cases changed with
  | same suited | give _ suited | replace _ suited | drop _ suited =>
    exact absurd suited unsuited
  | move x y suits holds live names =>
    rw [suits] at unsuited
    obtain ⟨b, has⟩ := Option.ne_none_iff_exists'.mp unsuited
    rw [holds, live]
    exact ⟨b, held.sole.lost_move has y⟩

theorem kept_step (s : Memory) (op : Op) (next : Memory) (held : Kept s)
    (stepped : step s op = some next) : Kept next :=
  kept_change held (step_change held.named stepped)

/-- A ring can always be destroyed: its array, if it has one, has not been
freed. -/
theorem destroy_defined (held : Kept s) (alive : (s.objects x).isSome) :
    (step s (.destroy x)).isSome := by
  obtain ⟨o, found⟩ := Option.isSome_iff_exists.mp alive
  rw [step, found]
  cases has : o.buf with
  | none => simp [has, release]
  | some buf =>
    have live := held.sole.live x buf ((holds_of found).trans has)
    obtain ⟨cells, known⟩ := Option.isSome_iff_exists.mp live
    simp [has, release, Heap.free, known]

/-- In every run of constructions, moves, assignments, uses and destructions of
any number of rings: no two rings share an array, no array is freed twice, and
when all rings are gone, all arrays have been freed exactly when no move
assignment went to a ring that had one. -/
theorem arrays_freed_iff {ops : List Op} {final : Memory} (ran : run step {} ops = some final) :
    (∀ x y buf, final.holds x = some buf → final.holds y = some buf → x = y) ∧
    (∀ x, (final.objects x).isSome → (step final (.destroy x)).isSome) ∧
    ((∀ x, final.objects x = none) →
      ((∀ buf, final.heap.blocks buf = none) ↔ Meets step Suits {} ops)) := by
  have kept := run_keeps kept_step kept_start ran
  refine ⟨kept.sole.unique, fun x => destroy_defined kept, fun gone => ⟨fun freed => ?_, fun met => ?_⟩⟩
  · let spoilt (s : Memory) : Prop := ∃ b, Lost s.Live s.holds b
    refine meets_of_not_spoilt kept_step ?_ ?_ kept_start ran (show ¬ spoilt final from ?_)
    · intro s op next held stepped unsuited
      exact lost_unsuited held unsuited (step_change held.named stepped)
    · rintro s op next held ⟨b, lost⟩ stepped
      exact ⟨b, lost_change held lost (step_change held.named stepped)⟩
    · rintro ⟨b, live, -⟩
      rw [Memory.Live, freed b] at live
      cases live
  · have tidy : Throughout step (fun s => Kept s ∧ Tidy s.Live s.holds) {} ops := by
      refine throughout_of_run ?_ ⟨kept_start, fun b live => by cases live⟩ ran met
      rintro s op next ⟨held, tidy⟩ suited stepped
      have changed := step_change held.named stepped
      exact ⟨kept_change held changed, tidy_change tidy suited changed⟩
    obtain ⟨last, reached, -, tidy⟩ := tidy.final
    obtain rfl := Option.some.inj (ran.symm.trans reached)
    intro buf
    by_contra live
    obtain ⟨x, held⟩ := tidy buf (Option.isSome_iff_ne_none.mpr live)
    rw [Memory.holds, gone x] at held
    cases held

/-- A ring moves to another name and is used there; both names go. -/
def handedOver : List Op :=
  [.construct 0 8, .append 0 [1, 2] fun _ => 0, .moveConstruct 1 0,
    .append 1 [3, 4, 5, 6] fun _ => 0, .destroy 1, .destroy 0]

theorem arrays_freed_handedOver :
    ∃ final, run step {} handedOver = some final ∧ ∀ buf, final.heap.blocks buf = none := by
  obtain ⟨final, ran, gone⟩ : ∃ final, run step {} handedOver = some final ∧
      ∀ x, final.objects x = none := by
    refine ⟨_, rfl, fun x => ?_⟩
    match x with
    | 0 => rfl
    | 1 => rfl
    | x + 2 => rfl
  exact ⟨final, ran, ((arrays_freed_iff ran).2.2 gone).mpr (by decide)⟩

/-- `b = std::move(a)` of two rings with arrays, whose own array nobody frees. -/
example : (run step {} [.construct 0 8, .construct 1 8, .moveAssign 1 0, .destroy 0, .destroy 1]).map
    (fun s => ((s.heap.blocks 0).isSome, (s.heap.blocks 1).isSome)) = some (false, true) := by decide

end ExNetlink.BufferMoves
