import Mathlib.Algebra.Group.Nat.Defs
import ExNetlink.Locks
import ExNetlink.Runs

/-! The latch of `set/thread_pool/Count.h`.

`Count<count>` keeps a 16-bit counter under a mutex. `down()` decrements it and
notifies the waiters when it has come to zero; `wait()` returns once it finds
it zero. Each call that is ever made is an element of `T`, and the calls take
their steps in any order. A `wait()` carries how many calls of `down()` had
completed when it started.

Nothing keeps `down()` from decrementing a counter that is zero already. It
wraps, and the latch is shut again. -/
namespace ExNetlink.CountLatch
open Locks Runs

/-- Where a call of `down()` stands. -/
inductive Down where
  /-- About to decrement, with `mut_`. -/
  | counting
  /-- About to test the counter. -/
  | decremented
  /-- About to release `mut_`. -/
  | counted
  | completed
  deriving DecidableEq, Repr

/-- Where a call of `wait()` stands. -/
inductive Wait where
  /-- About to lock `mut_`. -/
  | entering
  /-- About to evaluate the predicate, with `mut_`. -/
  | testing
  /-- The predicate was false; about to release `mut_` and sleep. -/
  | refused
  /-- In the waiter set of `con_`. -/
  | sleeping
  /-- Out of the waiter set, inside `wait` and without `mut_`. -/
  | woken
  /-- The predicate was true; about to release `mut_`. -/
  | passed
  | returned
  deriving DecidableEq, Repr

/-- Where a call stands. -/
inductive Place where
  | outside
  | down (stage : Down)
  | wait (stage : Wait) (since : Nat)
  deriving DecidableEq, Repr

/-- The members of `Count`, the calls, and how many of `down()` have completed. -/
structure Latch (T : Type) where
  count : Nat
  holder : Option T
  places : T → Place
  completed : Nat

inductive Event (T : Type) where
  /-- `down()` has `mut_`. -/
  | lockDown (t : T)
  /-- `count_--`. -/
  | decrement (t : T)
  /-- `con_.notify_all()`, if the counter is zero. -/
  | notify (t : T)
  | unlockDown (t : T)
  /-- `wait()` starts. -/
  | enter (t : T)
  | lockWait (t : T)
  /-- The predicate is evaluated. -/
  | test (t : T)
  /-- `mut_` is released and the waiter set joined. -/
  | sleep (t : T)
  | spurious (t : T)
  /-- A woken call has `mut_` again. -/
  | relock (t : T)
  | unlockWait (t : T)
  deriving DecidableEq, Repr

variable {T : Type} [DecidableEq T]

/-- `Count<count>::Count()`. -/
def start (count : Nat) : Latch T where
  count := count
  holder := none
  places := fun _ => .outside
  completed := 0

/-- Call `t` moves to `place`; `holder` is who has the mutex then. -/
def Latch.put (s : Latch T) (t : T) (place : Place) (holder : Option T) :
    Latch T :=
  { s with places := Function.update s.places t place, holder := holder }

/-- A notified call leaves the waiter set. -/
def Place.wake : Place → Place
  | .wait .sleeping since => .wait .woken since
  | place => place

/-- `if (count_ == 0) con_.notify_all()`: where the calls stand after it. -/
def Latch.notified (s : Latch T) : T → Place :=
  if s.count = 0 then fun u => (s.places u).wake else s.places

/-- `--` on a `uint16_t`. -/
def predecessor (n : Nat) : Nat := if n = 0 then 2 ^ 16 - 1 else n - 1

/-- `count_--` in call `t`. -/
def Latch.decrement (s : Latch T) (t : T) : Latch T :=
  { s with
    count := predecessor s.count
    places := Function.update s.places t (.down .decremented) }

/-- The rest of call `t` of `down()` up to the end of its section. -/
def Latch.notify (s : Latch T) (t : T) : Latch T :=
  { s with places := Function.update s.notified t (.down .counted) }

/-- Call `t` of `down()` releases `mut_` and is complete. -/
def Latch.complete (s : Latch T) (t : T) : Latch T :=
  { s with
    holder := none
    places := Function.update s.places t (.down .completed)
    completed := s.completed + 1 }

/-- The state after an event, for an event that can happen. -/
def step (s : Latch T) : Event T → Option (Latch T)
  | .lockDown t =>
    if s.places t = .outside ∧ s.holder = none then some (s.put t (.down .counting) (some t)) else none
  | .decrement t => if s.places t = .down .counting then some (s.decrement t) else none
  | .notify t => if s.places t = .down .decremented then some (s.notify t) else none
  | .unlockDown t => if s.places t = .down .counted then some (s.complete t) else none
  | .enter t =>
    if s.places t = .outside then some (s.put t (.wait .entering s.completed) s.holder) else none
  | .lockWait t =>
    match s.places t with
    | .wait .entering since =>
      if s.holder = none then some (s.put t (.wait .testing since) (some t)) else none
    | _ => none
  | .test t =>
    match s.places t with
    | .wait .testing since =>
      some (s.put t (.wait (if s.count = 0 then .passed else .refused) since) s.holder)
    | _ => none
  | .sleep t =>
    match s.places t with
    | .wait .refused since => some (s.put t (.wait .sleeping since) none)
    | _ => none
  | .spurious t =>
    match s.places t with
    | .wait .sleeping since => some (s.put t (.wait .woken since) s.holder)
    | _ => none
  | .relock t =>
    match s.places t with
    | .wait .woken since =>
      if s.holder = none then some (s.put t (.wait .testing since) (some t)) else none
    | _ => none
  | .unlockWait t =>
    match s.places t with
    | .wait .passed since => some (s.put t (.wait .returned since) none)
    | _ => none

/-- The predicate has been found false, and not found true since. -/
def Place.blocked : Place → Bool
  | .wait .refused _ | .wait .sleeping _ | .wait .woken _ => true
  | _ => false

/-- How many calls of `down()` had completed when this `wait()` started. -/
def Place.since : Place → Option Nat
  | .wait _ since => some since
  | _ => none

/-- A `wait()` has returned only after `count` calls of `down()`. -/
def Released (count : Nat) (s : Latch T) : Prop :=
  ∀ t since, s.places t = .wait .returned since → count ≤ s.completed

/-- Once `count` calls of `down()` have completed, no `wait()` that started
since then is blocked, and one that starts now will not be. -/
structure StaysOpen (count : Nat) (s : Latch T) : Prop where
  unblocked : ∀ t since, (s.places t).since = some since → count ≤ since →
    (s.places t).blocked = false
  ready : count ≤ s.completed → s.count = 0

/-- The counter is not decremented below zero. -/
def Suits (s : Latch T) : Event T → Prop
  | .decrement _ => s.count ≠ 0
  | _ => True

instance (s : Latch T) : DecidablePred (Suits s)
  | .decrement _ => inferInstanceAs (Decidable (s.count ≠ 0))
  | .lockDown _ | .notify _ | .unlockDown _ | .enter _ | .lockWait _ | .test _ | .sleep _
  | .spurious _ | .relock _ | .unlockWait _ => isTrue trivial

/-! ### What one event can do -/

variable {s next : Latch T} {e : Event T} {count : Nat}

/-- The call has `mut_` there. -/
def Place.holds : Place → Bool
  | .down .counting | .down .decremented | .down .counted => true
  | .wait .testing _ | .wait .refused _ | .wait .passed _ => true
  | _ => false

/-- What the call has taken off the counter without having completed. -/
def Place.tallied : Place → Nat
  | .down .decremented | .down .counted => 1
  | _ => 0

/-- The predicate has been found true. -/
def Place.through : Place → Bool
  | .wait .passed _ | .wait .returned _ => true
  | _ => false

/-- Everything an event can do: one call moves on, and three of the four steps
of `down()` do something more. -/
inductive Change (s : Latch T) : Event T → Latch T → Prop
  | move (e : Event T) (t : T) (place : Place) (holder : Option T)
      (quiet : ∀ u, e ≠ .decrement u)
      (before : (s.places t).tallied = 0) (after : place.tallied = 0)
      (sole : Sole holder Place.holds (Function.update s.places t place))
      (since : place.since = (s.places t).since ∨
        place.since = some s.completed ∧ place.blocked = false)
      (blocks : place.blocked = true → (s.places t).blocked = true ∨ s.count ≠ 0)
      (passes : place.through = true →
        (s.places t).through = true ∨ s.count = 0 ∧ s.holder = some t) :
      Change s e (s.put t place holder)
  | decrement (t : T) (here : s.places t = .down .counting) : Change s (.decrement t) (s.decrement t)
  | notify (t : T) (here : s.places t = .down .decremented) : Change s (.notify t) (s.notify t)
  | complete (t : T) (here : s.places t = .down .counted) : Change s (.unlockDown t) (s.complete t)

theorem step_change (sole : Sole s.holder Place.holds s.places) (stepped : step s e = some next) :
    Change s e next := by
  cases e with
  | lockDown t =>
    obtain ⟨⟨here, free⟩, rfl⟩ := guarded_eq_some.mp stepped
    exact .move _ t _ _ nofun (by simp [here, Place.tallied]) rfl (sole.take free rfl)
      (.inl (by simp [here, Place.since])) nofun nofun
  | decrement t =>
    obtain ⟨here, rfl⟩ := guarded_eq_some.mp stepped
    exact .decrement t here
  | notify t =>
    obtain ⟨here, rfl⟩ := guarded_eq_some.mp stepped
    exact .notify t here
  | unlockDown t =>
    obtain ⟨here, rfl⟩ := guarded_eq_some.mp stepped
    exact .complete t here
  | enter t =>
    obtain ⟨here, rfl⟩ := guarded_eq_some.mp stepped
    exact .move _ t _ _ nofun (by simp [here, Place.tallied]) rfl (sole.stay (by rw [here]; rfl))
      (.inr ⟨rfl, rfl⟩) nofun nofun
  | lockWait t =>
    simp only [step] at stepped
    split at stepped
    · rename_i n here
      obtain ⟨free, rfl⟩ := guarded_eq_some.mp stepped
      exact .move _ t _ _ nofun (by simp [here, Place.tallied]) rfl (sole.take free rfl)
        (.inl (by simp [here, Place.since])) nofun nofun
    · contradiction
  | test t =>
    simp only [step] at stepped
    split at stepped
    · rename_i n here
      cases stepped
      have has : s.holder = some t := (sole t).mpr (by simp [here, Place.holds])
      by_cases zero : s.count = 0
      · rw [if_pos zero]
        exact .move _ t _ _ nofun (by simp [here, Place.tallied]) rfl
          (sole.stay (by rw [here]; rfl)) (.inl (by simp [here, Place.since])) nofun
          (fun _ => .inr ⟨zero, has⟩)
      · rw [if_neg zero]
        exact .move _ t _ _ nofun (by simp [here, Place.tallied]) rfl
          (sole.stay (by rw [here]; rfl)) (.inl (by simp [here, Place.since])) (fun _ => .inr zero)
          nofun
    · contradiction
  | sleep t =>
    simp only [step] at stepped
    split at stepped
    · rename_i n here
      cases stepped
      exact .move _ t _ _ nofun (by simp [here, Place.tallied]) rfl
        (sole.release (by simp [here, Place.holds]) rfl) (.inl (by simp [here, Place.since]))
        (fun _ => .inl (by simp [here, Place.blocked])) nofun
    · contradiction
  | spurious t =>
    simp only [step] at stepped
    split at stepped
    · rename_i n here
      cases stepped
      exact .move _ t _ _ nofun (by simp [here, Place.tallied]) rfl
        (sole.stay (by rw [here]; rfl)) (.inl (by simp [here, Place.since]))
        (fun _ => .inl (by simp [here, Place.blocked])) nofun
    · contradiction
  | relock t =>
    simp only [step] at stepped
    split at stepped
    · rename_i n here
      obtain ⟨free, rfl⟩ := guarded_eq_some.mp stepped
      exact .move _ t _ _ nofun (by simp [here, Place.tallied]) rfl (sole.take free rfl)
        (.inl (by simp [here, Place.since])) nofun nofun
    · contradiction
  | unlockWait t =>
    simp only [step] at stepped
    split at stepped
    · rename_i n here
      cases stepped
      exact .move _ t _ _ nofun (by simp [here, Place.tallied]) rfl
        (sole.release (by simp [here, Place.holds]) rfl) (.inl (by simp [here, Place.since]))
        nofun (fun _ => .inl (by simp [here, Place.through]))
    · contradiction

theorem put_places (s : Latch T) (t u : T) (place : Place) (holder : Option T) :
    (s.put t place holder).places u = if u = t then place else s.places u :=
  Function.update_apply s.places t place u

/-! ### The tally

What `down()` has taken off the counter is what its completed calls took and,
in between, what the call that has the mutex took. -/

/-- What is off the counter without being completed. -/
def pending (s : Latch T) : Nat :=
  match s.holder with
  | some t => (s.places t).tallied
  | none => 0

omit [DecidableEq T] in
theorem pending_of_holder {t : T} (has : s.holder = some t) : pending s = (s.places t).tallied := by
  rw [pending, has]

omit [DecidableEq T] in
/-- Only the call that has the mutex counts, and only between its two steps. -/
theorem pending_eq_zero (none : ∀ t, s.holder = some t → (s.places t).tallied = 0) : pending s = 0 := by
  rw [pending]
  split
  · rename_i t has
    exact none t has
  · rfl

/-- A call that has taken nothing off the counter may come and go. -/
theorem pending_put {t : T} {place : Place} {holder : Option T}
    (sole : Sole s.holder Place.holds s.places) (before : (s.places t).tallied = 0)
    (after : place.tallied = 0) (now : Sole holder Place.holds (Function.update s.places t place)) :
    pending (s.put t place holder) = pending s := by
  have others : ∀ u, u ≠ t → (holder = some u ↔ s.holder = some u) := by
    intro u other
    rw [now u, Function.update_of_ne other, sole u]
  by_cases elsewhere : ∃ u, u ≠ t ∧ s.holder = some u
  · obtain ⟨u, other, has⟩ := elsewhere
    have still : (s.put t place holder).holder = some u := (others u other).mpr has
    rw [pending_of_holder has, pending_of_holder still]
    rw [put_places, if_neg other]
  · rw [pending_eq_zero, pending_eq_zero]
    · intro u has
      by_cases same : u = t
      · rw [same, before]
      · exact absurd ⟨u, same, has⟩ elsewhere
    · intro u has
      by_cases same : u = t
      · rw [put_places, if_pos same, after]
      · exact absurd ⟨u, same, (others u same).mp has⟩ elsewhere

/-- What every event keeps. -/
structure Kept (count : Nat) (s : Latch T) : Prop where
  sole : Sole s.holder Place.holds s.places
  tally : (s.count + s.completed + pending s) % 2 ^ 16 = count
  started : ∀ t n, (s.places t).since = some n → n ≤ s.completed
  through : ∀ t, (s.places t).through = true → count ≤ s.completed

/-- A call that is woken has the mutex no more and no less than before, and has
been let through no more. -/
theorem wake_keeps (place : Place) :
    place.wake.holds = place.holds ∧ place.wake.since = place.since ∧
      place.wake.blocked = place.blocked ∧ place.wake.through = place.through := by
  rcases place with _ | stage | ⟨stage, n⟩
  · exact ⟨rfl, rfl, rfl, rfl⟩
  · exact ⟨rfl, rfl, rfl, rfl⟩
  · cases stage <;> exact ⟨rfl, rfl, rfl, rfl⟩

omit [DecidableEq T] in
theorem notified_keeps (s : Latch T) (u : T) :
    (s.notified u).holds = (s.places u).holds ∧ (s.notified u).since = (s.places u).since ∧
      (s.notified u).blocked = (s.places u).blocked ∧
      (s.notified u).through = (s.places u).through := by
  rw [Latch.notified]
  split
  · exact wake_keeps (s.places u)
  · exact ⟨rfl, rfl, rfl, rfl⟩

omit [DecidableEq T] in
theorem kept_start (small : count < 2 ^ 16) : Kept count (start count : Latch T) where
  sole t := by simp [start, Place.holds]
  tally := Nat.mod_eq_of_lt small
  started t n := by simp [start, Place.since]
  through t := by simp [start, Place.through]

/-- A step of `down()` that leaves every `wait()` where it was, or wakes it. -/
theorem kept_down {t : T} {stage : Down} {places : T → Place} (held : Kept count s)
    (same : ∀ u, (places u).since = (s.places u).since ∧ (places u).through = (s.places u).through)
    (moved : next.places = Function.update places t (.down stage))
    (more : s.completed ≤ next.completed) (sole : Sole next.holder Place.holds next.places)
    (tally : (next.count + next.completed + pending next) % 2 ^ 16 = count) : Kept count next := by
  refine ⟨sole, tally, ?_, ?_⟩
  · intro u n began
    rw [moved, Function.update_apply] at began
    split at began
    · contradiction
    · exact Nat.le_trans (held.started u n ((same u).1 ▸ began)) more
  · intro u done
    rw [moved, Function.update_apply] at done
    split at done
    · contradiction
    · exact Nat.le_trans (held.through u ((same u).2 ▸ done)) more

section Section
variable {t : T}

omit [DecidableEq T] in
theorem pending_counting (sole : Sole s.holder Place.holds s.places)
    (here : s.places t = .down .counting) : pending s = 0 := by
  rw [pending_of_holder ((sole t).mpr (by simp [here, Place.holds])), here]
  rfl

@[simp] theorem decrement_holder : (s.decrement t).holder = s.holder := rfl
@[simp] theorem decrement_completed : (s.decrement t).completed = s.completed := rfl
@[simp] theorem decrement_places :
    (s.decrement t).places = Function.update s.places t (.down .decremented) := rfl
@[simp] theorem notify_holder : (s.notify t).holder = s.holder := rfl
@[simp] theorem notify_places :
    (s.notify t).places = Function.update s.notified t (.down .counted) := rfl

theorem pending_decrement (has : s.holder = some t) : pending (s.decrement t) = 1 := by
  rw [pending_of_holder (decrement_holder.trans has), decrement_places, Function.update_self,
    Place.tallied]

theorem pending_notify (has : s.holder = some t) : pending (s.notify t) = 1 := by
  rw [pending_of_holder (notify_holder.trans has), notify_places, Function.update_self,
    Place.tallied]

theorem notify_sole (sole : Sole s.holder Place.holds s.places)
    (here : s.places t = .down .decremented) : Sole (s.notify t).holder Place.holds (s.notify t).places := by
  have woken : Sole s.holder Place.holds s.notified := by
    intro u
    rw [(notified_keeps s u).1]
    exact sole u
  refine woken.stay ?_
  rw [(notified_keeps s t).1, here]
  rfl

end Section

theorem kept_step (held : Kept count s) (changed : Change s e next) : Kept count next := by
  have sole := held.sole
  have tally := held.tally
  cases changed with
  | move _ t place holder _ before after now since _ passes =>
    refine ⟨now, ?_, ?_, ?_⟩
    · rw [pending_put sole before after now]
      exact tally
    · intro u n began
      rw [put_places] at began
      split at began
      · rcases since with same | ⟨fresh, -⟩
        · exact held.started t n (same ▸ began)
        · rw [fresh] at began
          exact Nat.le_of_eq (Option.some.inj began).symm
      · exact held.started u n began
    · intro u done
      rw [put_places] at done
      split at done
      · rcases passes done with old | ⟨zero, has⟩
        · exact held.through t old
        · -- nobody else has the mutex, so all that is off the counter is completed
          rw [pending_of_holder has, before, zero, Nat.zero_add, Nat.add_zero] at tally
          exact tally ▸ Nat.mod_le _ _
      · exact held.through u done
  | decrement t here =>
    have has : s.holder = some t := (sole t).mpr (by simp [here, Place.holds])
    rw [pending_counting sole here] at tally
    refine kept_down held (fun _ => ⟨rfl, rfl⟩) decrement_places (by simp)
      (sole.stay (by rw [here]; rfl)) ?_
    rw [pending_decrement has]
    dsimp only [Latch.decrement, predecessor]
    split <;> omega
  | notify t here =>
    have has : s.holder = some t := (sole t).mpr (by simp [here, Place.holds])
    rw [pending_of_holder has, here, Place.tallied] at tally
    refine kept_down held (fun u => ⟨(notified_keeps s u).2.1, (notified_keeps s u).2.2.2⟩) rfl
      (Nat.le_refl _) (notify_sole sole here) ?_
    rw [pending_notify has]
    exact tally
  | complete t here =>
    have has : s.holder = some t := (sole t).mpr (by simp [here, Place.holds])
    rw [pending_of_holder has, here, Place.tallied] at tally
    refine kept_down held (fun _ => ⟨rfl, rfl⟩) rfl (Nat.le_succ _)
      (sole.release (by simp [here, Place.holds]) rfl) ?_
    simpa [Latch.complete, pending, Nat.add_assoc] using tally

/-- What carries the induction as long as the counter is not decremented below
zero: it has not wrapped, and no `wait()` that started late has been refused. -/
structure Counted (count : Nat) (s : Latch T) : Prop extends Kept count s where
  unwrapped : s.count + s.completed + pending s = count
  unblocked : ∀ t n, (s.places t).since = some n → count ≤ n → (s.places t).blocked = false

omit [DecidableEq T] in
theorem Counted.staysOpen (held : Counted count s) : StaysOpen count s where
  unblocked := held.unblocked
  ready late := by
    have unwrapped := held.unwrapped
    omega

omit [DecidableEq T] in
theorem counted_start (small : count < 2 ^ 16) : Counted count (start count : Latch T) where
  toKept := kept_start small
  unwrapped := by simp [start, pending]
  unblocked t n began := by simp [start, Place.since] at began

/-- A step of `down()` refuses nobody. -/
theorem unblocked_down {t : T} {stage : Down} {places : T → Place} (held : Counted count s)
    (same : ∀ u, (places u).since = (s.places u).since ∧ (places u).blocked = (s.places u).blocked)
    (u : T) (n : Nat) (began : (Function.update places t (.down stage) u).since = some n)
    (late : count ≤ n) : (Function.update places t (.down stage) u).blocked = false := by
  rw [Function.update_apply] at began ⊢
  split at began
  · contradiction
  · rename_i other
    rw [if_neg other, (same u).2]
    exact held.unblocked u n ((same u).1 ▸ began) late

theorem counted_step (held : Counted count s) (suited : Suits s e) (changed : Change s e next) :
    Counted count next := by
  have sole := held.sole
  have unwrapped := held.unwrapped
  have kept := kept_step held.toKept changed
  cases changed with
  | move _ t place holder _ before after now since blocks _ =>
    refine ⟨kept, ?_, ?_⟩
    · rw [pending_put sole before after now]
      exact unwrapped
    · intro u n began late
      rw [put_places] at began ⊢
      split at began
      · rename_i same
        rw [if_pos same]
        rcases since with kept | ⟨-, clear⟩
        · rw [kept] at began
          by_contra refused
          rcases blocks (by simpa using refused) with old | nonzero
          · simp [held.unblocked t n began late] at old
          · -- the counter is not zero, so this call started early
            have early := held.started t n began
            omega
        · exact clear
      · rename_i other
        rw [if_neg other]
        exact held.unblocked u n began late
  | decrement t here =>
    have has : s.holder = some t := (sole t).mpr (by simp [here, Place.holds])
    have nonzero : s.count ≠ 0 := suited
    rw [pending_counting sole here] at unwrapped
    refine ⟨kept, ?_, unblocked_down held fun _ => ⟨rfl, rfl⟩⟩
    rw [pending_decrement has]
    dsimp only [Latch.decrement, predecessor]
    rw [if_neg nonzero]
    omega
  | notify t here =>
    have has : s.holder = some t := (sole t).mpr (by simp [here, Place.holds])
    rw [pending_of_holder has, here, Place.tallied] at unwrapped
    refine ⟨kept, ?_, unblocked_down held fun u =>
      ⟨(notified_keeps s u).2.1, (notified_keeps s u).2.2.1⟩⟩
    rw [pending_notify has]
    exact unwrapped
  | complete t here =>
    have has : s.holder = some t := (sole t).mpr (by simp [here, Place.holds])
    rw [pending_of_holder has, here, Place.tallied] at unwrapped
    refine ⟨kept, ?_, unblocked_down held fun _ => ⟨rfl, rfl⟩⟩
    simpa [Latch.complete, pending, Nat.add_assoc] using unwrapped

/-- A counter decremented below zero shuts the latch. -/
theorem suits_of_staysOpen (held : Counted count s) (changed : Change s e next)
    (after : StaysOpen count next) : Suits s e := by
  cases changed with
  | move e _ _ _ quiet =>
    cases e with
    | decrement u => exact absurd rfl (quiet u)
    | _ => trivial
  | decrement t here =>
    intro zero
    have unwrapped := held.unwrapped
    rw [pending_counting held.sole here] at unwrapped
    have shut := after.ready (by rw [decrement_completed]; omega)
    simp [Latch.decrement, predecessor, zero] at shut
  | notify => trivial
  | complete => trivial

/-- For every counter and every interleaving of calls of `down()` and `wait()`:
no `wait()` returns before `count` calls of `down()` have completed; and the
latch stays open after them exactly when the counter is never decremented below
zero. -/
theorem latch_stays_open_iff (small : count < 2 ^ 16) {events : List (Event T)} {final : Latch T}
    (ran : run step (start count) events = some final) :
    Released count final ∧
    (Throughout step (StaysOpen count) (start count) events ↔
      Meets step Suits (start count) events) := by
  constructor
  · have kept : Kept count final :=
      run_keeps (fun _ _ _ held stepped => kept_step held (step_change held.sole stepped))
        (kept_start small) ran
    intro t n returned
    exact kept.through t (by simp [returned, Place.through])
  · refine throughout_iff_meets_of_run ?_ ?_ (fun _ => Counted.staysOpen) (counted_start small) ran
    · intro s e next held suited stepped
      exact counted_step held suited (step_change held.sole stepped)
    · intro s e next held stepped after
      exact suits_of_staysOpen held (step_change held.sole stepped) after

/-- One call waits for the latch, one comes when it is open. -/
theorem latch_stays_open_twice :
    let events : List (Event Nat) := [.enter 1, .lockWait 1, .test 1, .sleep 1, .lockDown 0,
      .decrement 0, .notify 0, .unlockDown 0, .enter 2, .lockWait 2, .test 2, .unlockWait 2,
      .relock 1, .test 1, .unlockWait 1]
    Throughout step (StaysOpen 1) (start 1) events :=
  (latch_stays_open_iff (by decide) rfl).2.mpr (by decide)

/-- A second `down()` shuts a latch of one: the counter is at its largest value,
and a `wait()` that starts then sleeps. -/
theorem second_down_shuts :
    let events : List (Event Nat) := [.lockDown 0, .decrement 0, .notify 0, .unlockDown 0,
      .lockDown 1, .decrement 1, .notify 1, .unlockDown 1, .enter 2, .lockWait 2, .test 2, .sleep 2]
    (run step (start 1) events).map (fun s => (s.count, s.completed, s.places 2)) =
        some (65535, 2, .wait .sleeping 2) ∧
      ¬ Throughout step (StaysOpen 1) (start 1) events := by
  intro events
  have reached : (run step (start 1) events).map (fun s => (s.count, s.completed, s.places 2)) =
      some (65535, 2, .wait .sleeping 2) := rfl
  refine ⟨reached, fun held => ?_⟩
  obtain ⟨final, ran, stays⟩ := held.final
  rw [ran, Option.map_some] at reached
  have asleep : final.places 2 = .wait .sleeping 2 := by
    injection reached with reached
    exact congrArg (fun shown => shown.2.2) reached
  have unblocked := stays.unblocked 2 2 (by rw [asleep]; rfl) (by decide)
  rw [asleep] at unblocked
  contradiction

/-! ### Few calls

`Thread` makes one call of `down()` on its `Count<1>`: a latch that is counted
down no more often than its count stays open. -/

def Event.isDecrement : Event T → Bool
  | .decrement _ => true
  | _ => false

theorem meets_of_few {events : List (Event T)} (held : Kept count s)
    (few : events.countP Event.isDecrement ≤ s.count) : Meets step Suits s events := by
  induction events generalizing s with
  | nil => trivial
  | cons e rest ih =>
    refine ⟨?_, fun next stepped => ?_⟩
    · cases e with
      | decrement t =>
        intro zero
        simp [zero, Event.isDecrement] at few
      | _ => trivial
    · have changed := step_change held.sole stepped
      refine ih (kept_step held changed) ?_
      rw [List.countP_cons] at few
      cases changed with
      | move e t place holder quiet =>
        exact Nat.le_trans (Nat.le_add_right _ _) few
      | decrement t here =>
        simp only [Event.isDecrement, if_true] at few
        dsimp only [Latch.decrement, predecessor]
        rw [if_neg (by omega)]
        omega
      | notify => exact Nat.le_trans (Nat.le_add_right _ _) few
      | complete => exact Nat.le_trans (Nat.le_add_right _ _) few

theorem few_downs_stay_open (small : count < 2 ^ 16) {events : List (Event T)} {final : Latch T}
    (ran : run step (start count) events = some final)
    (few : events.countP Event.isDecrement ≤ count) :
    Throughout step (StaysOpen count) (start count) events := by
  have met : Meets step Suits (start count) events := meets_of_few (kept_start small) few
  have kept : ∀ (s : Latch T) e next, Counted count s → Suits s e → step s e = some next →
      Counted count next :=
    fun s e next held suited stepped => counted_step held suited (step_change held.sole stepped)
  exact (throughout_of_run kept (counted_start small) ran met).mono fun _ => Counted.staysOpen

end ExNetlink.CountLatch
