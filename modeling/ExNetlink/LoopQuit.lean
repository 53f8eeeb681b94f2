import ExNetlink.Runs
import Mathlib.Tactic.Common

/-! Quitting an event loop that a `Thread` runs.

The constructor of `Thread` waits on a latch that the new thread opens before
it enters its function, so it may return before `Loop::run` has begun. From
then on any thread may call `quit()`; a function that the loop calls may do so
as well. `Loop::run` clears the flag first of all, and with it every request
made before. -/
namespace ExNetlink.LoopQuit
open Runs

/-- Where the new thread stands, from `Thread::run` to the end of `Loop::run`. -/
inductive Place where
  /-- Before `once_.down()`. -/
  | naming
  /-- Before `is_quit_ = false`. -/
  | entering
  /-- At `if (is_quit_) break`. -/
  | test
  | idle
  | io
  | timer
  | runable
  | left
  deriving DecidableEq, Repr

namespace Place

/-- In the loop of `Loop::run`. -/
def looping : Place → Bool
  | test | idle | io | timer | runable => true
  | _ => false

/-- The next line of an iteration. -/
def following : Place → Option Place
  | idle => some io
  | io => some timer
  | timer => some runable
  | runable => some test
  | _ => none

end Place

/-- The thread, its loop, and what has been asked of it. -/
structure Quitting where
  place : Place
  /-- `count_` of `once_`. -/
  count : Nat
  /-- The constructor of `Thread` has returned. -/
  constructed : Bool
  isQuit : Bool
  /-- `quit()` has been called. -/
  requested : Bool
  /-- The number of iterations begun after the first `quit()`. -/
  late : Nat
  deriving DecidableEq, Repr

inductive Event where
  /-- `once_.down()`. -/
  | down
  /-- `once_.wait()` returns, and the constructor with it. -/
  | construct
  /-- `quit()`, by another thread or by a function that the loop calls. -/
  | quit
  /-- `is_quit_ = false`. -/
  | reset
  | test
  /-- The loop thread goes on to the next line. -/
  | proceed
  deriving DecidableEq, Repr

/-- A new loop, and a thread that has just been started on it. -/
def start : Quitting where
  place := .naming
  count := 1
  constructed := false
  isQuit := true
  requested := false
  late := 0

/-- The state after an event, for an event that can happen. -/
def step (s : Quitting) : Event → Option Quitting
  | .down => if s.place = .naming then some { s with count := s.count - 1, place := .entering } else none
  | .construct => if s.count = 0 then some { s with constructed := true } else none
  | .quit =>
    if s.constructed ∨ s.place.looping then some { s with isQuit := true, requested := true } else none
  | .reset => if s.place = .entering then some { s with isQuit := false, place := .test } else none
  | .test =>
    if s.place = .test then
      if s.isQuit then some { s with place := .left }
      else some { s with place := .idle, late := if s.requested then s.late + 1 else s.late }
    else none
  | .proceed => s.place.following.map fun place => { s with place := place }

/-- After a `quit()` the flag is set, no iteration has begun, and the loop
leaves after what is left of the one in progress. -/
def Honoured (s : Quitting) : Prop :=
  s.requested = true → s.isQuit = true ∧ s.late = 0 ∧
    (s.place.looping = true → ∃ rest final, rest.length ≤ 4 ∧ (∀ e ∈ rest, e = Event.proceed) ∧
      run step s (rest ++ [.test]) = some final ∧ final.place = .left)

/-- `Loop::run` clears the flag before the first `quit()`. -/
def Suits (s : Quitting) : Event → Prop
  | .reset => s.requested = false
  | _ => True

instance (s : Quitting) : DecidablePred (Suits s)
  | .reset => inferInstanceAs (Decidable (s.requested = false))
  | .down | .construct | .quit | .test | .proceed => isTrue trivial

variable {s next : Quitting}

/-- From anywhere in the loop the flag is met within an iteration. -/
theorem leaves_of_isQuit (quitting : s.isQuit = true) (looping : s.place.looping = true) :
    ∃ rest final, rest.length ≤ 4 ∧ (∀ e ∈ rest, e = Event.proceed) ∧
      run step s (rest ++ [.test]) = some final ∧ final.place = .left := by
  obtain ⟨place, count, constructed, isQuit, requested, late⟩ := s
  obtain rfl : isQuit = true := quitting
  cases place with
  | test => exact ⟨[], _, by simp, by simp, rfl, rfl⟩
  | runable => exact ⟨[.proceed], _, by simp, by simp, rfl, rfl⟩
  | timer => exact ⟨[.proceed, .proceed], _, by simp, by simp, rfl, rfl⟩
  | io => exact ⟨[.proceed, .proceed, .proceed], _, by simp, by simp, rfl, rfl⟩
  | idle => exact ⟨[.proceed, .proceed, .proceed, .proceed], _, by simp, by simp, rfl, rfl⟩
  | naming | entering | left => contradiction

/-- What carries the induction: the flag, and no iteration since the request. -/
def Kept (s : Quitting) : Prop := s.requested = true → s.isQuit = true ∧ s.late = 0

theorem Kept.honoured (kept : Kept s) : Honoured s := by
  intro requested
  obtain ⟨quitting, none⟩ := kept requested
  exact ⟨quitting, none, leaves_of_isQuit quitting⟩

theorem kept_step {e : Event} (fresh : s.requested = false → s.late = 0) (kept : Kept s)
    (suited : Suits s e) (stepped : step s e = some next) :
    (next.requested = false → next.late = 0) ∧ Kept next := by
  cases e with
  | down =>
    obtain ⟨-, rfl⟩ := guarded_eq_some.mp stepped
    exact ⟨fresh, kept⟩
  | construct =>
    obtain ⟨-, rfl⟩ := guarded_eq_some.mp stepped
    exact ⟨fresh, kept⟩
  | quit =>
    obtain ⟨-, rfl⟩ := guarded_eq_some.mp stepped
    refine ⟨nofun, fun _ => ⟨rfl, ?_⟩⟩
    by_cases requested : s.requested = true
    · exact (kept requested).2
    · exact fresh (by simpa using requested)
  | reset =>
    obtain ⟨-, rfl⟩ := guarded_eq_some.mp stepped
    have unasked : s.requested = false := suited
    exact ⟨fresh, fun requested => by simp [unasked] at requested⟩
  | test =>
    rw [step] at stepped
    split at stepped
    · split at stepped
      · obtain rfl := Option.some.inj stepped
        exact ⟨fresh, kept⟩
      · rename_i running
        obtain rfl := Option.some.inj stepped
        have unasked : s.requested = false := by
          by_contra requested
          exact running (kept (by simpa using requested)).1
        refine ⟨fun _ => ?_, fun requested => by simp [unasked] at requested⟩
        simpa [unasked] using fresh unasked
    · contradiction
  | proceed =>
    obtain ⟨place, -, rfl⟩ := Option.map_eq_some_iff.mp stepped
    exact ⟨fresh, kept⟩

/-- Over every run of the thread and of those that call `quit()`: after a
`quit()` the flag stays set and the loop leaves after the iteration in
progress, exactly when `Loop::run` clears the flag before the first `quit()`. -/
theorem quit_honoured_iff {events : List Event} {final : Quitting}
    (ran : run step start events = some final) :
    Throughout step Honoured start events ↔ Meets step Suits start events := by
  have kept : ∀ (s : Quitting) e next, ((s.requested = false → s.late = 0) ∧ Kept s) → Suits s e →
      step s e = some next → (next.requested = false → next.late = 0) ∧ Kept next := by
    rintro s e next ⟨fresh, kept⟩ suited stepped
    exact kept_step fresh kept suited stepped
  refine throughout_iff_meets_of_run kept ?_ (fun s held => held.2.honoured)
    ⟨fun _ => rfl, nofun⟩ ran
  intro s e next _ stepped honoured
  cases e with
  | reset =>
    obtain ⟨-, rfl⟩ := guarded_eq_some.mp stepped
    by_contra requested
    have set := (honoured (by simpa [Suits] using requested)).1
    contradiction
  | _ => trivial

/-- A `quit()` in the middle of the second iteration. -/
theorem quit_honoured_running :
    Throughout step Honoured start [.down, .construct, .reset, .test, .proceed, .proceed, .proceed,
      .proceed, .test, .proceed, .quit, .proceed, .proceed, .proceed, .test] :=
  (quit_honoured_iff rfl).mpr (by decide)

/-- A `quit()` between the constructor's return and the reset is lost. -/
theorem quit_before_run_lost :
    (run step start [.down, .construct, .quit, .reset, .test]).map
        (fun s => (s.requested, s.isQuit, s.place)) = some (true, false, .idle) ∧
      ¬ Throughout step Honoured start [.down, .construct, .quit, .reset, .test] := by
  refine ⟨by decide, fun held => ?_⟩
  obtain ⟨s, ran, honoured⟩ := held.final
  obtain rfl : _ = s := Option.some.inj ran
  exact absurd (honoured rfl).1 (by decide)

end ExNetlink.LoopQuit
