import ExNetlink.Loop
import ExNetlink.Runs

/-! How long `Loop::run` sleeps, against its pending timers.

The timeout of an iteration comes from the thread-local `outtime` that the
previous `handle_timer` left behind and from a later clock reading. The loop
thread goes through the phases of `Loop::run`; the clock, `runAt` and `quit`
interleave with it anywhere. `handle_timer` holds `time_mut_` from its first
look at the queue to its last, so it is one step. A function that throws out of
`Loop::run` ends the run.

`get_outtime` subtracts the wrong way round: it yields the time since `outtime`
and not the time until it. A poll is in time only while that difference is
small enough. -/
namespace ExNetlink.LoopTimers
open Loop Runs

/-- Where the loop thread stands in `Loop::run`. -/
inductive Phase where
  | out
  /-- At `if (is_quit_) break`. -/
  | test
  | idle
  /-- At the call of `get_outtime`. -/
  | ask
  /-- At the call of `handle_io_source`, with the timeout and the clock reading it comes from. -/
  | poll (timeout reading : Nat)
  /-- At the call of `get_current_timestamp` for the timers. -/
  | read
  /-- At the call of `handle_timer`. -/
  | fire (timestamp : Nat)
  | runable
  deriving DecidableEq, Repr

/-- The loop, its thread and the clock. -/
structure Timing (τ : Type) where
  clock : Nat
  isQuit : Bool
  timer : List (Timer τ)
  outtime : Nat
  phase : Phase
  /-- The timer that the last `handle_timer` stopped at, if it stopped at one. -/
  left : Option Nat
  /-- The last timer executed, 0 before the first. -/
  fired : Nat
  deriving DecidableEq, Repr

/-- What the clock, the loop thread or another thread does. -/
inductive Event (τ : Type) where
  | advance (elapsed : Nat)
  | runAt (timestamp : Nat) (func : τ)
  | quit
  /-- `Loop::run` is called. -/
  | run
  | test
  | handleIdle
  | getOuttime
  | handleIoSource
  | getCurrentTimestamp
  | handleTimer
  | handleRunable
  deriving DecidableEq, Repr

/-- A fresh loop on a fresh thread. -/
def start (clock : Nat) : Timing τ where
  clock := clock
  isQuit := true
  timer := []
  outtime := 0
  phase := .out
  left := none
  fired := 0

/-- The state after `handle_timer` was called at `timestamp`. -/
def fire (s : Timing τ) (timestamp : Nat) : Timing τ :=
  let handled := Loop.handleTimer timestamp s.timer s.outtime
  { s with
    timer := handled.remaining
    outtime := handled.outtime
    phase := .runable
    left := handled.remaining.head?.map Timer.timestamp
    fired := (handled.executed.getLast?.map Timer.timestamp).getD s.fired }

/-- The state after an event, for an event that can happen. A later `run` is
by the same thread, since `outtime` is `thread_local`; on a fresh thread it
starts from 0, as in `start` after the same calls of `runAt`. -/
def step (s : Timing τ) : Event τ → Option (Timing τ)
  | .advance elapsed => some { s with clock := s.clock + elapsed }
  | .runAt timestamp func => some { s with timer := emplace s.timer timestamp func }
  | .quit => some { s with isQuit := true }
  | .run => if s.phase = .out then some { s with isQuit := false, phase := .test } else none
  | .test =>
    if s.phase = .test then some { s with phase := if s.isQuit then .out else .idle } else none
  | .handleIdle => if s.phase = .idle then some { s with phase := .ask } else none
  | .getOuttime =>
    if s.phase = .ask then
      some { s with phase := .poll (Loop.getOuttime s.clock s.outtime) s.clock }
    else none
  | .handleIoSource =>
    match s.phase with
    | .poll _ _ => some { s with phase := .read }
    | _ => none
  | .getCurrentTimestamp =>
    if s.phase = .read then some { s with phase := .fire s.clock } else none
  | .handleTimer =>
    match s.phase with
    | .fire timestamp => some (fire s timestamp)
    | _ => none
  | .handleRunable => if s.phase = .runable then some { s with phase := .test } else none

/-- `due` is the least timestamp among the pending timers. -/
def Earliest (timer : List (Timer τ)) (due : Nat) : Prop :=
  due ∈ timer.map Timer.timestamp ∧ ∀ other ∈ timer.map Timer.timestamp, due ≤ other

instance (timer : List (Timer τ)) (due : Nat) : Decidable (Earliest timer due) :=
  inferInstanceAs (Decidable (_ ∧ _))

/-- A call of `handle_io_source` does not sleep past the earliest pending timer:
natural subtraction makes the bound 0 when that timer is due. -/
def Timely (s : Timing τ) : Event τ → Prop
  | .handleIoSource => ∀ timeout reading due, s.phase = .poll timeout reading →
    Earliest s.timer due → timeout ≤ due - reading
  | _ => True

/-- With a timer pending, the clock has not passed the timer that the last
`handle_timer` stopped at; or, when it stopped at none, the clock has not passed
the last timer executed, or is at most halfway from it to the pending one. -/
def Suits (s : Timing τ) : Event τ → Prop
  | .handleIoSource => ∀ timeout reading due, s.phase = .poll timeout reading →
    Earliest s.timer due →
    match s.left with
    | some stopped => reading ≤ stopped
    | none => reading ≤ s.fired ∨ 2 * reading ≤ s.fired + due
  | _ => True

/-- How `outtime` follows from the history. -/
structure Recorded (s : Timing τ) : Prop where
  outtime : s.outtime = s.left.getD s.fired
  /-- The timer stopped at stays in the queue until the next `handle_timer`. -/
  pending : ∀ stopped, s.left = some stopped → stopped ∈ s.timer.map Timer.timestamp
  timeout : ∀ timeout reading, s.phase = .poll timeout reading →
    timeout = Loop.getOuttime reading s.outtime

theorem start_recorded (clock : Nat) : Recorded (start clock : Timing τ) where
  outtime := rfl
  pending _ stopped := by simp [start] at stopped
  timeout _ _ polling := by simp [start] at polling

/-- A step of the loop thread that is not a call of `handle_timer`. -/
theorem Recorded.move {s : Timing τ} (recorded : Recorded s) (phase : Phase) (isQuit : Bool)
    (timely : ∀ timeout reading, phase = .poll timeout reading →
      timeout = Loop.getOuttime reading s.outtime) :
    Recorded { s with phase := phase, isQuit := isQuit } where
  outtime := recorded.outtime
  pending := recorded.pending
  timeout := timely

/-- An empty queue leaves `outtime` alone, and then no timer was stopped at. -/
theorem Recorded.fire {s : Timing τ} (recorded : Recorded s) (timestamp : Nat) :
    Recorded (fire s timestamp) where
  outtime := by
    change (Loop.handleTimer timestamp s.timer s.outtime).outtime = _
    rw [handleTimer_outtime]
    cases queued : s.timer with
    | nil =>
      have none_left : s.left = none := Option.eq_none_iff_forall_not_mem.mpr fun stopped left => by
        simpa [queued] using recorded.pending stopped left
      have outtime := recorded.outtime
      rw [none_left] at outtime
      simpa [LoopTimers.fire, queued] using outtime
    | cons top rest =>
      by_cases pending : top.timestamp > timestamp
      · simp [LoopTimers.fire, queued, handleTimer_pending pending]
      · simp [LoopTimers.fire, queued, handleTimer_due pending, List.getLast?_cons]
  pending stopped left := by
    obtain ⟨top, first, rfl⟩ := Option.map_eq_some_iff.mp left
    exact List.mem_map_of_mem (List.mem_of_head? first)
  timeout _ _ polling := by simp [LoopTimers.fire] at polling

theorem recorded_step (s : Timing τ) (e : Event τ) (next : Timing τ) (recorded : Recorded s)
    (stepped : step s e = some next) : Recorded next := by
  cases e with
  | advance elapsed =>
    obtain rfl := Option.some.inj stepped
    exact ⟨recorded.outtime, recorded.pending, recorded.timeout⟩
  | runAt timestamp func =>
    obtain rfl := Option.some.inj stepped
    refine ⟨recorded.outtime, fun stopped left => ?_, recorded.timeout⟩
    obtain ⟨timer, member, same⟩ := List.mem_map.mp (recorded.pending stopped left)
    exact List.mem_map.mpr ⟨timer, (List.mem_orderedInsert _).mpr (.inr member), same⟩
  | quit =>
    obtain rfl := Option.some.inj stepped
    exact recorded.move s.phase true recorded.timeout
  | run =>
    obtain ⟨-, rfl⟩ := guarded_eq_some.mp stepped
    exact recorded.move .test false (by simp)
  | test =>
    obtain ⟨-, rfl⟩ := guarded_eq_some.mp stepped
    exact recorded.move _ s.isQuit (by split <;> simp)
  | handleIdle =>
    obtain ⟨-, rfl⟩ := guarded_eq_some.mp stepped
    exact recorded.move .ask s.isQuit (by simp)
  | getOuttime =>
    obtain ⟨-, rfl⟩ := guarded_eq_some.mp stepped
    refine recorded.move _ s.isQuit fun timeout reading polling => ?_
    obtain ⟨rfl, rfl⟩ := Phase.poll.inj polling
    rfl
  | handleIoSource =>
    rw [step] at stepped
    split at stepped
    · obtain rfl := Option.some.inj stepped
      exact recorded.move .read s.isQuit (by simp)
    · contradiction
  | getCurrentTimestamp =>
    obtain ⟨-, rfl⟩ := guarded_eq_some.mp stepped
    exact recorded.move _ s.isQuit (by simp)
  | handleTimer =>
    rw [step] at stepped
    split at stepped
    · obtain rfl := Option.some.inj stepped
      exact recorded.fire _
    · contradiction
  | handleRunable =>
    obtain ⟨-, rfl⟩ := guarded_eq_some.mp stepped
    exact recorded.move .test s.isQuit (by simp)

/-- The bound on one timeout, with `outtime` read off the history. -/
theorem timeout_le_iff {s : Timing τ} (recorded : Recorded s) {reading due : Nat}
    (earliest : Earliest s.timer due) :
    Loop.getOuttime reading s.outtime ≤ due - reading ↔
      match s.left with
      | some stopped => reading ≤ stopped
      | none => reading ≤ s.fired ∨ 2 * reading ≤ s.fired + due := by
  rw [getOuttime_eq, recorded.outtime]
  cases left : s.left with
  | none =>
    change reading - s.fired ≤ due - reading ↔ reading ≤ s.fired ∨ 2 * reading ≤ s.fired + due
    omega
  | some stopped =>
    -- the timer stopped at is still pending, so the earliest one is no later
    have before : due ≤ stopped := earliest.2 stopped (recorded.pending stopped left)
    change reading - stopped ≤ due - reading ↔ reading ≤ stopped
    omega

theorem timely_iff_suits {s : Timing τ} (e : Event τ) (recorded : Recorded s) :
    Timely s e ↔ Suits s e := by
  cases e with
  | handleIoSource =>
    refine forall₃_congr fun timeout reading due => forall₂_congr fun polling earliest => ?_
    rw [recorded.timeout timeout reading polling]
    exact timeout_le_iff recorded earliest
  | _ => rfl

/-- Over every run, no poll sleeps past the earliest pending timer exactly when
at each poll with a timer pending the clock has not passed the timer that the
last `handle_timer` stopped at, or, with none, is at most halfway from the last
executed timer to the pending one. -/
theorem polls_timely_iff (clock : Nat) (events : List (Event τ)) :
    Meets step Timely (start clock) events ↔ Meets step Suits (start clock) events :=
  meets_congr recorded_step (fun _ e recorded => timely_iff_suits e recorded) events
    (start_recorded clock)

/-- The first poll of a loop with a timer due in five milliseconds: the timeout is the whole clock reading. -/
theorem first_poll_oversleeps :
    ¬ Meets step Timely (start 1700000000000000)
      [.runAt 1700000000005000 (), .run, .test, .handleIdle, .getOuttime, .handleIoSource] := by
  intro met
  have late := (((((met.2 _ rfl).2 _ rfl).2 _ rfl).2 _ rfl).2 _ rfl).1 1700000000000000
    1700000000000000 1700000000005000 rfl (by decide)
  exact absurd late (by decide)

end ExNetlink.LoopTimers
