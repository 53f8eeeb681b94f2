import Mathlib.Data.List.Sort
import Mathlib.Tactic.Common

/-! The event loop of `set/loop/Loop.h` and `Loop.cpp`: its task vectors and
their mutexes, and its timers.

A function handed to the loop is a value of `τ`, which the loop only stores and
calls. Timestamps are microseconds since the epoch; nothing here computes past
one, so they are natural numbers. -/
namespace ExNetlink.Loop

/-! ### Task vectors -/

/-- `idle_` and `runable_`. -/
inductive Vector where
  | idle
  | runable
  deriving DecidableEq, Repr

/-- `idle_mut_` and `run_mut_`. -/
inductive Mutex where
  | idleMut
  | runMut
  deriving DecidableEq, Repr

/-- The calls that lock one of the two: `push_runnable` from `pushIdle` and
from `pushRunable`, and `handle_runnable` at its two places in `Loop::run`. -/
inductive Op (τ : Type) where
  | pushIdle (runnable : τ)
  | pushRunable (runnable : τ)
  | handleIdle
  | handleRunable
  deriving DecidableEq, Repr

namespace Op

/-- The vector argument of the call. -/
def vector : Op τ → Vector
  | pushIdle _ => .runable
  | pushRunable _ => .idle
  | handleIdle => .idle
  | handleRunable => .runable

/-- The mutex argument of the call. -/
def mutex : Op τ → Mutex
  | pushIdle _ => .idleMut
  | pushRunable _ => .runMut
  | handleIdle => .idleMut
  | handleRunable => .runMut

end Op

/-! ### Timers -/

/-- `struct timer`. -/
structure Timer (τ : Type) where
  timestamp : Nat
  runnable : τ
  deriving DecidableEq, Repr

/-- `timer_.emplace`. The queue is kept with its least timestamp in front, where
`top()` and `pop()` work. -/
def emplace (timer : List (Timer τ)) (timestamp : Nat) (func : τ) : List (Timer τ) :=
  timer.orderedInsert (fun a b => a.timestamp ≤ b.timestamp) { timestamp, runnable := func }

/-- What a call of `handle_timer` does. -/
structure Handled (τ : Type) where
  /-- The timers whose function was called, in that order. -/
  executed : List (Timer τ)
  remaining : List (Timer τ)
  /-- The new value of the thread-local `outtime`. -/
  outtime : Nat
  deriving DecidableEq, Repr

/-- The loop of `handle_timer`; `t` is its local variable, `outtime` at first. -/
def handleTimer (timestamp : Nat) : List (Timer τ) → Nat → Handled τ
  | [], t => { executed := [], remaining := [], outtime := t }
  | top :: rest, _ =>
    let t := top.timestamp
    if t > timestamp then { executed := [], remaining := top :: rest, outtime := t }
    else
      let later := handleTimer timestamp rest t
      { later with executed := top :: later.executed }

/-- `get_outtime` at clock reading `t`. -/
def getOuttime (t outtime : Nat) : Nat := if t > outtime then t - outtime else 0

theorem getOuttime_eq (t outtime : Nat) : getOuttime t outtime = t - outtime := by
  rw [getOuttime]
  split <;> omega

@[simp] theorem handleTimer_nil (timestamp t : Nat) :
    handleTimer timestamp ([] : List (Timer τ)) t = { executed := [], remaining := [], outtime := t } :=
  rfl

theorem handleTimer_pending {timestamp : Nat} {top : Timer τ} (pending : top.timestamp > timestamp)
    (rest : List (Timer τ)) (t : Nat) : handleTimer timestamp (top :: rest) t =
      { executed := [], remaining := top :: rest, outtime := top.timestamp } := by
  rw [handleTimer, if_pos pending]

theorem handleTimer_due {timestamp : Nat} {top : Timer τ} (due : ¬ top.timestamp > timestamp)
    (rest : List (Timer τ)) (t : Nat) : handleTimer timestamp (top :: rest) t =
      { handleTimer timestamp rest top.timestamp with
        executed := top :: (handleTimer timestamp rest top.timestamp).executed } := by
  rw [handleTimer, if_neg due]

/-- `outtime` is the timestamp of the timer the loop stopped at; else of the
last one it executed; else it is unchanged. -/
theorem handleTimer_outtime (timestamp : Nat) (timer : List (Timer τ)) (t : Nat) :
    (handleTimer timestamp timer t).outtime =
      ((handleTimer timestamp timer t).remaining.head?.map Timer.timestamp).getD
        (((handleTimer timestamp timer t).executed.getLast?.map Timer.timestamp).getD t) := by
  induction timer generalizing t with
  | nil => rfl
  | cons top rest ih =>
    by_cases pending : top.timestamp > timestamp
    · rw [handleTimer_pending pending]
      rfl
    · rw [handleTimer_due pending]
      simp only [ih top.timestamp, List.getLast?_cons]
      congr 1
      cases (handleTimer timestamp rest top.timestamp).executed.getLast? <;> rfl

end ExNetlink.Loop
