import Mathlib.Data.List.Basic
import Mathlib.Logic.Function.Basic
import ExNetlink.Runs

/-! The thread pool of `set/thread_pool/ThreadPool.h`.

A pool is the shared `data` and `n` workers inside `bind_run`. Every critical
section under `mut_` is one step. `push` and `stop` notify after they have
unlocked, so each is two steps with a notification owed in between. A
`cond_.wait` releases `mut_` and joins the waiter set in the step that tested
the queue; it is woken by a notification or for no reason, and has to take
`mut_` once more before the loop goes round.

The pool never looks into a task. It is named by the number of pushes before
its own, so the tasks pushed so far are `0, ..., pushed - 1` in push order.
Whether a call returns or throws is for the run to say. -/
namespace ExNetlink.ThreadPool

/-- Where a worker stands in `bind_run`. -/
inductive Worker where
  /-- About to lock `mut_` at the start of an iteration. -/
  | top
  /-- In the waiter set of `cond_`. -/
  | waiting
  /-- Out of the waiter set, inside `wait` and without `mut_`. -/
  | woken
  /-- Calling a task it has taken, `mut_` unlocked. -/
  | calling (task : Nat)
  /-- In the handler around the call. -/
  | caught
  /-- Out of the loop. -/
  | left
  deriving DecidableEq, Repr

/-- `data`, the workers, and what has happened so far. -/
structure Pool (n : Nat) where
  stoped : Bool
  task : List Nat
  workers : Fin n → Worker
  /-- Calls of `push` that still owe their `notify_one`. -/
  ones : Nat
  /-- Calls of `stop` that still owe their `notify_all`. -/
  alls : Nat
  /-- The number of tasks pushed. -/
  pushed : Nat
  /-- Which worker took which task, in the order of the pops. -/
  taken : List (Fin n × Nat)
  /-- Whose call of which task has ended, by returning or by throwing. -/
  ended : List (Fin n × Nat)

/-- A step of a pusher, of the stopping thread, or of a worker. -/
inductive Event (n : Nat) where
  /-- The critical section of `push`. -/
  | push
  /-- `notify_one`, with the waiter it wakes. -/
  | notifyOne (waiter : Option (Fin n))
  /-- The critical section of `stop`. -/
  | stop
  | notifyAll
  /-- The critical section of an iteration of `bind_run`. -/
  | enter (w : Fin n)
  /-- A spurious wake-up. -/
  | spurious (w : Fin n)
  /-- `wait` returns with `mut_`, and the iteration ends. -/
  | resume (w : Fin n)
  /-- The task returns. -/
  | finish (w : Fin n)
  /-- The task throws. -/
  | throws (w : Fin n)
  /-- The handler ends, and the iteration with it. -/
  | report (w : Fin n)
  deriving DecidableEq, Repr

namespace Pool

/-- The pool as the constructor leaves it, with every worker before its first lock. -/
def start (n : Nat) : Pool n where
  stoped := false
  task := []
  workers := fun _ => .top
  ones := 0
  alls := 0
  pushed := 0
  taken := []
  ended := []

/-- Worker `w` moves to `place`. -/
def put (p : Pool n) (w : Fin n) (place : Worker) : Pool n :=
  { p with workers := Function.update p.workers w place }

/-- What `bind_run` does while it holds `mut_`. -/
def bindRun (p : Pool n) (w : Fin n) : Pool n :=
  match p.task with
  | front :: rest =>
    { p.put w (.calling front) with task := rest, taken := p.taken ++ [(w, front)] }
  | [] => if p.stoped then p.put w .left else p.put w .waiting

/-- The call of `task` by worker `w` ends and leaves it at `place`. -/
def endCall (p : Pool n) (w : Fin n) (task : Nat) (place : Worker) : Pool n :=
  { p.put w place with ended := p.ended ++ [(w, task)] }

/-- The state after an event, for an event that can happen. -/
def step (p : Pool n) : Event n → Option (Pool n)
  | .push => some { p with task := p.task ++ [p.pushed], pushed := p.pushed + 1, ones := p.ones + 1 }
  | .notifyOne (some w) =>
    if 0 < p.ones ∧ p.workers w = .waiting then some { p.put w .woken with ones := p.ones - 1 }
    else none
  | .notifyOne none =>
    -- nobody is woken only when nobody waits
    if 0 < p.ones ∧ ∀ w, p.workers w ≠ .waiting then some { p with ones := p.ones - 1 } else none
  | .stop => some { p with stoped := true, alls := p.alls + 1 }
  | .notifyAll =>
    if 0 < p.alls then
      some { p with
        workers := fun w => if p.workers w = .waiting then .woken else p.workers w
        alls := p.alls - 1 }
    else none
  | .enter w => if p.workers w = .top then some (p.bindRun w) else none
  | .spurious w => if p.workers w = .waiting then some (p.put w .woken) else none
  | .resume w => if p.workers w = .woken then some (p.put w .top) else none
  | .finish w =>
    match p.workers w with
    | .calling task => some (p.endCall w task .top)
    | _ => none
  | .throws w =>
    match p.workers w with
    | .calling task => some (p.endCall w task .caught)
    | _ => none
  | .report w => if p.workers w = .caught then some (p.put w .top) else none

theorem put_workers (p : Pool n) (w v : Fin n) (place : Worker) :
    (p.put w place).workers v = if v = w then place else p.workers v :=
  Function.update_apply p.workers w place v

end Pool
end ExNetlink.ThreadPool
