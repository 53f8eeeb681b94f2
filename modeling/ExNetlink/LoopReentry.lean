import Mathlib.Algebra.Order.Group.Multiset
import ExNetlink.Locks
import ExNetlink.LoopQueues
import ExNetlink.PriorityQueue

/-! Callbacks that call back into the event loop.

The functions that `Loop::run` calls may call `runAt`, `pushIdle`,
`pushRunable`, `registerIoHandle` and `quit`, as may other threads at any time.
`handle_runnable` has released its mutex before it calls anything. The loop of
`handle_timer` holds `time_mut_` while it calls the function on top, so a timer
callback that schedules a timer locks a mutex its own thread holds.

A mutex is taken in two steps: a thread first stands at the lock, and gets it
when nobody owns it. -/
namespace ExNetlink.LoopReentry
open Loop Runs Locks
open LoopQueues (Thread)

/-- `idle_mut_` and `run_mut_`, and `time_mut_`. -/
inductive Lock where
  | vector (mutex : Mutex)
  | time
  deriving DecidableEq, Repr

/-- A call into the loop. -/
inductive Call (τ : Type) where
  | runAt (timestamp : Nat) (func : τ)
  | pushIdle (runnable : τ)
  | pushRunable (runnable : τ)
  | registerIoHandle (handle : Nat)
  | quit
  deriving DecidableEq, Repr

/-- The mutex that the call locks. -/
def Call.lock : Call τ → Option Lock
  | runAt _ _ => some .time
  | pushIdle runnable => some (.vector (Op.pushIdle runnable).mutex)
  | pushRunable runnable => some (.vector (Op.pushRunable runnable).mutex)
  | registerIoHandle _ => none
  | quit => none

/-- How far a thread is in a call into the loop. -/
inductive Progress (τ : Type) where
  | idle
  /-- At the lock. -/
  | wants (call : Call τ) (lock : Lock)
  | holds (call : Call τ) (lock : Lock)
  deriving DecidableEq, Repr

def Progress.isIdle : Progress τ → Bool
  | .idle => true
  | _ => false

/-- Where the loop thread stands in `Loop::run`. -/
inductive Stage (τ : Type) where
  | out
  /-- At `if (is_quit_) break`. -/
  | test
  /-- At the lock of `handle_runnable(idle_, idle_mut_)`. -/
  | lockIdle
  | swapIdle
  /-- Calling what it has swapped out of `idle_`. -/
  | callIdle
  | io
  /-- At the lock of `handle_timer`. -/
  | lockTimer (timestamp : Nat)
  /-- At the head of the loop of `handle_timer`, with its local `t`. -/
  | timers (timestamp t : Nat)
  /-- Calling the function of the top element. -/
  | fire (timestamp : Nat) (element : Timer τ)
  /-- At the lock of `handle_runnable(runable_, run_mut_)`. -/
  | lockRunable
  | swapRunable
  /-- Calling what it has swapped out of `runable_`. -/
  | callRunable
  deriving DecidableEq, Repr

namespace Stage

/-- The mutex that the loop thread itself holds. -/
def lock : Stage τ → Option Lock
  | swapIdle => some (.vector (Op.handleIdle (τ := τ)).mutex)
  | swapRunable => some (.vector (Op.handleRunable (τ := τ)).mutex)
  | timers _ _ => some .time
  | fire _ _ => some .time
  | _ => none

/-- Whether functions are called that may call into the loop. -/
def callsBack : Stage τ → Bool
  | out | callIdle | io | fire _ _ | callRunable => true
  | _ => false

/-- The timer being executed, which is still in the queue. -/
def executing : Stage τ → Multiset (Timer τ)
  | fire _ element => {element}
  | _ => 0

end Stage

variable {Q : PriorityQueue (Timer τ) Timer.timestamp}

/-- The loop, the threads that use it, and what has happened to the timers. -/
structure Reentry (Q : PriorityQueue (Timer τ) Timer.timestamp) where
  vectors : Vector → List τ
  timer : Q.Queue
  outtime : Nat
  ioHandle : Option Nat
  isQuit : Bool
  owner : Lock → Option Thread
  inner : Thread → Progress τ
  stage : Stage τ
  /-- `funcs`, what is left of it. -/
  funcs : List τ
  /-- The timers that `runAt` has put into the queue. -/
  scheduled : List (Timer τ)
  /-- The timers whose function was called. -/
  executed : List (Timer τ)

/-- A step of one of the threads. -/
inductive Event (τ : Type) where
  /-- `Loop::run` is called. -/
  | run
  | test
  /-- The loop thread gets the mutex it stands at. -/
  | lock
  /-- `funcs.swap(runnables)` and the unlock after it. -/
  | swap
  /-- The next function of `funcs` is called. -/
  | call
  /-- A batch is over. -/
  | proceed
  /-- `handle_io_source` returns, and the clock is read for the timers. -/
  | getCurrentTimestamp (timestamp : Nat)
  /-- The head of the loop of `handle_timer`: leave it, or call the function on top. -/
  | top
  /-- The function on top has returned. -/
  | pop
  /-- A thread calls into the loop. -/
  | begins (t : Thread) (call : Call τ)
  | acquire (t : Thread)
  /-- The body of the call, and the unlock at its end. -/
  | perform (t : Thread)
  deriving DecidableEq, Repr

def start (Q : PriorityQueue (Timer τ) Timer.timestamp) : Reentry Q where
  vectors := fun _ => []
  timer := Q.empty
  outtime := 0
  ioHandle := none
  isQuit := true
  owner := fun _ => none
  inner := fun _ => .idle
  stage := .out
  funcs := []
  scheduled := []
  executed := []

/-- The body of a call. -/
def body (s : Reentry Q) : Call τ → Reentry Q
  | .runAt timestamp func => { s with
      timer := Q.emplace s.timer { timestamp, runnable := func }
      scheduled := s.scheduled ++ [{ timestamp, runnable := func }] }
  | .pushIdle runnable =>
    let vector := (Op.pushIdle runnable).vector
    { s with vectors := Function.update s.vectors vector (s.vectors vector ++ [runnable]) }
  | .pushRunable runnable =>
    let vector := (Op.pushRunable runnable).vector
    { s with vectors := Function.update s.vectors vector (s.vectors vector ++ [runnable]) }
  | .registerIoHandle handle => { s with ioHandle := some handle }
  | .quit => { s with isQuit := true }

/-- The mutex the loop thread stands at by itself, and its stage when it gets it. -/
def locking (s : Reentry Q) : Option (Lock × Stage τ) :=
  match s.stage with
  | .lockIdle => some (.vector (Op.handleIdle (τ := τ)).mutex, .swapIdle)
  | .lockTimer timestamp => some (.time, .timers timestamp s.outtime)
  | .lockRunable => some (.vector (Op.handleRunable (τ := τ)).mutex, .swapRunable)
  | _ => none

/-- Swap a vector out and unlock its mutex. -/
def swapOut (s : Reentry Q) (op : Op τ) (stage : Stage τ) : Reentry Q :=
  { s with
    vectors := Function.update s.vectors op.vector []
    funcs := s.vectors op.vector
    owner := Function.update s.owner (.vector op.mutex) none
    stage := stage }

/-- The end of `handle_timer`. -/
def leaveTimers (s : Reentry Q) (t : Nat) : Reentry Q :=
  { s with outtime := t, owner := Function.update s.owner .time none, stage := .lockRunable }

/-- The steps of the loop thread outside the calls of its callbacks. -/
def loopStep (s : Reentry Q) : Event τ → Option (Reentry Q)
  | .run =>
    match s.stage with
    | .out => some { s with isQuit := false, stage := .test }
    | _ => none
  | .test =>
    match s.stage with
    | .test => some { s with stage := if s.isQuit then .out else .lockIdle }
    | _ => none
  | .lock =>
    match locking s with
    | some (lock, stage) =>
      if s.owner lock = none then
        some { s with owner := Function.update s.owner lock (some .loop), stage := stage }
      else none
    | none => none
  | .swap =>
    match s.stage with
    | .swapIdle => some (swapOut s .handleIdle .callIdle)
    | .swapRunable => some (swapOut s .handleRunable .callRunable)
    | _ => none
  | .call =>
    match s.stage, s.funcs with
    | .callIdle, _ :: rest => some { s with funcs := rest }
    | .callRunable, _ :: rest => some { s with funcs := rest }
    | _, _ => none
  | .proceed =>
    match s.stage, s.funcs with
    | .callIdle, [] => some { s with stage := .io }
    | .callRunable, [] => some { s with stage := .test }
    | _, _ => none
  | .getCurrentTimestamp timestamp =>
    match s.stage with
    | .io => some { s with stage := .lockTimer timestamp }
    | _ => none
  | .top =>
    match s.stage with
    | .timers timestamp t =>
      match Q.top s.timer with
      | none => some (leaveTimers s t)
      | some element =>
        if element.timestamp > timestamp then some (leaveTimers s element.timestamp)
        else some { s with stage := .fire timestamp element, executed := s.executed ++ [element] }
    | _ => none
  | .pop =>
    match s.stage with
    | .fire timestamp element =>
      some { s with timer := Q.pop s.timer, stage := .timers timestamp element.timestamp }
    | _ => none
  | _ => none

/-- The state after an event, for an event that can happen. -/
def step (s : Reentry Q) : Event τ → Option (Reentry Q)
  | .begins t call =>
    if (s.inner t).isIdle ∧ (t = .loop → s.stage.callsBack) then
      match call.lock with
      | some lock => some { s with inner := Function.update s.inner t (.wants call lock) }
      | none => some (body s call)
    else none
  | .acquire t =>
    match s.inner t with
    | .wants call lock =>
      if s.owner lock = none then
        some { s with
          owner := Function.update s.owner lock (some t)
          inner := Function.update s.inner t (.holds call lock) }
      else none
    | _ => none
  | .perform t =>
    match s.inner t with
    | .holds call lock =>
      some { body s call with
        owner := Function.update s.owner lock none
        inner := Function.update s.inner t .idle }
    | _ => none
  | e => if (s.inner .loop).isIdle then loopStep s e else none

/-- The loop thread stands at the mutex, by itself or in a call of a callback. -/
def Tries (s : Reentry Q) (lock : Lock) : Prop :=
  s.inner .loop = .idle ∧ (∃ stage, locking s = some (lock, stage)) ∨
    ∃ call, s.inner .loop = .wants call lock

/-- The loop thread stands at no mutex that it holds. -/
def NoSelfLock (s : Reentry Q) : Prop := ∀ lock, Tries s lock → s.owner lock ≠ some .loop

/-- Every scheduled timer is pending or executed, and only executed ones leave the queue. -/
def Accounted (s : Reentry Q) : Prop :=
  (s.executed : Multiset (Timer τ)) + Q.elements s.timer = s.scheduled + s.stage.executing

/-- No timer callback calls `runAt`. -/
def Suits (s : Reentry Q) : Event τ → Prop
  | .begins .loop (.runAt _ _) => ∀ timestamp element, s.stage ≠ .fire timestamp element
  | _ => True

variable {s next : Reentry Q} {t : Thread} {call : Call τ} {lock : Lock} {stage : Stage τ}

/-- The thread's position says that it holds the mutex. -/
def Holds (s : Reentry Q) (t : Thread) (lock : Lock) : Prop :=
  t = .loop ∧ s.stage.lock = some lock ∨ ∃ call, s.inner t = .holds call lock

/-- What every step keeps, whatever the callbacks call. -/
structure Inv (s : Reentry Q) : Prop where
  owned : Owned s.owner (Holds s)
  /-- The loop thread never holds a mutex twice. -/
  apart : ∀ call lock, s.inner .loop = .holds call lock → s.stage.lock ≠ some lock
  kind : ∀ t call lock, s.inner t = .wants call lock ∨ s.inner t = .holds call lock →
    call.lock = some lock
  accounted : Accounted s
  /-- The executing timer is on top until it is popped. -/
  onTop : ∀ timestamp element, s.stage = .fire timestamp element → Q.top s.timer = some element

theorem start_inv : Inv (start Q) where
  owned lock t := by simp [start, Holds, Stage.lock]
  apart _ _ held := by simp [start] at held
  kind _ _ _ held := by simp [start] at held
  accounted := by simp [Accounted, start, Q.elements_empty, Stage.executing]
  onTop _ _ fired := by simp [start] at fired

private theorem isIdle_iff {progress : Progress τ} : progress.isIdle = true ↔ progress = .idle := by
  cases progress <;> simp [Progress.isIdle]

private theorem executing_of_unlocked (unlocked : stage.lock = none) : stage.executing = 0 := by
  cases stage <;> simp_all [Stage.lock, Stage.executing]

private theorem fire_locks {timestamp : Nat} {element : Timer τ}
    (fired : stage = .fire timestamp element) : stage.lock = some .time := by
  rw [fired]
  rfl

@[simp] theorem body_stage (s : Reentry Q) (call : Call τ) : (body s call).stage = s.stage := by
  cases call <;> rfl

/-- `runAt` schedules the timer it puts into the queue. -/
theorem body_accounted (accounted : Accounted s) (call : Call τ) : Accounted (body s call) := by
  cases call with
  | runAt timestamp func =>
    simp only [Accounted, body, Q.elements_emplace, Multiset.add_cons] at accounted ⊢
    rw [accounted, ← Multiset.coe_add, Multiset.coe_singleton, add_right_comm,
      ← Multiset.singleton_add, add_comm]
  | _ => exact accounted

namespace Inv

/-- The loop thread moves between stages where it holds nothing. -/
theorem move (inv : Inv s) (before : s.stage.lock = none) (after : stage.lock = none)
    (isQuit : Bool) (funcs : List τ) :
    Inv { s with stage := stage, isQuit := isQuit, funcs := funcs } where
  owned := inv.owned.congr fun u m => by simp [Holds, before, after]
  apart _ _ _ := by simp [after]
  kind := inv.kind
  accounted := by
    have accounted := inv.accounted
    rw [Accounted, executing_of_unlocked before] at accounted
    rw [Accounted, executing_of_unlocked after]
    exact accounted
  onTop _ _ fired := by simp [fire_locks fired] at after

/-- The loop thread gets the mutex it stands at. -/
theorem take (inv : Inv s) (idle : s.inner .loop = .idle) (free : s.owner lock = none)
    (before : s.stage.lock = none) (after : stage.lock = some lock) (calm : stage.executing = 0)
    (early : ∀ timestamp element, stage ≠ .fire timestamp element) :
    Inv { s with owner := Function.update s.owner lock (some .loop), stage := stage } where
  owned := inv.owned.take free fun u m => by
    simp only [Holds, before, after, Option.some_inj, reduceCtorEq, and_false, false_or]
    constructor
    · rintro (⟨rfl, rfl⟩ | held)
      · exact .inr ⟨rfl, rfl⟩
      · exact .inl held
    · rintro (held | ⟨rfl, rfl⟩)
      · exact .inr held
      · exact .inl ⟨rfl, rfl⟩
  apart _ _ held := by simp [idle] at held
  kind := inv.kind
  accounted := by
    have accounted := inv.accounted
    rw [Accounted, executing_of_unlocked before] at accounted
    rw [Accounted, calm]
    exact accounted
  onTop timestamp element fired := absurd fired (early timestamp element)

/-- The loop thread releases the mutex of its stage. -/
theorem release (inv : Inv s) (idle : s.inner .loop = .idle) (before : s.stage.lock = some lock)
    (calm : s.stage.executing = 0) (after : stage.lock = none) (vectors : Vector → List τ)
    (funcs : List τ) (outtime : Nat) :
    Inv { s with
      vectors := vectors, funcs := funcs, outtime := outtime
      owner := Function.update s.owner lock none, stage := stage } where
  owned := inv.owned.release fun u m => by
    simp only [Holds, before, after, Option.some_inj, reduceCtorEq, and_false, false_or]
    constructor
    · intro held
      refine ⟨.inr held, fun same => ?_⟩
      -- whoever else held it would be the loop thread, which is in no call
      have alone : u = .loop := inv.owned.unique (l := m) (.inr held) (.inl ⟨rfl, same ▸ before⟩)
      obtain ⟨call, held⟩ := held
      rw [alone, idle] at held
      contradiction
    · rintro ⟨⟨-, same⟩ | held, other⟩
      · exact absurd same.symm other
      · exact held
  apart _ _ held := by simp [idle] at held
  kind := inv.kind
  accounted := by
    have accounted := inv.accounted
    rw [Accounted, calm] at accounted
    rw [Accounted, executing_of_unlocked after]
    exact accounted
  onTop _ _ fired := by simp [fire_locks fired] at after

/-- The function on top is called. -/
theorem fire (inv : Inv s) {timestamp t : Nat} {element : Timer τ}
    (placed : s.stage = .timers timestamp t) (first : Q.top s.timer = some element) :
    Inv { s with stage := .fire timestamp element, executed := s.executed ++ [element] } where
  owned := inv.owned.congr fun u m => by simp [Holds, placed, Stage.lock]
  apart call lock held := by
    have apart := inv.apart call lock held
    rw [placed] at apart
    exact apart
  kind := inv.kind
  accounted := by
    have accounted := inv.accounted
    simp only [Accounted, placed, Stage.executing, Multiset.add_zero] at accounted ⊢
    rw [← Multiset.coe_add, Multiset.coe_singleton, add_right_comm, accounted]
  onTop _ _ fired := by
    obtain ⟨rfl, rfl⟩ := Stage.fire.inj fired
    exact first

/-- The executed timer is the one popped. -/
theorem pop (inv : Inv s) {timestamp : Nat} {element : Timer τ}
    (placed : s.stage = .fire timestamp element) :
    Inv { s with timer := Q.pop s.timer, stage := .timers timestamp element.timestamp } where
  owned := inv.owned.congr fun u m => by simp [Holds, placed, Stage.lock]
  apart call lock held := by
    have apart := inv.apart call lock held
    rw [placed] at apart
    exact apart
  kind := inv.kind
  accounted := by
    have accounted := inv.accounted
    have popped := Q.elements_pop _ _ (inv.onTop timestamp element placed)
    simp only [Accounted, placed, Stage.executing, Multiset.add_zero] at accounted ⊢
    rw [popped, ← Multiset.singleton_add, add_left_comm, add_comm] at accounted
    exact add_right_cancel accounted
  onTop _ _ fired := by simp at fired

/-- A thread stands at the mutex of its call. -/
theorem begins (inv : Inv s) (idle : s.inner t = .idle) (locks : call.lock = some lock) :
    Inv { s with inner := Function.update s.inner t (.wants call lock) } where
  owned := inv.owned.congr fun u m => by
    by_cases same : u = t
    · subst same
      simp [Holds, idle]
    · simp [Holds, same]
  apart other m held := by
    by_cases same : t = .loop
    · subst same
      simp at held
    · simp only [Function.update_of_ne (Ne.symm same)] at held
      exact inv.apart other m held
  kind u other m held := by
    by_cases same : u = t
    · subst same
      simp only [Function.update_self, Progress.wants.injEq, reduceCtorEq, or_false] at held
      obtain ⟨rfl, rfl⟩ := held
      exact locks
    · simp only [Function.update_of_ne same] at held
      exact inv.kind u other m held
  accounted := inv.accounted
  onTop := inv.onTop

theorem acquire (inv : Inv s) (waiting : s.inner t = .wants call lock)
    (free : s.owner lock = none) :
    Inv { s with
      owner := Function.update s.owner lock (some t)
      inner := Function.update s.inner t (.holds call lock) } where
  owned := inv.owned.take free fun u m => by
    by_cases same : u = t
    · subst same
      simp [Holds, waiting, eq_comm]
    · simp [Holds, same]
  apart other m held := by
    by_cases same : t = .loop
    · subst same
      simp only [Function.update_self, Progress.holds.injEq] at held
      obtain ⟨rfl, rfl⟩ := held
      exact fun stage => inv.owned.not_holds free (.inl ⟨rfl, stage⟩)
    · simp only [Function.update_of_ne (Ne.symm same)] at held
      exact inv.apart other m held
  kind u other m held := by
    by_cases same : u = t
    · subst same
      simp only [Function.update_self, Progress.holds.injEq, reduceCtorEq, false_or] at held
      obtain ⟨rfl, rfl⟩ := held
      exact inv.kind u call lock (.inl waiting)
    · simp only [Function.update_of_ne same] at held
      exact inv.kind u other m held
  accounted := inv.accounted
  onTop := inv.onTop

/-- Nobody else is at the queue while a timer executes. -/
theorem not_fire (inv : Inv s) (held : s.inner t = .holds call .time) (timestamp : Nat)
    (element : Timer τ) : s.stage ≠ .fire timestamp element := by
  intro fired
  have locked := fire_locks fired
  obtain rfl : t = .loop := inv.owned.unique (l := .time) (.inr ⟨call, held⟩) (.inl ⟨rfl, locked⟩)
  exact inv.apart call .time held locked

theorem perform (inv : Inv s) (held : s.inner t = .holds call lock) :
    Inv { body s call with
      owner := Function.update s.owner lock none
      inner := Function.update s.inner t .idle } where
  owned := inv.owned.release fun u m => by
    simp only [Holds, body_stage]
    by_cases same : u = t
    · subst same
      simp only [Function.update_self, reduceCtorEq, exists_false, or_false, held,
        Progress.holds.injEq]
      constructor
      · rintro ⟨rfl, locked⟩
        exact ⟨.inl ⟨rfl, locked⟩, fun equal => inv.apart call lock held (equal ▸ locked)⟩
      · rintro ⟨own | ⟨-, -, equal⟩, other⟩
        · exact own
        · exact absurd equal.symm other
    · simp only [Function.update_of_ne same]
      refine ⟨fun holds => ⟨holds, fun equal => same ?_⟩, And.left⟩
      exact inv.owned.unique (l := m) holds (.inr ⟨call, equal ▸ held⟩)
  apart other m again := by
    simp only [body_stage]
    by_cases same : t = .loop
    · subst same
      simp at again
    · simp only [Function.update_of_ne (Ne.symm same)] at again
      exact inv.apart other m again
  kind u other m again := by
    by_cases same : u = t
    · subst same
      simp at again
    · simp only [Function.update_of_ne same] at again
      exact inv.kind u other m again
  accounted := body_accounted inv.accounted call
  onTop timestamp element fired := by
    simp only [body_stage] at fired
    cases call with
    | runAt =>
      obtain rfl : Lock.time = lock := Option.some.inj (inv.kind t _ lock (.inr held))
      exact absurd fired (inv.not_fire held timestamp element)
    | _ => exact inv.onTop timestamp element fired

/-- A call that locks nothing. -/
theorem unlocked (inv : Inv s) (free : call.lock = none) : Inv (body s call) := by
  cases call with
  | registerIoHandle => exact ⟨inv.owned, inv.apart, inv.kind, inv.accounted, inv.onTop⟩
  | quit => exact ⟨inv.owned, inv.apart, inv.kind, inv.accounted, inv.onTop⟩
  | _ => contradiction

theorem loopStep (inv : Inv s) (idle : s.inner .loop = .idle) {e : Event τ}
    (stepped : loopStep s e = some next) : Inv next := by
  cases e with
  | run =>
    rw [LoopReentry.loopStep] at stepped
    split at stepped
    · rename_i placed
      obtain rfl := Option.some.inj stepped
      exact inv.move (by rw [placed]; rfl) rfl false s.funcs
    · contradiction
  | test =>
    rw [LoopReentry.loopStep] at stepped
    split at stepped
    · rename_i placed
      obtain rfl := Option.some.inj stepped
      exact inv.move (by rw [placed]; rfl) (by split <;> rfl) s.isQuit s.funcs
    · contradiction
  | lock =>
    rw [LoopReentry.loopStep] at stepped
    split at stepped
    · rename_i lock stage standing
      obtain ⟨free, rfl⟩ := guarded_eq_some.mp stepped
      rw [locking] at standing
      split at standing
      all_goals
        first
          | contradiction
          | rename_i placed
            obtain ⟨rfl, rfl⟩ := Prod.mk.inj (Option.some.inj standing)
            exact inv.take idle free (by rw [placed]; rfl) rfl rfl (by simp)
    · contradiction
  | swap =>
    rw [LoopReentry.loopStep] at stepped
    split at stepped
    · rename_i placed
      obtain rfl := Option.some.inj stepped
      exact inv.release idle (by rw [placed]; rfl) (by rw [placed]; rfl) rfl _ _ _
    · rename_i placed
      obtain rfl := Option.some.inj stepped
      exact inv.release idle (by rw [placed]; rfl) (by rw [placed]; rfl) rfl _ _ _
    · contradiction
  | call =>
    rw [LoopReentry.loopStep] at stepped
    split at stepped
    · rename_i rest placed shape
      obtain rfl := Option.some.inj stepped
      exact inv.move (by rw [placed]; rfl) (by rw [placed]; rfl) s.isQuit rest
    · rename_i rest placed shape
      obtain rfl := Option.some.inj stepped
      exact inv.move (by rw [placed]; rfl) (by rw [placed]; rfl) s.isQuit rest
    · contradiction
  | proceed =>
    rw [LoopReentry.loopStep] at stepped
    split at stepped
    · rename_i placed shape
      obtain rfl := Option.some.inj stepped
      exact inv.move (by rw [placed]; rfl) rfl s.isQuit s.funcs
    · rename_i placed shape
      obtain rfl := Option.some.inj stepped
      exact inv.move (by rw [placed]; rfl) rfl s.isQuit s.funcs
    · contradiction
  | getCurrentTimestamp timestamp =>
    rw [LoopReentry.loopStep] at stepped
    split at stepped
    · rename_i placed
      obtain rfl := Option.some.inj stepped
      exact inv.move (by rw [placed]; rfl) rfl s.isQuit s.funcs
    · contradiction
  | top =>
    rw [LoopReentry.loopStep] at stepped
    split at stepped
    · rename_i timestamp t placed
      have locked : s.stage.lock = some .time := by rw [placed]; rfl
      have calm : s.stage.executing = 0 := by rw [placed]; rfl
      split at stepped
      · obtain rfl := Option.some.inj stepped
        exact inv.release idle locked calm rfl _ _ _
      · rename_i element first
        split at stepped
        · obtain rfl := Option.some.inj stepped
          exact inv.release idle locked calm rfl _ _ _
        · obtain rfl := Option.some.inj stepped
          exact inv.fire placed first
    · contradiction
  | pop =>
    rw [LoopReentry.loopStep] at stepped
    split at stepped
    · rename_i timestamp element placed
      obtain rfl := Option.some.inj stepped
      exact inv.pop placed
    · contradiction
  | begins | acquire | perform => contradiction

theorem step (inv : Inv s) {e : Event τ} (stepped : step s e = some next) : Inv next := by
  cases e with
  | begins t call =>
    rw [LoopReentry.step] at stepped
    split at stepped
    · rename_i ready
      split at stepped
      · rename_i lock locks
        obtain rfl := Option.some.inj stepped
        exact inv.begins (isIdle_iff.mp ready.1) locks
      · rename_i free
        obtain rfl := Option.some.inj stepped
        exact inv.unlocked free
    · contradiction
  | acquire t =>
    rw [LoopReentry.step] at stepped
    split at stepped
    · rename_i call lock waiting
      obtain ⟨free, rfl⟩ := guarded_eq_some.mp stepped
      exact inv.acquire waiting free
    · contradiction
  | perform t =>
    rw [LoopReentry.step] at stepped
    split at stepped
    · rename_i call lock held
      obtain rfl := Option.some.inj stepped
      exact inv.perform held
    · contradiction
  | _ =>
    obtain ⟨idle, stepped⟩ := Option.ite_none_right_eq_some.mp stepped
    exact inv.loopStep (isIdle_iff.mp idle) stepped

end Inv

/-- By itself the loop thread stands at a mutex only when it holds none. -/
theorem noSelfLock_iff (inv : Inv s) : NoSelfLock s ↔
    ∀ call lock, s.inner .loop = .wants call lock → s.stage.lock ≠ some lock := by
  constructor
  · intro calm call lock waiting held
    exact calm lock (.inr ⟨call, waiting⟩) ((inv.owned lock .loop).mpr (.inl ⟨rfl, held⟩))
  · rintro apart lock (⟨idle, stage, standing⟩ | ⟨call, waiting⟩) owned
    · rcases (inv.owned lock .loop).mp owned with ⟨-, held⟩ | ⟨call, held⟩
      · rw [locking] at standing
        split at standing
        all_goals simp_all [Stage.lock]
      · simp [idle] at held
    · rcases (inv.owned lock .loop).mp owned with ⟨-, held⟩ | ⟨other, held⟩
      · exact apart call lock waiting held
      · simp [waiting] at held

private theorem loopStep_inner {e : Event τ} (stepped : loopStep s e = some next) :
    next.inner = s.inner := by
  cases e <;> simp only [loopStep] at stepped
  all_goals repeat' split at stepped
  all_goals first
    | contradiction
    | (obtain rfl := Option.some.inj stepped; rfl)

/-- A callback that begins a call while its thread holds a mutex is a timer callback. -/
private theorem callsBack_lock (callsBack : stage.callsBack = true) (held : stage.lock = some lock) :
    lock = .time ∧ ∃ timestamp element, stage = .fire timestamp element := by
  cases stage with
  | fire timestamp element => exact ⟨(Option.some.inj held).symm, timestamp, element, rfl⟩
  | _ => simp [Stage.callsBack, Stage.lock] at callsBack held

private theorem runAt_of_time (locks : call.lock = some .time) :
    ∃ timestamp func, call = .runAt timestamp func := by
  cases call with
  | runAt timestamp func => exact ⟨timestamp, func, rfl⟩
  | _ => simp [Call.lock] at locks

theorem noSelfLock_step {e : Event τ} (inv : Inv s) (calm : NoSelfLock s) (suited : Suits s e)
    (stepped : step s e = some next) : NoSelfLock next := by
  rw [noSelfLock_iff (inv.step stepped)]
  rw [noSelfLock_iff inv] at calm
  intro call lock waiting held
  cases e with
  | begins t other =>
    rw [step] at stepped
    split at stepped
    · rename_i ready
      split at stepped
      · rename_i m locks
        obtain rfl := Option.some.inj stepped
        by_cases same : t = .loop
        · subst same
          simp only [Function.update_self, Progress.wants.injEq] at waiting
          obtain ⟨rfl, rfl⟩ := waiting
          obtain ⟨rfl, timestamp, element, fired⟩ := callsBack_lock (ready.2 rfl) held
          obtain ⟨later, func, rfl⟩ := runAt_of_time locks
          exact suited timestamp element fired
        · simp only [Function.update_of_ne (Ne.symm same)] at waiting
          exact calm call lock waiting held
      · obtain rfl := Option.some.inj stepped
        have same : (body s other).inner = s.inner := by cases other <;> rfl
        rw [same] at waiting
        rw [body_stage] at held
        exact calm call lock waiting held
    · contradiction
  | acquire t =>
    rw [step] at stepped
    split at stepped
    · obtain ⟨-, rfl⟩ := guarded_eq_some.mp stepped
      by_cases same : t = .loop
      · subst same
        simp at waiting
      · simp only [Function.update_of_ne (Ne.symm same)] at waiting
        exact calm call lock waiting held
    · contradiction
  | perform t =>
    rw [step] at stepped
    split at stepped
    · obtain rfl := Option.some.inj stepped
      by_cases same : t = .loop
      · subst same
        simp at waiting
      · simp only [Function.update_of_ne (Ne.symm same), body_stage] at waiting held
        exact calm call lock waiting held
    · contradiction
  | _ =>
    obtain ⟨idle, stepped⟩ := Option.ite_none_right_eq_some.mp stepped
    rw [loopStep_inner stepped, isIdle_iff.mp idle] at waiting
    contradiction

/-- A timer callback that calls `runAt` stands at the mutex of its own thread. -/
theorem suits_of_noSelfLock {e : Event τ} (inv : Inv s) (stepped : step s e = some next)
    (calm : NoSelfLock next) : Suits s e := by
  rw [noSelfLock_iff (inv.step stepped)] at calm
  cases e with
  | begins t call =>
    cases t with
    | other => trivial
    | loop =>
      cases call with
      | runAt timestamp func =>
        intro now element fired
        simp only [step, Call.lock] at stepped
        split at stepped
        · obtain rfl := Option.some.inj stepped
          exact calm (.runAt timestamp func) .time (by simp) (fire_locks fired)
        · contradiction
      | _ => trivial
  | _ => trivial

/-- Over every run of the loop, its callbacks and any other threads: the loop
thread never stands at a mutex it holds and no timer is lost or popped without
being executed, exactly when no timer callback calls `runAt`. -/
theorem reentry_safe_iff {events : List (Event τ)} {final : Reentry Q}
    (ran : run step (start Q) events = some final) :
    Throughout step (fun s => NoSelfLock s ∧ Accounted s) (start Q) events ↔
      Meets step Suits (start Q) events := by
  have calm : NoSelfLock (start Q) := by
    rw [noSelfLock_iff start_inv]
    intro call lock waiting
    simp [start] at waiting
  have kept : ∀ (s : Reentry Q) e next, Inv s ∧ NoSelfLock s → Suits s e → step s e = some next →
      Inv next ∧ NoSelfLock next := by
    rintro s e next ⟨inv, calm⟩ suited stepped
    exact ⟨inv.step stepped, noSelfLock_step inv calm suited stepped⟩
  refine throughout_iff_meets_of_run kept ?_ ?_ ⟨start_inv, calm⟩ ran
  · rintro s e next ⟨inv, -⟩ stepped ⟨calm, -⟩
    exact suits_of_noSelfLock inv stepped calm
  · rintro s ⟨inv, calm⟩
    exact ⟨calm, inv.accounted⟩

/-- A timer callback that pushes, and a function of the loop that schedules the next timer. -/
theorem reentry_safe_rescheduling :
    Throughout step (fun s => NoSelfLock s ∧ Accounted s)
      (start (PriorityQueue.sortedList (Timer.timestamp (τ := Unit))))
      [.begins .loop (.runAt 5 ()), .acquire .loop, .perform .loop, .run, .test, .lock, .swap,
        .proceed, .getCurrentTimestamp 10, .lock, .top, .begins .loop (.pushIdle ()), .acquire .loop,
        .perform .loop, .pop, .top, .lock, .swap, .call, .begins .loop (.runAt 20 ()),
        .acquire .loop, .perform .loop] := by
  refine (reentry_safe_iff rfl).mpr ⟨nofun, ?_⟩
  iterate 18
    rintro _ ⟨⟩
    refine ⟨trivial, ?_⟩
  rintro _ ⟨⟩
  exact ⟨nofun, fun _ _ => ⟨trivial, fun _ _ => ⟨trivial, fun _ _ => trivial⟩⟩⟩

/-- A timer callback that schedules a timer never gets the mutex. -/
theorem rescheduling_timer_blocks :
    ∃ final, run step (start (PriorityQueue.sortedList (Timer.timestamp (τ := Unit))))
        [.begins .loop (.runAt 5 ()), .acquire .loop, .perform .loop, .run, .test, .lock, .swap,
          .proceed, .getCurrentTimestamp 10, .lock, .top, .begins .loop (.runAt 20 ())] = some final ∧
      ¬ NoSelfLock final ∧ (step final (.acquire .loop)).isNone := by
  refine ⟨_, rfl, fun calm => ?_, rfl⟩
  exact calm .time (.inr ⟨.runAt 20 (), rfl⟩) rfl

end ExNetlink.LoopReentry
