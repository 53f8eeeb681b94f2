import ExNetlink.Runs
import Mathlib.Data.List.Nodup

/-! The process pool of `set/process_pool/main.cpp` and the `Billboard` its
handles carry.

`new_process` refuses when its sequence number has reached the limit, and names
the new process after that number; the name is the key under which the handle
is kept. Nothing increments the number, so every call makes a process of the
same name, and `insert` drops all handles but the first. The result of `fork`
is tested for zero only, so a failure counts as a child. -/
namespace ExNetlink.ProcessPool
open Runs

/-- `Billboard`: the two ends of its socket pair and the thread it belongs to. -/
structure Billboard where
  processCommunication : Int × Int
  currentThreadId : Nat
  fd : Int := 0
  deriving DecidableEq, Repr

/-- `Billboard::start`, called with this `current_thread_id`: keep one end of
the pair and close the other. -/
def Billboard.start (b : Billboard) (currentThreadId : Nat) : Billboard :=
  if b.currentThreadId = currentThreadId then { b with fd := b.processCommunication.2 }
  else { b with fd := b.processCommunication.1, currentThreadId := currentThreadId }

/-- `ProcessHandle`. `ref` is the identity of the object; `exec` is the function
it was made with. -/
structure ProcessHandle (τ : Type) where
  ref : Nat
  exec : τ
  processName : List Char
  billboard : Option Billboard
  deriving DecidableEq, Repr

namespace ProcessHandle

/-- `ProcessHandle::MAX_PROCESS_NAME`. -/
def maxProcessName : Nat := 20

/-- The constructor. The braces make a string of the two characters `'\0'` and
20; the loop then assigns the whole string, one character after another. -/
def make (ref : Nat) (processName : String) (pexec : τ) : ProcessHandle τ where
  ref := ref
  exec := pexec
  processName := (processName.toList.take maxProcessName).foldl (fun _ letter => [letter])
    [Char.ofNat 0, Char.ofNat maxProcessName]
  billboard := none

def setBillboard (handle : ProcessHandle τ) (billboard : Billboard) : ProcessHandle τ :=
  { handle with billboard := some billboard }

/-- `get_billboard().start()`. -/
def start (handle : ProcessHandle τ) (currentThreadId : Nat) : ProcessHandle τ :=
  { handle with billboard := handle.billboard.map fun b => b.start currentThreadId }

end ProcessHandle

/-- The members of `ProcessPool`. -/
structure Pool (τ : Type) where
  processSeq : UInt8 := 0
  process : List (String × ProcessHandle τ) := []
  deriving DecidableEq, Repr

/-- `unordered_map::insert`, which keeps an element that has the key. -/
def insert (table : List (String × α)) (key : String) (value : α) : List (String × α) :=
  if key ∈ table.map Prod.fst then table else table ++ [(key, value)]

/-- A call of `new_process` and what it meets. -/
structure Call (τ : Type) where
  invoke : τ
  /-- `current_thread_id` and `gettid()` of the calling thread. -/
  currentThreadId : Nat
  gettid : Nat
  /-- What `socketpair` stores. -/
  sockets : Int × Int
  /-- The result of `fork`. -/
  childId : Int
  /-- `gettid()` in a child, which its fork handler makes its `current_thread_id`. -/
  childTid : Nat
  deriving DecidableEq, Repr

def Call.isVail (call : Call τ) : Bool := call.currentThreadId == call.gettid

/-- How `new_process` ends. -/
inductive Outcome (τ : Type) where
  /-- With the result of `fork`, if it was called. -/
  | returned (pool : Pool τ) (forked : Option Int) (handle : Option (ProcessHandle τ))
  /-- In the child: the handle is invoked, and the process exits with its result. -/
  | exited (handle : ProcessHandle τ)

/-- `process_name`. -/
def processName (processSeq : UInt8) : String := "process_poll_" ++ toString processSeq.toNat

/-- `new_process`; `ref` is the object that `make_shared` makes. -/
def newProcess (pool : Pool τ) (ref : Nat) (call : Call τ) : Outcome τ :=
  if ¬ call.isVail ∨ pool.processSeq ≥ 4 then .returned pool none none
  else
    let name := processName pool.processSeq
    let handle := ProcessHandle.make ref name call.invoke
    let handle := handle.setBillboard
      { processCommunication := call.sockets, currentThreadId := call.currentThreadId }
    if call.childId ≠ 0 then
      let handle := handle.start call.currentThreadId
      .returned { pool with process := insert pool.process name handle } (some call.childId)
        (some handle)
    else .exited (handle.start call.childTid)

/-! ### Sequences of calls -/

/-- A call that has returned. -/
structure Record (τ : Type) where
  /-- The result of `fork`, if it was called. -/
  forked : Option Int
  /-- The number of calls before it whose `fork` succeeded. -/
  earlier : Nat
  handle : Option (ProcessHandle τ)
  before : List (String × ProcessHandle τ)
  after : List (String × ProcessHandle τ)

/-- The pool and the calls made on it. The handle of the `n`-th call is the
object `n`. -/
structure Calls (τ : Type) where
  pool : Pool τ := {}
  /-- The calls whose `fork` succeeded. -/
  children : List Nat := []
  records : List (Record τ) := []

/-- A call in the process that owns the pool. -/
def step (s : Calls τ) (call : Call τ) : Option (Calls τ) :=
  match newProcess s.pool s.records.length call with
  | .returned pool forked handle => some {
      pool := pool
      children := match forked with
        | some childId => if 0 < childId then s.children ++ [s.records.length] else s.children
        | none => s.children
      records := s.records ++ [{
        forked := forked
        earlier := s.children.length
        handle := handle
        before := s.pool.process
        after := pool.process }] }
  | .exited _ => none

/-- Where `is_vail()` holds, with a result of `fork` that leaves the caller in
its process. -/
def Call.Valid (call : Call τ) : Prop :=
  call.isVail = true ∧ (call.childId = -1 ∨ 0 < call.childId)

/-- The table has one entry for each child, and a call that is refused or fails
leaves it alone. -/
structure Matches (s : Calls τ) : Prop where
  entry : ∀ number ∈ s.children, (s.pool.process.filter fun e => e.2.ref = number).length = 1
  own : ∀ e ∈ s.pool.process, e.2.ref ∈ s.children
  names : (s.pool.process.map Prod.fst).Nodup
  limit : s.pool.process.length ≤ 4
  refused : ∀ r ∈ s.records, 4 ≤ r.earlier ∨ r.forked = some (-1) →
    r.handle = none ∧ r.after = r.before

variable {s : Calls τ} {call : Call τ}

/-- The handle that the parent keeps. -/
def made (ref : Nat) (call : Call τ) : ProcessHandle τ :=
  ((ProcessHandle.make ref (processName 0) call.invoke).setBillboard
    { processCommunication := call.sockets, currentThreadId := call.currentThreadId }).start
      call.currentThreadId

@[simp] theorem made_ref (ref : Nat) (call : Call τ) : (made ref call).ref = ref := rfl

/-- With the sequence number still at zero every call goes through. -/
theorem newProcess_goes (pool : Pool τ) (first : pool.processSeq = 0) (ref : Nat)
    (valid : call.Valid) :
    newProcess pool ref call = .returned
      { pool with process := insert pool.process (processName 0) (made ref call) }
      (some call.childId) (some (made ref call)) := by
  have parent : call.childId ≠ 0 := by
    rcases valid.2 with failed | child <;> omega
  have room : ¬ (¬ call.isVail ∨ pool.processSeq ≥ 4) := by
    rw [first, valid.1]
    decide
  rw [newProcess, if_neg room, if_pos parent, first]
  rfl

theorem step_goes (first : s.pool.processSeq = 0) (valid : call.Valid) :
    step s call = some {
      pool := { s.pool with
        process := insert s.pool.process (processName 0) (made s.records.length call) }
      children := if 0 < call.childId then s.children ++ [s.records.length] else s.children
      records := s.records ++ [{
        forked := some call.childId
        earlier := s.children.length
        handle := some (made s.records.length call)
        before := s.pool.process
        after := insert s.pool.process (processName 0) (made s.records.length call) }] } := by
  rw [step, newProcess_goes s.pool first _ valid]

/-- The number stays at zero, and what the table has is the first handle. -/
structure Unnumbered (s : Calls τ) : Prop where
  first : s.pool.processSeq = 0
  fresh : s.records = [] → s.pool.process = [] ∧ s.children = []
  single : s.records ≠ [] → ∃ handle, handle.ref = 0 ∧ s.pool.process = [(processName 0, handle)]

theorem unnumbered_start : Unnumbered ({} : Calls τ) where
  first := rfl
  fresh _ := ⟨rfl, rfl⟩
  single none := absurd rfl none

variable {next : Calls τ}

theorem unnumbered_step (held : Unnumbered s) (valid : call.Valid)
    (stepped : step s call = some next) : Unnumbered next := by
  rw [step_goes held.first valid] at stepped
  obtain rfl := Option.some.inj stepped
  refine ⟨held.first, by simp, fun _ => ?_⟩
  by_cases none : s.records = []
  · obtain ⟨empty, -⟩ := held.fresh none
    exact ⟨made s.records.length call, by simp [none], by simp [empty, insert]⟩
  · obtain ⟨handle, named, only⟩ := held.single none
    exact ⟨handle, named, by simp [only, insert]⟩

/-- However many processes are made, the table keeps the first handle only. -/
theorem unnumbered_run {calls : List (Call τ)} (valid : ∀ call ∈ calls, call.Valid)
    (held : Unnumbered s) (ran : run step s calls = some next) : Unnumbered next := by
  induction calls generalizing s with
  | nil =>
    obtain rfl := Option.some.inj ran
    exact held
  | cons call rest ih =>
    obtain ⟨middle, stepped, ran⟩ := run_cons_some.mp ran
    have following := unnumbered_step held (valid call List.mem_cons_self) stepped
    exact ih (fun other member => valid other (List.mem_cons_of_mem call member)) following ran

/-- One call keeps the table right exactly when it is the first one and its
`fork` succeeds. -/
theorem matches_step_iff (held : Unnumbered s) (valid : call.Valid)
    (stepped : step s call = some next) : Matches next ↔ s.records = [] ∧ 0 < call.childId := by
  rw [step_goes held.first valid] at stepped
  obtain rfl := Option.some.inj stepped
  constructor
  · intro right
    have child : 0 < call.childId := by
      refine valid.2.resolve_left fun failed => ?_
      have refused := right.refused _ (List.mem_append_right _ (List.mem_singleton.mpr rfl))
      simp [failed] at refused
    refine ⟨?_, child⟩
    by_contra none
    -- the name is taken, so the handle of this call is dropped
    obtain ⟨handle, named, only⟩ := held.single none
    have entry := right.entry s.records.length (by simp [child])
    have other : 0 ≠ s.records.length := fun same => none (List.length_eq_zero_iff.mp same.symm)
    simp [only, insert, named, other] at entry
  · rintro ⟨none, child⟩
    obtain ⟨empty, childless⟩ := held.fresh none
    refine ⟨?_, ?_, ?_, ?_, ?_⟩
    · simp [empty, insert, childless, none, child]
    · simp [empty, insert, childless, none, child]
    · simp [empty, insert]
    · simp [empty, insert]
    · intro r member bad
      obtain rfl : r = _ := by simpa [none] using member
      rcases bad with many | failed
      · simp [childless] at many
      · have same : call.childId = -1 := Option.some.inj failed
        omega

theorem matches_start : Matches ({} : Calls τ) where
  entry _ member := by simp at member
  own _ member := by simp at member
  names := List.nodup_nil
  limit := Nat.zero_le 4
  refused _ member := by simp at member

/-- Over every sequence of calls and fork results: the table matches the
children in every state exactly when there is at most one call and its `fork`
succeeds. -/
theorem table_matches_iff (calls : List (Call τ)) (valid : ∀ call ∈ calls, call.Valid) :
    Throughout step Matches ({} : Calls τ) calls ↔
      calls.length ≤ 1 ∧ ∀ call ∈ calls, 0 < call.childId := by
  cases calls with
  | nil => exact iff_of_true matches_start (by simp)
  | cons call rest =>
    have start := @unnumbered_start τ
    have goes := step_goes start.first (valid call List.mem_cons_self)
    have one := unnumbered_step start (valid call List.mem_cons_self) goes
    have right := matches_step_iff start (valid call List.mem_cons_self) goes
    cases rest with
    | nil =>
      constructor
      · rintro ⟨-, after, stepped, held⟩
        obtain rfl := Option.some.inj (goes.symm.trans stepped)
        exact ⟨Nat.le_refl 1, by simpa using (right.mp held).2⟩
      · rintro ⟨-, child⟩
        exact ⟨matches_start, _, goes, right.mpr ⟨rfl, child call List.mem_cons_self⟩⟩
    | cons second rest =>
      refine iff_of_false ?_ (by simp)
      rintro ⟨-, after, stepped, -, last, again, later⟩
      obtain rfl := Option.some.inj (goes.symm.trans stepped)
      have two := matches_step_iff one (valid second (by simp)) again
      simpa using (two.mp later.start).1

/-- A call of thread 7, whose `fork` gives this. -/
def calling (childId : Int) : Call Unit where
  invoke := ()
  currentThreadId := 7
  gettid := 7
  sockets := (3, 4)
  childId := childId
  childTid := 8

theorem table_matches_single :
    Throughout step Matches ({} : Calls Unit) [calling 100] :=
  (table_matches_iff [calling 100] (by simp [Call.Valid, Call.isVail, calling])).mpr
    (by simp [calling])

/-- Two children, and one entry: the second handle is dropped. -/
theorem second_process_dropped :
    ((run step ({} : Calls Unit) [calling 100, calling 101]).map fun s =>
        (s.children, s.pool.process.map fun e => (e.1, e.2.ref))) =
          some ([0, 1], [("process_poll_0", 0)]) ∧
      ¬ Throughout step Matches ({} : Calls Unit) [calling 100, calling 101] := by
  refine ⟨by decide, fun held => ?_⟩
  obtain ⟨s, ran, right⟩ := held.final
  obtain rfl : _ = s := Option.some.inj ran
  exact absurd (right.entry 1 (by decide)) (by decide)

end ExNetlink.ProcessPool
