import ExNetlink.Locks
import ExNetlink.Loop
import ExNetlink.Runs

/-! Who is inside a critical section on which task vector.

`push_runnable` and `handle_runnable` lock the mutex they are given, touch the
vector they are given and unlock. The thread in `Loop::run` drains the two
vectors at two places of its iteration and in between calls functions that may
push; any number of other threads push at any time.

Pushes and drains of one vector are called with different mutexes, so a push
and a drain do not keep each other out. Pushes of one kind do, having one mutex
and one vector. So two threads meet on a vector exactly when one of them locks
for a push or a drain while the other is inside the crossing drain or push. -/
namespace ExNetlink.LoopQueues
open Loop Runs Locks

/-- The thread in `Loop::run`, or another one. -/
inductive Thread where
  | loop
  | other (id : Nat)
  deriving DecidableEq, Repr

/-- Outside the two functions, or inside one of them with its mutex locked,
before or after it has touched the vector. -/
inductive Place (τ : Type) where
  | outside
  | inside (op : Op τ) (touched : Bool)
  deriving DecidableEq, Repr

def Place.isOutside : Place τ → Bool
  | .outside => true
  | .inside _ _ => false

/-- Where the loop thread stands in `Loop::run`. -/
inductive Stage where
  | out
  /-- At `if (is_quit_) break`. -/
  | test
  /-- In `handle_runnable(idle_, idle_mut_)`, up to the unlock. -/
  | drainIdle
  /-- Calling what it has swapped out of `idle_`. -/
  | callIdle
  | io
  | timer
  /-- In `handle_runnable(runable_, run_mut_)`, up to the unlock. -/
  | drainRunable
  /-- Calling what it has swapped out of `runable_`. -/
  | callRunable
  deriving DecidableEq, Repr

/-- The loop and the threads that use it. -/
structure Threads (τ : Type) where
  vectors : Vector → List τ
  owner : Mutex → Option Thread
  place : Thread → Place τ
  isQuit : Bool
  stage : Stage
  /-- `funcs`, what is left of it. -/
  funcs : List τ

/-- A step of one of the threads. -/
inductive Event (τ : Type) where
  /-- `Loop::run` is called. -/
  | run
  | test
  | quit
  | lock (t : Thread) (op : Op τ)
  | touch (t : Thread)
  | unlock (t : Thread)
  /-- The loop thread calls the next function of `funcs`. -/
  | call
  /-- The loop thread goes on to the next line of `Loop::run`. -/
  | proceed
  deriving DecidableEq, Repr

def start : Threads τ where
  vectors := fun _ => []
  owner := fun _ => none
  place := fun _ => .outside
  isQuit := true
  stage := .out
  funcs := []

/-- Whether the thread is at a point of its program where it calls `op`. The
loop thread pushes from the functions, handlers and timers it calls. -/
def calls (s : Threads τ) : Thread → Op τ → Bool
  | .loop, .handleIdle => s.stage = .drainIdle
  | .loop, .handleRunable => s.stage = .drainRunable
  | .loop, _ => s.stage = .out ∨ s.stage = .callIdle ∨ s.stage = .io ∨ s.stage = .timer ∨
      s.stage = .callRunable
  | .other _, .pushIdle _ => true
  | .other _, .pushRunable _ => true
  | .other _, _ => false

/-- `runnables.emplace_back(runnable)`, or `funcs.swap(runnables)` with an empty `funcs`. -/
def touch (s : Threads τ) (op : Op τ) : Threads τ :=
  match op with
  | .pushIdle runnable | .pushRunable runnable =>
    { s with vectors := Function.update s.vectors op.vector (s.vectors op.vector ++ [runnable]) }
  | .handleIdle | .handleRunable =>
    { s with vectors := Function.update s.vectors op.vector [], funcs := s.vectors op.vector }

/-- The stage of the loop thread once `op` has unlocked. -/
def unlocked (stage : Stage) : Op τ → Stage
  | .handleIdle => .callIdle
  | .handleRunable => .callRunable
  | _ => stage

/-- The line after a stage, when there is nothing left to do in it. -/
def following (s : Threads τ) : Option Stage :=
  match s.stage with
  | .callIdle => if s.funcs.isEmpty then some .io else none
  | .io => some .timer
  | .timer => some .drainRunable
  | .callRunable => if s.funcs.isEmpty then some .test else none
  | _ => none

/-- The state after an event, for an event that can happen. -/
def step (s : Threads τ) : Event τ → Option (Threads τ)
  | .run =>
    if (s.place .loop).isOutside ∧ s.stage = .out then some { s with isQuit := false, stage := .test }
    else none
  | .test =>
    if s.stage = .test then some { s with stage := if s.isQuit then .out else .drainIdle } else none
  | .quit => some { s with isQuit := true }
  | .lock t op =>
    if (s.place t).isOutside ∧ calls s t op ∧ s.owner op.mutex = none then
      some { s with
        owner := Function.update s.owner op.mutex (some t)
        place := Function.update s.place t (.inside op false) }
    else none
  | .touch t =>
    match s.place t with
    | .inside op false =>
      some { touch s op with place := Function.update s.place t (.inside op true) }
    | _ => none
  | .unlock t =>
    match s.place t with
    | .inside op true =>
      some { s with
        owner := Function.update s.owner op.mutex none
        place := Function.update s.place t .outside
        stage := unlocked s.stage op }
    | _ => none
  | .call =>
    if (s.place .loop).isOutside ∧ (s.stage = .callIdle ∨ s.stage = .callRunable) then
      match s.funcs with
      | _ :: rest => some { s with funcs := rest }
      | [] => none
    else none
  | .proceed =>
    if (s.place .loop).isOutside then (following s).map fun stage => { s with stage := stage }
    else none

/-- The thread is inside a critical section of `op`. -/
def Inside (s : Threads τ) (t : Thread) (op : Op τ) : Prop := ∃ touched, s.place t = .inside op touched

/-- No two threads are inside critical sections on the same vector. -/
def Exclusive (s : Threads τ) : Prop :=
  ∀ t u op other, Inside s t op → Inside s u other → op.vector = other.vector → t = u

/-- A push does not lock during the drain of its vector, nor a drain during a push into its vector. -/
def Suits (s : Threads τ) : Event τ → Prop
  | .lock _ (.pushIdle _) => ∀ t, ¬ Inside s t .handleRunable
  | .lock _ (.pushRunable _) => ∀ t, ¬ Inside s t .handleIdle
  | .lock _ .handleIdle => ∀ t runnable, ¬ Inside s t (.pushRunable runnable)
  | .lock _ .handleRunable => ∀ t runnable, ¬ Inside s t (.pushIdle runnable)
  | _ => True

/-- A mutex is owned by the thread inside a section that locked it. -/
def Locked (s : Threads τ) : Prop :=
  ∀ m t, s.owner m = some t ↔ ∃ op, Inside s t op ∧ op.mutex = m

variable {s next : Threads τ} {t u : Thread} {op other : Op τ}

theorem Inside.unique (first : Inside s t op) (second : Inside s t other) : op = other := by
  obtain ⟨_, first⟩ := first
  obtain ⟨_, second⟩ := second
  exact (Place.inside.inj (first.symm.trans second)).1

theorem not_inside_of_outside (outside : (s.place t).isOutside = true) (op : Op τ) :
    ¬ Inside s t op := by
  rintro ⟨_, place⟩
  rw [place] at outside
  contradiction

/-- What an event does to the sections and the mutexes. -/
inductive Change (s next : Threads τ) : Event τ → Prop
  | keeps (e : Event τ) (elsewhere : ∀ t op, e ≠ .lock t op) (owner : next.owner = s.owner)
      (same : ∀ u other, Inside next u other ↔ Inside s u other) : Change s next e
  | locks (t : Thread) (op : Op τ) (outside : ∀ other, ¬ Inside s t other)
      (free : s.owner op.mutex = none)
      (owner : next.owner = Function.update s.owner op.mutex (some t))
      (entered : ∀ u other, Inside next u other ↔ u = t ∧ other = op ∨ Inside s u other) :
      Change s next (.lock t op)
  | unlocks (t : Thread) (op : Op τ) (inside : Inside s t op)
      (owner : next.owner = Function.update s.owner op.mutex none)
      (gone : ∀ u other, Inside next u other ↔ u ≠ t ∧ Inside s u other) :
      Change s next (.unlock t)

private theorem inside_update {place : Place τ} {owner : Mutex → Option Thread}
    {vectors : Vector → List τ} {isQuit : Bool} {stage : Stage} {funcs : List τ} :
    Inside ⟨vectors, owner, Function.update s.place t place, isQuit, stage, funcs⟩ u other ↔
      u = t ∧ (∃ touched, place = .inside other touched) ∨ u ≠ t ∧ Inside s u other := by
  by_cases same : u = t
  · subst same
    simp [Inside]
  · simp [Inside, same]

theorem step_change {e : Event τ} (stepped : step s e = some next) : Change s next e := by
  cases e with
  | run =>
    obtain ⟨-, rfl⟩ := guarded_eq_some.mp stepped
    exact .keeps _ nofun rfl fun _ _ => Iff.rfl
  | test =>
    obtain ⟨-, rfl⟩ := guarded_eq_some.mp stepped
    exact .keeps _ nofun rfl fun _ _ => Iff.rfl
  | quit =>
    obtain rfl := Option.some.inj stepped
    exact .keeps _ nofun rfl fun _ _ => Iff.rfl
  | lock t op =>
    obtain ⟨⟨outside, -, free⟩, rfl⟩ := guarded_eq_some.mp stepped
    have empty := not_inside_of_outside outside
    refine .locks t op empty free rfl fun u other => ?_
    rw [inside_update]
    by_cases same : u = t
    · subst same
      simp [empty, eq_comm]
    · simp [same]
  | touch t =>
    rw [step] at stepped
    split at stepped
    · rename_i op place
      obtain rfl := Option.some.inj stepped
      refine .keeps _ nofun (by cases op <;> rfl) fun u other => ?_
      rw [inside_update]
      by_cases same : u = t
      · subst same
        simp [Inside, place]
      · simp [same]
    · contradiction
  | unlock t =>
    rw [step] at stepped
    split at stepped
    · rename_i op place
      obtain rfl := Option.some.inj stepped
      refine .unlocks t op ⟨true, place⟩ rfl fun u other => ?_
      rw [inside_update]
      simp
    · contradiction
  | call =>
    rw [step] at stepped
    split at stepped
    · split at stepped
      · obtain rfl := Option.some.inj stepped
        exact .keeps _ nofun rfl fun _ _ => Iff.rfl
      · contradiction
    · contradiction
  | proceed =>
    rw [step] at stepped
    split at stepped
    · obtain ⟨stage, -, rfl⟩ := Option.map_eq_some_iff.mp stepped
      exact .keeps _ nofun rfl fun _ _ => Iff.rfl
    · contradiction

theorem start_locked : Locked (start : Threads τ) := by
  intro m t
  simp [start, Inside]

/-- Locking a free mutex. -/
theorem Locked.lock (locked : Locked s) (free : s.owner op.mutex = none)
    (owner : next.owner = Function.update s.owner op.mutex (some t))
    (entered : ∀ u other, Inside next u other ↔ u = t ∧ other = op ∨ Inside s u other) :
    Locked next := by
  have owned : Owned s.owner fun u m => ∃ op, Inside s u op ∧ op.mutex = m := locked
  have taken : ∀ u m, (∃ op, Inside next u op ∧ op.mutex = m) ↔
      (∃ op, Inside s u op ∧ op.mutex = m) ∨ u = t ∧ m = op.mutex := by
    intro u m
    constructor
    · rintro ⟨other, inside, rfl⟩
      rcases (entered u other).mp inside with ⟨rfl, rfl⟩ | inside
      · exact .inr ⟨rfl, rfl⟩
      · exact .inl ⟨other, inside, rfl⟩
    · rintro (⟨other, inside, rfl⟩ | ⟨rfl, rfl⟩)
      · exact ⟨other, (entered u other).mpr (.inr inside), rfl⟩
      · exact ⟨op, (entered u op).mpr (.inl ⟨rfl, rfl⟩), rfl⟩
  intro m u
  rw [owner]
  exact owned.take free taken m u

/-- Unlocking by the thread inside. -/
theorem Locked.unlock (locked : Locked s) (inside : Inside s t op)
    (owner : next.owner = Function.update s.owner op.mutex none)
    (gone : ∀ u other, Inside next u other ↔ u ≠ t ∧ Inside s u other) : Locked next := by
  have owned : Owned s.owner fun u m => ∃ op, Inside s u op ∧ op.mutex = m := locked
  have released : ∀ u m, (∃ op, Inside next u op ∧ op.mutex = m) ↔
      (∃ op, Inside s u op ∧ op.mutex = m) ∧ m ≠ op.mutex := by
    intro u m
    constructor
    · rintro ⟨other, still, rfl⟩
      obtain ⟨apart, still⟩ := (gone u other).mp still
      refine ⟨⟨other, still, rfl⟩, fun same => apart ?_⟩
      exact owned.unique ⟨other, still, same⟩ ⟨op, inside, rfl⟩
    · rintro ⟨⟨other, still, rfl⟩, different⟩
      refine ⟨other, (gone u other).mpr ⟨?_, still⟩, rfl⟩
      rintro rfl
      exact different (still.unique inside ▸ rfl)
  intro m u
  rw [owner]
  exact owned.release released m u

theorem Locked.change {e : Event τ} (locked : Locked s) (changed : Change s next e) : Locked next := by
  cases changed with
  | keeps _ _ owner same =>
    intro m u
    rw [owner, locked m u]
    simp only [same]
  | locks t op outside free owner entered => exact locked.lock free owner entered
  | unlocks t op inside owner gone => exact locked.unlock inside owner gone

/-- Two calls on one vector have the same mutex, or are a push and a drain that cross. -/
theorem crossing (suited : Suits s (.lock t op)) (inside : Inside s u other)
    (vector : op.vector = other.vector) : op.mutex = other.mutex := by
  cases op <;> cases other <;> first
    | rfl
    | contradiction
    | exact absurd inside (suited _)
    | exact absurd inside (suited _ _)

theorem exclusive_change {e : Event τ} (locked : Locked s) (exclusive : Exclusive s)
    (suited : Suits s e) (changed : Change s next e) : Exclusive next := by
  cases changed with
  | keeps _ _ _ same =>
    intro t u op other first second
    exact exclusive t u op other ((same t op).mp first) ((same u other).mp second)
  | locks t op outside free owner entered =>
    -- whoever is inside on the vector would own the mutex that was free
    have alone : ∀ u other, Inside s u other → op.vector ≠ other.vector := by
      intro u other inside vector
      have owned := (locked op.mutex u).mpr ⟨other, inside, (crossing suited inside vector).symm⟩
      rw [free] at owned
      contradiction
    intro u v first second inFirst inSecond vector
    rcases (entered u first).mp inFirst with ⟨rfl, rfl⟩ | inFirst
    · rcases (entered v second).mp inSecond with ⟨rfl, rfl⟩ | inSecond
      · rfl
      · exact absurd vector (alone v second inSecond)
    · rcases (entered v second).mp inSecond with ⟨rfl, rfl⟩ | inSecond
      · exact absurd vector.symm (alone u first inFirst)
      · exact exclusive u v first second inFirst inSecond vector
  | unlocks t op inside owner gone =>
    intro u v first second inFirst inSecond
    exact exclusive u v first second ((gone u first).mp inFirst).2 ((gone v second).mp inSecond).2

/-- A lock inside a crossing call puts two threads on the vector. -/
theorem suits_of_exclusive {e : Event τ} (changed : Change s next e) (exclusive : Exclusive next) :
    Suits s e := by
  cases changed with
  | keeps e elsewhere =>
    cases e with
    | lock t op => exact absurd rfl (elsewhere t op)
    | _ => trivial
  | unlocks => trivial
  | locks t op outside free owner entered =>
    have alone : ∀ u other, op.vector = other.vector → ¬ Inside s u other := by
      intro u other vector inside
      have same := exclusive t u op other ((entered t op).mpr (.inl ⟨rfl, rfl⟩))
        ((entered u other).mpr (.inr inside)) vector
      exact outside other (same ▸ inside)
    cases op with
    | pushIdle => exact fun u => alone u _ rfl
    | pushRunable => exact fun u => alone u _ rfl
    | handleIdle => exact fun u runnable => alone u _ rfl
    | handleRunable => exact fun u runnable => alone u _ rfl

/-- In a run of the loop and any number of pushing threads, no two threads are
ever inside critical sections on the same vector exactly when no push locks
during the drain of its vector and no drain locks during a push into its vector. -/
theorem sections_exclusive_iff {events : List (Event τ)} {final : Threads τ}
    (ran : run step start events = some final) :
    Throughout step Exclusive start events ↔ Meets step Suits start events := by
  have begun : Locked (start : Threads τ) ∧ Exclusive (start : Threads τ) :=
    ⟨start_locked, fun _ _ _ _ inside => by simp [Inside, start] at inside⟩
  refine throughout_iff_meets_of_run ?_ ?_ (fun _ => And.right) begun ran
  · rintro s e next ⟨locked, exclusive⟩ suited stepped
    have changed := step_change stepped
    exact ⟨locked.change changed, exclusive_change locked exclusive suited changed⟩
  · intro s e next _ stepped exclusive
    exact suits_of_exclusive (step_change stepped) exclusive

/-- A push that has returned before the drain locks. -/
theorem sections_exclusive_apart :
    Throughout step Exclusive start [.lock (.other 0) (.pushRunable 7), .touch (.other 0),
      .unlock (.other 0), .run, .test, .lock .loop .handleIdle, .touch .loop, .unlock .loop] := by
  refine (sections_exclusive_iff rfl).mpr ⟨fun t => by simp [Inside, start], ?_⟩
  iterate 4
    rintro _ ⟨⟩
    refine ⟨trivial, ?_⟩
  rintro _ ⟨⟩
  refine ⟨fun t runnable => ?_, fun _ _ => ⟨trivial, fun _ _ => ⟨trivial, fun _ _ => trivial⟩⟩⟩
  by_cases same : t = .other 0 <;> simp [Inside, start, same]

/-- `pushRunable` appends to `idle_` under `run_mut_` while `Loop::run` swaps it out under `idle_mut_`. -/
theorem push_during_drain :
    ∃ final, run step (start : Threads Unit)
        [.run, .test, .lock .loop .handleIdle, .lock (.other 0) (.pushRunable ())] = some final ∧
      Inside final .loop .handleIdle ∧ Inside final (.other 0) (.pushRunable ()) ∧
      ¬ Exclusive final := by
  refine ⟨_, rfl, ⟨false, rfl⟩, ⟨false, rfl⟩, fun exclusive => ?_⟩
  have same := exclusive .loop (.other 0) .handleIdle (.pushRunable ()) ⟨false, rfl⟩ ⟨false, rfl⟩ rfl
  contradiction

end ExNetlink.LoopQueues
