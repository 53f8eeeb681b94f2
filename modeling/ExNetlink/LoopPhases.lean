import ExNetlink.LoopBatches

/-! Which functions the phases of the event loop run.

An iteration of `Loop::run` has an idle phase, then the I/O step, then the
timers, then a runnable phase. `pushIdle` is for the first and `pushRunable`
for the last; but `pushIdle` appends to `runable_` and `pushRunable` to
`idle_`, and the phases drain the vectors of their own names. So each phase
runs what was submitted for the other. The model is the one of `LoopBatches`
with timers, a clock, and a record of what the loop has done. -/
namespace ExNetlink.LoopPhases
open Loop LoopBatches Runs
open LoopQueues (Stage)

/-- The two drains of an iteration. -/
inductive Phase where
  | idle
  | runable
  deriving DecidableEq, Repr

/-- The call that submits work for the phase. -/
def Phase.source : Phase → Source
  | idle => .pushIdle
  | runable => .pushRunable

/-- The vector that the phase drains. -/
def Phase.vector : Phase → Vector
  | idle => (Op.handleIdle (τ := Func)).vector
  | runable => (Op.handleRunable (τ := Func)).vector

/-- What the loop has done. -/
inductive Entry where
  /-- A drain, with the functions submitted for it since the drain before, and
  those it has called. -/
  | drained (phase : Phase) (due : List Func) (called : List Func)
  | io
  | timers (executed : List (Timer Nat))
  deriving DecidableEq, Repr

/-- The loop, its timers, and what it has done. Timers are named by the number
of calls of `runAt` before their own. -/
structure Phases where
  batches : Batches
  timer : List (Timer Nat)
  scheduled : Nat
  outtime : Nat
  clock : Nat
  /-- The functions pushed since the previous drain of each phase. -/
  since : Phase → List Func
  /-- The latest entry comes first. -/
  log : List Entry

inductive Event where
  | runAt (timestamp : Nat)
  /-- Time passes. -/
  | clock (now : Nat)
  /-- A push, or a step of the loop thread. -/
  | loop (e : LoopBatches.Event)
  deriving DecidableEq, Repr

def start : Phases where
  batches := LoopBatches.start
  timer := []
  scheduled := 0
  outtime := 0
  clock := 0
  since := fun _ => []
  log := []

/-- A phase begins, having swapped its vector out. -/
def Phases.begin (s : Phases) (phase : Phase) (batches : Batches) : Phases :=
  { s with
    batches := batches
    since := Function.update s.since phase []
    log := .drained phase (pushedBy phase.source (s.since phase)) [] :: s.log }

/-- The function is called in the phase at hand. -/
def addCall (func : Func) : List Entry → List Entry
  | .drained phase due called :: earlier => .drained phase due (called ++ [func]) :: earlier
  | log => log

/-- What a step that leaves the loop at `batches` does besides. -/
def record (s : Phases) (batches : Batches) : LoopBatches.Event → Phases
  | .push source => { s with
      batches := batches
      since := fun phase => s.since phase ++ [(source, s.batches.pushed source)] }
  | .drain => s.begin (if s.batches.stage = .drainIdle then .idle else .runable) batches
  | .call =>
    match s.batches.funcs with
    | func :: _ => { s with batches := batches, log := addCall func s.log }
    | [] => { s with batches := batches }
  | .proceed =>
    match s.batches.stage with
    | .io => { s with batches := batches, log := .io :: s.log }
    | .timer =>
      let handled := handleTimer s.clock s.timer s.outtime
      { s with
        batches := batches
        timer := handled.remaining
        outtime := handled.outtime
        log := .timers handled.executed :: s.log }
    | _ => { s with batches := batches }
  | _ => { s with batches := batches }

/-- The state after an event, for an event that can happen. -/
def step (s : Phases) : Event → Option Phases
  | .runAt timestamp =>
    some { s with timer := emplace s.timer timestamp s.scheduled, scheduled := s.scheduled + 1 }
  | .clock now => some { s with clock := now }
  | .loop e => (LoopBatches.step s.batches e).map fun batches => record s batches e

/-- A drain has called what was due, but for what is left of its batch. -/
def Entry.Routed (left : List Func) : Entry → Prop
  | drained _ due called => due = called ++ left
  | _ => True

instance (left : List Func) : DecidablePred (Entry.Routed left)
  | .drained _ due called => inferInstanceAs (Decidable (due = called ++ left))
  | .io | .timers _ => isTrue trivial

/-- Every phase runs the work submitted for it; the latest may not be over. -/
def Routed (s : Phases) : Prop :=
  (∀ entry ∈ s.log.head?, entry.Routed s.batches.funcs) ∧ ∀ entry ∈ s.log.tail, entry.Routed []

/-- Nothing was pushed since the previous drain of the phase that is drained. -/
def Suits (s : Phases) : Event → Prop
  | .loop .drain => s.since (if s.batches.stage = .drainIdle then .idle else .runable) = []
  | _ => True

instance (s : Phases) : DecidablePred (Suits s)
  | .loop .drain => inferInstanceAs
      (Decidable (s.since (if s.batches.stage = .drainIdle then .idle else .runable) = []))
  | .loop (.push _) | .loop .quit | .loop .run | .loop .test | .loop .call | .loop .proceed =>
    isTrue trivial
  | .runAt _ | .clock _ => isTrue trivial

/-! ### The order of an iteration -/

inductive Kind where
  | idle
  | io
  | timers
  | runable
  deriving DecidableEq, Repr

def Entry.kind : Entry → Kind
  | drained .idle _ _ => .idle
  | drained .runable _ _ => .runable
  | io => .io
  | timers _ => .timers

/-- What comes next in `Loop::run`. -/
def Kind.next : Kind → Kind
  | idle => .io
  | io => .timers
  | timers => .runable
  | runable => .idle

/-- The kinds of the entries, the latest first. An iteration begins as if a
runnable phase had just ended. -/
def kinds (log : List Entry) : List Kind := log.map Entry.kind ++ [.runable]

/-- The entries come in the order of `Loop::run`, from an idle phase on. -/
def InOrder (log : List Entry) : Prop :=
  List.IsChain (fun later earlier : Kind => later = earlier.next) (kinds log)

/-- What the loop has done last, where it stands at a stage. -/
def done : Stage → Kind
  | .out | .test | .drainIdle | .callRunable => .runable
  | .callIdle | .io => .idle
  | .timer => .io
  | .drainRunable => .timers

/-! ### One step -/

/-- The call whose functions the phase drains. -/
def Phase.crossed : Phase → Source
  | idle => .pushRunable
  | runable => .pushIdle

/-- Where a phase swaps its vector out, and where it calls what it got. -/
def Phase.drains : Phase → Stage
  | idle => .drainIdle
  | runable => .drainRunable

def Phase.calls : Phase → Stage
  | idle => .callIdle
  | runable => .callRunable

theorem Phase.vector_eq_iff (phase : Phase) (source : Source) :
    phase.vector = source.vector ↔ source = phase.crossed := by
  cases phase <;> cases source <;> decide

theorem Phase.vector_injective {phase other : Phase} (same : phase.vector = other.vector) :
    phase = other := by
  cases phase <;> cases other <;> first | rfl | contradiction

variable {s next : Phases}

/-- Everything an event can do to the queued and drained functions and to the
record. -/
inductive Change (s : Phases) : Event → Phases → Prop
  | push (source : Source) : Change s (.loop (.push source)) { s with
      batches := { s.batches with
        queued := Function.update s.batches.queued source.vector
          (s.batches.queued source.vector ++ [(source, s.batches.pushed source)])
        pushed := Function.update s.batches.pushed source (s.batches.pushed source + 1) }
      since := fun phase => s.since phase ++ [(source, s.batches.pushed source)] }
  | begins (phase : Phase) (here : s.batches.stage = phase.drains)
      (suits : Suits s (.loop .drain) ↔ s.since phase = []) :
      Change s (.loop .drain) (s.begin phase (swap s.batches phase.vector phase.calls))
  | call (func : Func) (rest : List Func) (shape : s.batches.funcs = func :: rest) :
      Change s (.loop .call) { s with
        batches := { s.batches with funcs := rest, executed := s.batches.executed ++ [func] }
        log := addCall func s.log }
  | goes (e : Event) (next : Phases) (entry : Entry) (suits : Suits s e)
      (queued : next.batches.queued = s.batches.queued) (funcs : next.batches.funcs = [])
      (since : next.since = s.since) (log : next.log = entry :: s.log)
      (kind : entry.kind = (done s.batches.stage).next) (plain : ∀ left, entry.Routed left)
      (empty : s.batches.funcs = []) (stage : done next.batches.stage = entry.kind)
      (idle : ¬ Calling next.batches.stage) : Change s e next
  | rests (e : Event) (next : Phases) (suits : Suits s e)
      (queued : next.batches.queued = s.batches.queued) (funcs : next.batches.funcs = s.batches.funcs)
      (since : next.since = s.since) (log : next.log = s.log)
      (stage : done next.batches.stage = done s.batches.stage)
      (calling : Calling next.batches.stage → Calling s.batches.stage) : Change s e next

theorem step_change {e : Event} (held : Conserved s.batches) (stepped : step s e = some next) :
    Change s e next := by
  cases e with
  | runAt timestamp =>
    obtain rfl := Option.some.inj stepped
    exact .rests _ _ trivial rfl rfl rfl rfl rfl id
  | clock now =>
    obtain rfl := Option.some.inj stepped
    exact .rests _ _ trivial rfl rfl rfl rfl rfl id
  | loop e =>
    obtain ⟨batches, moved, rfl⟩ := Option.map_eq_some_iff.mp stepped
    cases e with
    | push source =>
      obtain rfl := Option.some.inj moved
      exact .push source
    | quit =>
      obtain rfl := Option.some.inj moved
      exact .rests _ _ trivial rfl rfl rfl rfl rfl id
    | run =>
      obtain ⟨outside, rfl⟩ := guarded_eq_some.mp moved
      exact .rests _ _ trivial rfl rfl rfl rfl (by rw [outside]; rfl) (by simp [record, Calling])
    | test =>
      obtain ⟨testing, rfl⟩ := guarded_eq_some.mp moved
      refine .rests _ _ trivial rfl rfl rfl rfl ?_ ?_
      · simp only [record, testing]
        split <;> rfl
      · simp only [record]
        split <;> simp [Calling]
    | drain =>
      rw [LoopBatches.step] at moved
      split at moved
      · rename_i stage
        obtain rfl := Option.some.inj moved
        simp only [record, stage, if_pos]
        exact .begins .idle stage (by simp [Suits, stage])
      · rename_i stage
        obtain rfl := Option.some.inj moved
        simp only [record, stage, reduceCtorEq, if_false]
        exact .begins .runable stage (by simp [Suits, stage])
      · contradiction
    | call =>
      rw [LoopBatches.step] at moved
      split at moved
      · rename_i func rest shape
        obtain rfl := Option.some.inj moved
        simpa only [record, shape] using Change.call func rest shape
      · contradiction
    | proceed =>
      rw [LoopBatches.step] at moved
      split at moved
      · rename_i stage
        obtain ⟨-, rfl⟩ := guarded_eq_some.mp moved
        simp only [record, stage]
        exact .rests _ _ trivial rfl rfl rfl rfl (by rw [stage]; rfl) (by simp [Calling])
      · rename_i stage
        obtain rfl := Option.some.inj moved
        have empty := held.rest (by simp [stage, Calling])
        simp only [record, stage]
        exact .goes _ _ .io trivial rfl empty rfl rfl (by rw [stage]; rfl) (fun _ => trivial) empty rfl
          (by simp [Calling])
      · rename_i stage
        obtain rfl := Option.some.inj moved
        have empty := held.rest (by simp [stage, Calling])
        simp only [record, stage]
        exact .goes _ _ (.timers _) trivial rfl empty rfl rfl (by rw [stage]; rfl) (fun _ => trivial)
          empty rfl (by simp [Calling])
      · rename_i stage
        obtain ⟨-, rfl⟩ := guarded_eq_some.mp moved
        simp only [record, stage]
        exact .rests _ _ trivial rfl rfl rfl rfl (by rw [stage]; rfl) (by simp [Calling])
      · contradiction

/-! ### Runs -/

/-- The record follows the loop. -/
structure Sequenced (s : Phases) : Prop where
  order : InOrder s.log
  last : (kinds s.log).head? = some (done s.batches.stage)
  busy : Calling s.batches.stage → ∃ phase due called earlier, s.log = .drained phase due called :: earlier

theorem sequenced_start : Sequenced start where
  order := by simp [InOrder, kinds, start]
  last := rfl
  busy calling := by simp [start, LoopBatches.start, Calling] at calling

/-- The next entry of the record is what comes next in `Loop::run`. -/
theorem InOrder.cons {log : List Entry} {entry : Entry} {kind : Kind} (ordered : InOrder log)
    (last : (kinds log).head? = some kind) (follows : entry.kind = kind.next) :
    InOrder (entry :: log) := by
  rw [InOrder, kinds, List.map_cons, List.cons_append, List.isChain_cons]
  refine ⟨fun earlier member => ?_, ordered⟩
  obtain rfl : kind = earlier := Option.some.inj (last.symm.trans member)
  exact follows

theorem addCall_kinds (func : Func) (log : List Entry) : kinds (addCall func log) = kinds log := by
  cases log with
  | nil => rfl
  | cons entry earlier => cases entry with
    | drained phase => cases phase <;> rfl
    | io | timers executed => rfl

theorem sequenced_step {e : Event} (held : Sequenced s) (changed : Change s e next) :
    Sequenced next := by
  cases changed with
  | push => exact ⟨held.order, held.last, held.busy⟩
  | begins phase here =>
    refine ⟨held.order.cons held.last ?_, ?_, fun _ => ⟨_, _, _, _, rfl⟩⟩
    · rw [here]
      cases phase <;> rfl
    · cases phase <;> rfl
  | call func rest shape =>
    refine ⟨?_, ?_, fun calling => ?_⟩
    · have order := held.order
      rw [InOrder, ← addCall_kinds func] at order
      exact order
    · have last := held.last
      rw [← addCall_kinds func] at last
      exact last
    · obtain ⟨phase, due, called, earlier, shape⟩ := held.busy calling
      exact ⟨phase, due, called ++ [func], earlier, by simp [shape, addCall]⟩
  | goes _ _ entry _ _ _ _ log kind _ _ stage idle =>
    refine ⟨?_, ?_, fun calling => absurd calling idle⟩
    · rw [log]
      exact held.order.cons held.last kind
    · rw [log, stage]
      rfl
  | rests _ _ _ _ _ _ log stage calling =>
    refine ⟨?_, ?_, fun busy => ?_⟩
    · rw [log]
      exact held.order
    · rw [log, stage]
      exact held.last
    · rw [log]
      exact held.busy (calling busy)

/-- What waits in the vector of a phase is what was submitted for the other one
since the phase's previous drain. -/
def Crossed (s : Phases) : Prop :=
  ∀ phase, s.batches.queued phase.vector = pushedBy phase.crossed (s.since phase)

theorem crossed_step {e : Event} (held : Crossed s) (changed : Change s e next) : Crossed next := by
  cases changed with
  | push source =>
    intro phase
    dsimp only
    rw [pushedBy, List.filter_append, ← pushedBy, ← held phase]
    by_cases own : source = phase.crossed
    · rw [(phase.vector_eq_iff source).mpr own, Function.update_self]
      simp [own]
    · rw [Function.update_of_ne fun same => own ((phase.vector_eq_iff source).mp same)]
      simp [own]
  | begins phase here =>
    intro other
    by_cases same : other = phase
    · subst same
      simp [Phases.begin, swap, pushedBy]
    · have apart : other.vector ≠ phase.vector := fun equal => same (Phase.vector_injective equal)
      simp only [Phases.begin, swap, Function.update_of_ne apart, Function.update_of_ne same]
      exact held other
  | call => exact held
  | goes _ _ _ _ queued _ since =>
    intro phase
    rw [queued, since]
    exact held phase
  | rests _ _ _ queued _ since =>
    intro phase
    rw [queued, since]
    exact held phase

/-- What is submitted for the two phases is never the same, unless it is
nothing. -/
theorem crossed_eq_iff (phase : Phase) (funcs : List Func) :
    pushedBy phase.source funcs = pushedBy phase.crossed funcs ↔ funcs = [] := by
  constructor
  · intro same
    refine List.eq_nil_iff_forall_not_mem.mpr fun f member => ?_
    have both : f ∈ pushedBy phase.source funcs ↔ f ∈ pushedBy phase.crossed funcs := by rw [same]
    simp only [pushedBy, List.mem_filter, member, true_and, decide_eq_true_eq] at both
    obtain ⟨source, number⟩ := f
    cases phase <;> cases source <;> simp [Phase.source, Phase.crossed] at both
  · rintro rfl
    rfl

/-- With no batch at hand every drain is over. -/
theorem Routed.finished (routed : Routed s) (empty : s.batches.funcs = []) :
    ∀ entry ∈ s.log, entry.Routed [] := by
  obtain ⟨latest, earlier⟩ := routed
  rw [empty] at latest
  cases shape : s.log with
  | nil => simp
  | cons entry rest =>
    rw [shape] at latest earlier
    exact List.forall_mem_cons.mpr ⟨latest entry rfl, earlier⟩

/-- One step keeps the phases to their work exactly when it drains nothing that
was pushed. -/
theorem routed_step_iff {e : Event} (conserved : Conserved s.batches) (sequenced : Sequenced s)
    (crossed : Crossed s) (routed : Routed s) (changed : Change s e next) :
    Routed next ↔ Suits s e := by
  cases changed with
  | push => exact iff_of_true routed trivial
  | begins phase here suits =>
    have empty : s.batches.funcs = [] := conserved.rest (by
      rw [here]
      cases phase <;> simp [Phase.drains, Calling])
    have finished : ∀ entry ∈ s.log, entry.Routed [] := routed.finished empty
    rw [suits, ← crossed_eq_iff phase (s.since phase), ← crossed phase]
    constructor
    · intro right
      exact right.1 _ rfl
    · intro same
      refine ⟨fun entry latest => ?_, finished⟩
      obtain rfl := Option.some.inj latest
      exact same
  | call func rest shape =>
    have calling : Calling s.batches.stage := by
      by_contra idle
      simp [conserved.rest idle] at shape
    obtain ⟨phase, due, called, earlier, log⟩ := sequenced.busy calling
    obtain ⟨latest, before⟩ := routed
    rw [log] at latest before
    have owed : due = called ++ s.batches.funcs := latest _ rfl
    refine iff_of_true ⟨fun entry head => ?_, ?_⟩ trivial
    · simp only [log, addCall, List.head?_cons, Option.mem_some_iff] at head
      subst head
      simp only [Entry.Routed]
      rw [owed, shape, List.append_assoc, List.singleton_append]
    · simp only [log, addCall]
      exact before
  | goes _ _ entry suits _ funcs _ log _ plain empty =>
    refine iff_of_true ⟨fun latest head => ?_, ?_⟩ suits
    · rw [log] at head
      obtain rfl := Option.some.inj head
      exact plain _
    · rw [log]
      exact routed.finished empty
  | rests _ _ suits _ funcs _ log =>
    refine iff_of_true ?_ suits
    rw [Routed, log, funcs]
    exact routed

/-- What carries the induction. -/
structure Kept (s : Phases) : Prop where
  conserved : Conserved s.batches
  sequenced : Sequenced s
  crossed : Crossed s
  routed : Routed s

theorem kept_start : Kept start where
  conserved := start_conserved
  sequenced := sequenced_start
  crossed phase := rfl
  routed := ⟨by simp [start], by simp [start]⟩

theorem conserved_step {e : Event} (held : Conserved s.batches) (stepped : step s e = some next) :
    Conserved next.batches := by
  cases e with
  | runAt timestamp =>
    obtain rfl := Option.some.inj stepped
    exact held
  | clock now =>
    obtain rfl := Option.some.inj stepped
    exact held
  | loop e =>
    obtain ⟨batches, moved, rfl⟩ := Option.map_eq_some_iff.mp stepped
    have same : (record s batches e).batches = batches := by
      cases e with
      | call =>
        rw [record]
        split <;> rfl
      | proceed =>
        rw [record]
        split <;> rfl
      | push | quit | run | test | drain => rfl
    rw [same]
    exact step_conserved _ _ _ held moved

/-- Over every sequence of pushes, timers and steps of the loop: the record
keeps the order of `Loop::run`, idle phase, I/O, timers, runnable phase; and
every phase runs exactly what was submitted for it since its previous drain if
and only if nothing was ever pushed since then. -/
theorem phases_routed_iff {events : List Event} {final : Phases}
    (ran : run step start events = some final) :
    InOrder final.log ∧ (Throughout step Routed start events ↔ Meets step Suits start events) := by
  have sequence : ∀ s e next, Conserved s.batches ∧ Sequenced s → step s e = some next →
      Conserved next.batches ∧ Sequenced next := fun s e next held stepped =>
    ⟨conserved_step held.1 stepped, sequenced_step held.2 (step_change held.1 stepped)⟩
  have kept : ∀ s e next, Kept s → Suits s e → step s e = some next → Kept next := by
    intro s e next held suited stepped
    have changed := step_change held.conserved stepped
    exact ⟨conserved_step held.conserved stepped, sequenced_step held.sequenced changed,
      crossed_step held.crossed changed,
      (routed_step_iff held.conserved held.sequenced held.crossed held.routed changed).mpr suited⟩
  refine ⟨(run_keeps sequence ⟨start_conserved, sequenced_start⟩ ran).2.order, ?_⟩
  refine throughout_iff_meets_of_run kept ?_ (fun s held => held.routed) kept_start ran
  intro s e next held stepped right
  have changed := step_change held.conserved stepped
  exact (routed_step_iff held.conserved held.sequenced held.crossed held.routed changed).mp right

/-- In every state of every run the vector of each phase holds what was
submitted for the other one since the phase's previous drain. -/
theorem phases_crossed {events : List Event} (ran : run step start events = some s) : Crossed s := by
  have kept : ∀ s e next, Conserved s.batches ∧ Crossed s → step s e = some next →
      Conserved next.batches ∧ Crossed next := fun s e next held stepped =>
    ⟨conserved_step held.1 stepped, crossed_step held.2 (step_change held.1 stepped)⟩
  exact (run_keeps kept ⟨start_conserved, fun _ => rfl⟩ ran).2

/-- Two iterations with a timer, and a push after the last drain of each phase. -/
theorem phases_routed_timers :
    Throughout step Routed start [.runAt 5, .clock 9, .loop .run, .loop .test, .loop .drain,
      .loop .proceed, .loop .proceed, .loop .proceed, .loop .drain, .loop .proceed, .loop .test,
      .loop .drain, .loop .proceed, .loop .proceed, .runAt 7, .loop .proceed, .loop .drain,
      .loop (.push .pushIdle), .loop .proceed] :=
  (phases_routed_iff rfl).2.mpr (by decide)

/-- A function submitted by `pushIdle` is called after the timers, not before
the I/O. -/
theorem idle_function_runs_last :
    (run step start [.loop (.push .pushIdle), .loop .run, .loop .test, .loop .drain, .loop .proceed,
      .loop .proceed, .loop .proceed, .loop .drain, .loop .call]).map (fun s => s.log) =
        some [.drained .runable [] [(.pushIdle, 0)], .timers [], .io,
          .drained .idle [(.pushIdle, 0)] []] ∧
      ¬ Throughout step Routed start [.loop (.push .pushIdle), .loop .run, .loop .test, .loop .drain,
        .loop .proceed, .loop .proceed, .loop .proceed, .loop .drain, .loop .call] := by
  refine ⟨by decide, fun held => ?_⟩
  obtain ⟨s, ran, right⟩ := held.final
  obtain rfl : _ = s := Option.some.inj ran
  exact absurd (right.1 _ rfl) (by decide)

end ExNetlink.LoopPhases
