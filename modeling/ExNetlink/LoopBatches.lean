import Mathlib.Data.List.Count
import Mathlib.Data.List.Nodup
import Mathlib.Data.List.Range
import ExNetlink.LoopQueues

/-! What becomes of every function pushed to the event loop.

Here a push and a swap are one step each. A function is named by the call that
pushed it and by the number of such calls before its own. `handle_runnable`
swaps a whole vector out and calls what it holds, so a function that is pushed
in the meantime, by any thread or by a function of the batch itself, waits for
a later drain. -/
namespace ExNetlink.LoopBatches
open Loop Runs
open LoopQueues (Stage)

/-- The call that pushed a function. -/
inductive Source where
  | pushIdle
  | pushRunable
  deriving DecidableEq, Repr

/-- The vector that the call appends to. -/
def Source.vector : Source → Vector
  | pushIdle => (Op.pushIdle ()).vector
  | pushRunable => (Op.pushRunable ()).vector

theorem Source.vector_injective : Function.Injective Source.vector := by
  intro a b same
  cases a <;> cases b <;> first | rfl | contradiction

/-- A pushed function. -/
abbrev Func := Source × Nat

/-- The loop and what has happened so far. -/
structure Batches where
  queued : Vector → List Func
  isQuit : Bool
  stage : Stage
  /-- `funcs`, what is left of it. -/
  funcs : List Func
  /-- The number of calls of each kind. -/
  pushed : Source → Nat
  /-- The functions called, in that order. -/
  executed : List Func
  /-- The number of swaps. -/
  drains : Nat

inductive Event where
  /-- A push, by any thread or by a function the loop calls. -/
  | push (source : Source)
  | quit
  /-- `Loop::run` is called. -/
  | run
  | test
  /-- The swap of `handle_runnable`. -/
  | drain
  /-- The next function of `funcs` is called. -/
  | call
  /-- The loop thread goes on to the next line of `Loop::run`. -/
  | proceed
  deriving DecidableEq, Repr

def start : Batches where
  queued := fun _ => []
  isQuit := true
  stage := .out
  funcs := []
  pushed := fun _ => 0
  executed := []
  drains := 0

/-- `funcs.swap(runnables)` with an empty `funcs`. -/
def swap (s : Batches) (vector : Vector) (stage : Stage) : Batches :=
  { s with
    queued := Function.update s.queued vector []
    funcs := s.queued vector
    stage := stage
    drains := s.drains + 1 }

/-- The state after an event, for an event that can happen. -/
def step (s : Batches) : Event → Option Batches
  | .push source => some { s with
      queued := Function.update s.queued source.vector
        (s.queued source.vector ++ [(source, s.pushed source)])
      pushed := Function.update s.pushed source (s.pushed source + 1) }
  | .quit => some { s with isQuit := true }
  | .run => if s.stage = .out then some { s with isQuit := false, stage := .test } else none
  | .test =>
    if s.stage = .test then some { s with stage := if s.isQuit then .out else .drainIdle } else none
  | .drain =>
    match s.stage with
    | .drainIdle => some (swap s (Op.handleIdle (τ := Func)).vector .callIdle)
    | .drainRunable => some (swap s (Op.handleRunable (τ := Func)).vector .callRunable)
    | _ => none
  | .call =>
    match s.funcs with
    | func :: rest => some { s with funcs := rest, executed := s.executed ++ [func] }
    | [] => none
  | .proceed =>
    match s.stage with
    | .callIdle => if s.funcs.isEmpty then some { s with stage := .io } else none
    | .io => some { s with stage := .timer }
    | .timer => some { s with stage := .drainRunable }
    | .callRunable => if s.funcs.isEmpty then some { s with stage := .test } else none
    | _ => none

/-- The functions of a list that one kind of call has pushed. -/
def pushedBy (source : Source) (funcs : List Func) : List Func := funcs.filter fun f => f.1 = source

/-- The loop thread is calling a batch. -/
def Calling (stage : Stage) : Prop := stage = .callIdle ∨ stage = .callRunable

/-- The vector that the swap at this stage takes out. -/
def swapped : Stage → Option Vector
  | .drainIdle => some (Op.handleIdle (τ := Func)).vector
  | .drainRunable => some (Op.handleRunable (τ := Func)).vector
  | _ => none

/-- Every function is where it should be. -/
structure Conserved (s : Batches) : Prop where
  /-- The functions of one kind, in push order: those called, those of the batch, those queued. -/
  order : ∀ source, pushedBy source s.executed ++ pushedBy source s.funcs ++ s.queued source.vector =
    (List.range (s.pushed source)).map fun number => (source, number)
  own : ∀ vector, ∀ f ∈ s.queued vector, f.1.vector = vector
  rest : ¬ Calling s.stage → s.funcs = []

theorem start_conserved : Conserved start where
  order _ := rfl
  own _ _ member := by simp [start] at member
  rest _ := rfl

variable {s next : Batches}

/-- Everything an event can do: a swap needs its stage, and the loop thread goes
on from a batch only once that is empty. -/
inductive Change (s : Batches) : Event → Batches → Prop
  | push (source : Source) : Change s (.push source) { s with
      queued := Function.update s.queued source.vector
        (s.queued source.vector ++ [(source, s.pushed source)])
      pushed := Function.update s.pushed source (s.pushed source + 1) }
  | move (e : Event) (isQuit : Bool) (stage : Stage)
      (moves : e = .quit ∨ e = .run ∨ e = .test ∨ e = .proceed)
      (rest : ¬ Calling stage → ¬ Calling s.stage ∨ s.funcs = []) :
      Change s e { s with isQuit := isQuit, stage := stage }
  | swap (vector : Vector) (here : swapped s.stage = some vector) (stage : Stage)
      (calling : Calling stage) : Change s .drain (swap s vector stage)
  | call (func : Func) (rest : List Func) (shape : s.funcs = func :: rest) :
      Change s .call { s with funcs := rest, executed := s.executed ++ [func] }

/-- A swap takes out all that is queued in its vector, and calls nothing. -/
theorem step_drain : step s .drain = some next ↔ ∃ vector, swapped s.stage = some vector ∧
    next = swap s vector (if s.stage = .drainIdle then .callIdle else .callRunable) := by
  obtain ⟨queued, isQuit, stage, funcs, pushed, executed, drains⟩ := s
  cases stage <;> simp [step, swapped, eq_comm]

theorem step_change {e : Event} (stepped : step s e = some next) : Change s e next := by
  cases e with
  | push source =>
    obtain rfl := Option.some.inj stepped
    exact .push source
  | quit =>
    obtain rfl := Option.some.inj stepped
    exact .move _ true s.stage (by simp) .inl
  | run =>
    obtain ⟨outside, rfl⟩ := guarded_eq_some.mp stepped
    exact .move _ false .test (by simp) fun _ => .inl (by simp [outside, Calling])
  | test =>
    obtain ⟨testing, rfl⟩ := guarded_eq_some.mp stepped
    exact .move _ s.isQuit _ (by simp) fun _ => .inl (by simp [testing, Calling])
  | drain =>
    obtain ⟨vector, here, rfl⟩ := step_drain.mp stepped
    refine .swap vector here _ ?_
    split
    · exact .inl rfl
    · exact .inr rfl
  | call =>
    rw [step] at stepped
    split at stepped
    · rename_i func rest shape
      obtain rfl := Option.some.inj stepped
      exact .call func rest shape
    · contradiction
  | proceed =>
    rw [step] at stepped
    split at stepped
    · obtain ⟨empty, rfl⟩ := guarded_eq_some.mp stepped
      exact .move _ s.isQuit _ (by simp) fun _ => .inr (List.isEmpty_iff.mp empty)
    · rename_i stage
      obtain rfl := Option.some.inj stepped
      exact .move _ s.isQuit _ (by simp) fun _ => .inl (by simp [stage, Calling])
    · rename_i stage
      obtain rfl := Option.some.inj stepped
      exact .move _ s.isQuit _ (by simp) fun _ => .inl (by simp [stage, Calling])
    · obtain ⟨empty, rfl⟩ := guarded_eq_some.mp stepped
      exact .move _ s.isQuit _ (by simp) fun _ => .inr (List.isEmpty_iff.mp empty)
    · contradiction

/-- Only at a stage where nothing is being called. -/
theorem not_calling_of_swapped {stage : Stage} {vector : Vector} (here : swapped stage = some vector) :
    ¬ Calling stage := by
  rintro (rfl | rfl)
  · cases here
  · cases here

/-- A step of the loop thread that moves no function. -/
theorem Conserved.move (held : Conserved s) (isQuit : Bool) {stage : Stage}
    (rest : ¬ Calling stage → s.funcs = []) :
    Conserved { s with isQuit := isQuit, stage := stage } where
  order := held.order
  own := held.own
  rest := rest

theorem Conserved.push (held : Conserved s) (source : Source) :
    Conserved { s with
      queued := Function.update s.queued source.vector
        (s.queued source.vector ++ [(source, s.pushed source)])
      pushed := Function.update s.pushed source (s.pushed source + 1) } where
  order other := by
    by_cases same : other = source
    · subst same
      simp only [Function.update_self]
      rw [← List.append_assoc, held.order, List.range_succ, List.map_append]
      rfl
    · have apart : other.vector ≠ source.vector := fun equal => same (Source.vector_injective equal)
      simp only [Function.update_of_ne apart, Function.update_of_ne same]
      exact held.order other
  own vector f member := by
    by_cases same : vector = source.vector
    · subst same
      simp only [Function.update_self] at member
      rcases List.mem_append.mp member with old | new
      · exact held.own _ f old
      · rw [List.mem_singleton.mp new]
    · simp only [Function.update_of_ne same] at member
      exact held.own vector f member
  rest := held.rest

/-- A vector holds the functions of its own source and no others. -/
theorem Conserved.pushedBy_queued (held : Conserved s) (vector : Vector) (source : Source) :
    pushedBy source (s.queued vector) = if source.vector = vector then s.queued vector else [] := by
  split
  · rename_i same
    refine List.filter_eq_self.mpr fun f member => decide_eq_true ?_
    exact Source.vector_injective ((held.own vector f member).trans same.symm)
  · rename_i apart
    refine List.filter_eq_nil_iff.mpr fun f member same => apart ?_
    rw [← of_decide_eq_true same]
    exact held.own vector f member

theorem Conserved.swap (held : Conserved s) (empty : s.funcs = []) (vector : Vector) {stage : Stage}
    (calling : Calling stage) : Conserved (swap s vector stage) where
  order source := by
    have order := held.order source
    rw [empty] at order
    simp only [LoopBatches.swap, held.pushedBy_queued]
    split
    · rename_i same
      rw [same, Function.update_self, List.append_nil, ← same]
      simpa [pushedBy] using order
    · rename_i apart
      rw [Function.update_of_ne apart, List.append_nil]
      simpa [pushedBy] using order
  own other f member := by
    by_cases same : other = vector
    · subst same
      simp [LoopBatches.swap] at member
    · simp only [LoopBatches.swap, Function.update_of_ne same] at member
      exact held.own other f member
  rest idle := absurd calling idle

theorem Conserved.call (held : Conserved s) {func : Func} {rest : List Func}
    (shape : s.funcs = func :: rest) :
    Conserved { s with funcs := rest, executed := s.executed ++ [func] } where
  order source := by
    have order := held.order source
    rw [shape, pushedBy, pushedBy, ← List.filter_append, List.append_cons, List.filter_append] at order
    exact order
  own := held.own
  rest idle := by
    have none := held.rest idle
    rw [shape] at none
    contradiction

theorem step_conserved (s : Batches) (e : Event) (next : Batches) (held : Conserved s)
    (stepped : step s e = some next) : Conserved next := by
  cases step_change stepped with
  | push source => exact held.push source
  | move _ isQuit stage _ rest => exact held.move isQuit fun idle => (rest idle).elim held.rest id
  | swap vector here stage calling =>
    exact held.swap (held.rest (not_calling_of_swapped here)) vector calling
  | call func rest shape => exact held.call shape

/-- Between two swaps only `call` moves functions, and only from the batch. -/
theorem step_batch {e : Event} (stepped : step s e = some next) :
    s.drains < next.drains ∨ next.drains = s.drains ∧
      next.executed ++ next.funcs = s.executed ++ s.funcs ∧
      [e].count .call + next.funcs.length = s.funcs.length := by
  cases step_change stepped with
  | push source => exact .inr ⟨rfl, rfl, Nat.zero_add _⟩
  | move _ isQuit stage moves =>
    refine .inr ⟨rfl, rfl, ?_⟩
    rcases moves with rfl | rfl | rfl | rfl <;> exact Nat.zero_add _
  | swap vector here stage => exact .inl (Nat.lt_succ_self _)
  | call func rest shape =>
    refine .inr ⟨rfl, ?_, ?_⟩
    · rw [shape, List.append_assoc, List.singleton_append]
    · rw [shape, List.length_cons, Nat.add_comm]
      rfl

/-- The same over any number of steps up to the next swap. -/
theorem run_batch {later : List Event} (ran : run step s later = some next) :
    s.drains < next.drains ∨ next.drains = s.drains ∧
      next.executed ++ next.funcs = s.executed ++ s.funcs ∧
      later.count .call + next.funcs.length = s.funcs.length := by
  induction later generalizing s with
  | nil =>
    obtain rfl := Option.some.inj ran
    exact .inr ⟨rfl, rfl, Nat.zero_add _⟩
  | cons e rest ih =>
    obtain ⟨middle, stepped, ran⟩ := run_cons_some.mp ran
    rcases step_batch stepped with swapped | ⟨same, moved, counted⟩
    · rcases ih ran with again | ⟨same, -, -⟩
      · exact .inl (Nat.lt_trans swapped again)
      · exact .inl (same ▸ swapped)
    · rcases ih ran with swapped | ⟨same', moved', counted'⟩
      · exact .inl (same ▸ swapped)
      · refine .inr ⟨same'.trans same, moved'.trans moved, ?_⟩
        rw [← List.singleton_append, List.count_append]
        omega

/-- A batch of `n` functions is over after `n` calls. -/
theorem drain_ends (calling : Calling s.stage) :
    ∃ final, run step s (List.replicate s.funcs.length .call ++ [.proceed]) = some final ∧
      ¬ Calling final.stage := by
  induction shape : s.funcs generalizing s with
  | nil =>
    rcases calling with stage | stage
    · exact ⟨{ s with stage := .io }, by simp [run, step, stage, shape], by simp [Calling]⟩
    · exact ⟨{ s with stage := .test }, by simp [run, step, stage, shape], by simp [Calling]⟩
  | cons func rest ih =>
    obtain ⟨final, ran, done⟩ :=
      ih (s := { s with funcs := rest, executed := s.executed ++ [func] }) calling rfl
    refine ⟨final, ?_, done⟩
    rw [List.length_cons, List.replicate_succ, List.cons_append]
    exact run_cons_some.mpr ⟨_, by rw [step, shape], ran⟩

/-- Where the functions of one kind are, as a count. -/
theorem Conserved.count (held : Conserved s) (f : Func) :
    s.executed.count f + s.funcs.count f + (s.queued .idle).count f + (s.queued .runable).count f =
      if f.2 < s.pushed f.1 then 1 else 0 := by
  obtain ⟨source, number⟩ := f
  have elsewhere : ∀ vector, vector ≠ source.vector → (s.queued vector).count (source, number) = 0 :=
    fun vector apart => List.count_eq_zero.mpr fun member => apart (held.own vector _ member).symm
  have kept : ∀ funcs : List Func,
      (pushedBy source funcs).count (source, number) = funcs.count (source, number) :=
    fun funcs => List.count_filter (by simp)
  have total := congrArg (List.count (source, number)) (held.order source)
  rw [List.count_append, List.count_append, kept, kept,
    List.count_map_of_injective _ _ (Prod.mk_right_injective source),
    List.Nodup.count List.nodup_range] at total
  simp only [List.mem_range] at total
  cases source with
  | pushIdle =>
    have none := elsewhere .idle (by decide)
    change _ + (s.queued .runable).count _ = _ at total
    dsimp only
    omega
  | pushRunable =>
    have none := elsewhere .runable (by decide)
    change _ + (s.queued .idle).count _ = _ at total
    dsimp only
    omega

/-- The functions of one kind are called in push order. -/
theorem Conserved.executed_order (held : Conserved s) (source : Source) :
    pushedBy source s.executed =
      (List.range (pushedBy source s.executed).length).map fun number => (source, number) := by
  have order := congrArg (List.take (pushedBy source s.executed).length) (held.order source)
  have fits : (pushedBy source s.executed).length ≤ s.pushed source := by
    have total := congrArg List.length (held.order source)
    simp only [List.length_append, List.length_map, List.length_range] at total
    omega
  rw [List.append_assoc, List.take_left, ← List.map_take, List.take_range,
    Nat.min_eq_left fits] at order
  exact order

/-- The counters count the pushes and the swaps. -/
theorem step_counters {e : Event} (stepped : step s e = some next) :
    (∀ source, next.pushed source = s.pushed source + [e].count (.push source)) ∧
      next.drains = s.drains + [e].count .drain := by
  cases step_change stepped with
  | push source =>
    refine ⟨fun other => ?_, rfl⟩
    by_cases same : other = source
    · subst same
      simp
    · have apart : source ≠ other := fun equal => same equal.symm
      simp [Function.update_of_ne same, apart]
  | move _ isQuit stage moves =>
    rcases moves with rfl | rfl | rfl | rfl <;> exact ⟨fun _ => rfl, rfl⟩
  | swap | call => exact ⟨fun _ => rfl, rfl⟩

theorem run_counters {events : List Event} (ran : run step start events = some s) :
    (∀ source, s.pushed source = events.count (.push source)) ∧ s.drains = events.count .drain := by
  refine ⟨fun source => ?_, ?_⟩
  · rw [run_counts (fun s : Batches => s.pushed source)
      (fun _ _ _ stepped => (step_counters stepped).1 source) ran, start, Nat.zero_add]
    rfl
  · rw [run_counts Batches.drains (fun _ _ _ stepped => (step_counters stepped).2) ran, start, Nat.zero_add]
    rfl

/-- In every state of every run each function pushed so far, by as many pushes
as there were, is queued, in the batch or called, in one place and once;
functions of one kind are called in push order. A swap takes out all that is
queued in its vector. Until the next swap the batch at hand is all that is
called, so nothing pushed from now on; each of these calls shortens it, and with
it the drain ends. -/
theorem functions_run_once {events : List Event} (ran : run step start events = some s) :
    (∀ f : Func, s.executed.count f + s.funcs.count f + (s.queued .idle).count f +
      (s.queued .runable).count f = if f.2 < s.pushed f.1 then 1 else 0) ∧
    (∀ source, pushedBy source s.executed =
      (List.range (pushedBy source s.executed).length).map fun number => (source, number)) ∧
    (∀ later next, run step s later = some next → next.drains = s.drains →
      next.executed ++ next.funcs = s.executed ++ s.funcs ∧
      (∀ f ∈ next.executed, f.2 < s.pushed f.1) ∧
      later.count .call + next.funcs.length = s.funcs.length) ∧
    (Calling s.stage → ∃ final,
      run step s (List.replicate s.funcs.length .call ++ [.proceed]) = some final ∧
      ¬ Calling final.stage) ∧
    (∀ source, s.pushed source = events.count (.push source)) ∧
    s.drains = events.count .drain ∧
    ∀ vector, swapped s.stage = some vector → ∃ next, step s .drain = some next ∧
      Calling next.stage ∧ next.funcs = s.queued vector ∧ next.executed = s.executed ∧
      next.queued = Function.update s.queued vector [] := by
  have held : Conserved s := run_keeps step_conserved start_conserved ran
  obtain ⟨pushes, swaps⟩ := run_counters ran
  refine ⟨held.count, held.executed_order, fun later next ranLater same => ?_, drain_ends,
    pushes, swaps, fun vector here => ?_⟩
  · obtain ⟨-, moved, counted⟩ := (run_batch ranLater).resolve_left (by omega)
    refine ⟨moved, fun f member => ?_, counted⟩
    have early : f ∈ s.executed ++ s.funcs := moved ▸ List.mem_append_left _ member
    by_contra late
    have none := held.count f
    rw [if_neg late] at none
    rcases List.mem_append.mp early with called | waiting
    · have positive := List.count_pos_iff.mpr called
      omega
    · have positive := List.count_pos_iff.mpr waiting
      omega
  · refine ⟨_, step_drain.mpr ⟨vector, here, rfl⟩, ?_, rfl, rfl, rfl⟩
    simp only [swap, Calling]
    split
    · exact .inl rfl
    · exact .inr rfl

/-- A function of the batch pushes another of its kind: that one is queued and not called. -/
theorem functions_run_once_pushing :
    ∃ s, run step start [.push .pushRunable, .run, .test, .drain] = some s ∧
      ∀ later next, run step s later = some next → next.drains = s.drains →
        (Source.pushRunable, 1) ∉ next.executed := by
  refine ⟨_, rfl, fun later next ranLater same member => ?_⟩
  have once := @functions_run_once _ [.push .pushRunable, .run, .test, .drain] rfl
  have early := (once.2.2.1 later next ranLater same).2.1 _ member
  exact absurd early (by decide)

end ExNetlink.LoopBatches
