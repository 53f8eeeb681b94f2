import Mathlib.Tactic.Common

/-! Runs of a labelled, partial step function.

A step of the system under a label either gives the next state or has no
result: the label is not enabled, or the program has no defined behaviour
there. `run` follows a whole list of labels. `Meets` says that every step of a
run is taken from a state that suits its label, and `Throughout` that every
state of the run exists and is good. The rules at the end turn what one step
preserves into what whole runs preserve. -/
namespace ExNetlink.Runs

variable {σ τ ω : Type*} {step : σ → ω → Option σ}

/-- The state after a list of labels. -/
def run (step : σ → ω → Option σ) : σ → List ω → Option σ
  | s, [] => some s
  | s, label :: rest => (step s label).bind fun next => run step next rest

/-- Every label of the run is taken from a state it suits. -/
def Meets (step : σ → ω → Option σ) (suits : σ → ω → Prop) : σ → List ω → Prop
  | _, [] => True
  | s, label :: rest => suits s label ∧ ∀ next, step s label = some next → Meets step suits next rest

/-- Every state of the run exists and is good, the first and the last included. -/
def Throughout (step : σ → ω → Option σ) (good : σ → Prop) : σ → List ω → Prop
  | s, [] => good s
  | s, label :: rest => good s ∧ ∃ next, step s label = some next ∧ Throughout step good next rest

instance decidableMeets {suits : σ → ω → Prop} [∀ s label, Decidable (suits s label)] :
    ∀ s labels, Decidable (Meets step suits s labels)
  | _, [] => isTrue trivial
  | s, label :: rest =>
    match stepped : step s label with
    | none => decidable_of_iff (suits s label)
        ⟨fun suited => ⟨suited, fun _ same => by simp [stepped] at same⟩, And.left⟩
    | some next =>
      have : Decidable (Meets step suits next rest) := decidableMeets next rest
      decidable_of_iff (suits s label ∧ Meets step suits next rest)
        ⟨fun ⟨suited, later⟩ => ⟨suited, fun other same => by
          obtain rfl : next = other := Option.some.inj (stepped.symm.trans same)
          exact later⟩, fun ⟨suited, later⟩ => ⟨suited, later next stepped⟩⟩

instance decidableThroughout {good : σ → Prop} [DecidablePred good] :
    ∀ s labels, Decidable (Throughout step good s labels)
  | s, [] => inferInstanceAs (Decidable (good s))
  | s, label :: rest =>
    match stepped : step s label with
    | none => isFalse fun ⟨_, _, same, _⟩ => by simp [stepped] at same
    | some next =>
      have : Decidable (Throughout step good next rest) := decidableThroughout next rest
      decidable_of_iff (good s ∧ Throughout step good next rest)
        ⟨fun ⟨here, later⟩ => ⟨here, next, stepped, later⟩, fun ⟨here, other, same, later⟩ => by
          obtain rfl : next = other := Option.some.inj (stepped.symm.trans same)
          exact ⟨here, later⟩⟩

/-- A guarded step. -/
theorem guarded_eq_some {guard : Prop} [Decidable guard] {s t : σ} :
    (if guard then some s else none) = some t ↔ guard ∧ s = t := by
  rw [Option.ite_none_right_eq_some, Option.some_inj]

theorem run_cons (s : σ) (label : ω) (rest : List ω) :
    run step s (label :: rest) = (step s label).bind fun next => run step next rest := rfl

theorem run_cons_some {s final : σ} {label : ω} {rest : List ω} :
    run step s (label :: rest) = some final ↔
      ∃ next, step s label = some next ∧ run step next rest = some final := by
  rw [run_cons, Option.bind_eq_some_iff]

theorem run_append (s : σ) (front back : List ω) :
    run step s (front ++ back) = (run step s front).bind fun middle => run step middle back := by
  induction front generalizing s with
  | nil => rfl
  | cons label rest ih =>
    rw [List.cons_append, run_cons, run_cons, Option.bind_assoc]
    congr 1
    funext next
    exact ih next

/-- What every step keeps holds after every run. -/
theorem run_keeps {inv : σ → Prop}
    (kept : ∀ s label next, inv s → step s label = some next → inv next)
    {s final : σ} {labels : List ω} (start : inv s) (ran : run step s labels = some final) :
    inv final := by
  induction labels generalizing s with
  | nil => exact (Option.some.inj ran) ▸ start
  | cons label rest ih =>
    obtain ⟨next, stepped, ran⟩ := run_cons_some.mp ran
    exact ih (kept s label next start stepped) ran

/-- The same for what the labels of this run keep. -/
theorem run_keeps_of_mem {inv : σ → Prop} {labels : List ω}
    (kept : ∀ s, ∀ label ∈ labels, ∀ next, inv s → step s label = some next → inv next)
    {s final : σ} (start : inv s) (ran : run step s labels = some final) : inv final := by
  induction labels generalizing s with
  | nil => exact (Option.some.inj ran) ▸ start
  | cons label rest ih =>
    obtain ⟨next, stepped, ran⟩ := run_cons_some.mp ran
    have later := fun s other member => kept s other (List.mem_cons_of_mem label member)
    exact ih later (kept s label List.mem_cons_self next start stepped) ran

/-- A log to which each step appends what its label says holds, after a run,
what the labels say. -/
theorem run_logs {υ : Type*} (log : σ → List υ) {entry : ω → List υ}
    (logged : ∀ s label next, step s label = some next → log next = log s ++ entry label)
    {s final : σ} {labels : List ω} (ran : run step s labels = some final) :
    log final = log s ++ labels.flatMap entry := by
  induction labels generalizing s with
  | nil =>
    obtain rfl := Option.some.inj ran
    rw [List.flatMap_nil, List.append_nil]
  | cons label rest ih =>
    obtain ⟨next, stepped, ran⟩ := run_cons_some.mp ran
    rw [ih ran, logged s label next stepped, List.flatMap_cons, List.append_assoc]

/-- A counter that each step raises by what its label says. -/
theorem run_counts (counter : σ → Nat) {p : ω → Bool}
    (counted : ∀ s label next, step s label = some next →
      counter next = counter s + [label].countP p)
    {s final : σ} {labels : List ω} (ran : run step s labels = some final) :
    counter final = counter s + labels.countP p := by
  induction labels generalizing s with
  | nil =>
    obtain rfl := Option.some.inj ran
    rfl
  | cons label rest ih =>
    obtain ⟨next, stepped, ran⟩ := run_cons_some.mp ran
    rw [ih ran, counted s label next stepped, Nat.add_assoc, ← List.countP_append,
      List.singleton_append]

/-- What a run is to an observer, who sees each step as some labels of his own. -/
def observe {υ : Type*} (step : σ → ω → Option σ) (seen : σ → ω → List υ) : σ → List ω → List υ
  | _, [] => []
  | s, label :: rest => seen s label ++ ((step s label).map fun next => observe step seen next rest).getD []

/-- When every step is to the observer a run of his own system, so is every
run. -/
theorem run_observed {υ : Type*} {other : τ → υ → Option τ} {seen : σ → ω → List υ} (view : σ → τ)
    {inv : σ → Prop} (kept : ∀ s label next, inv s → step s label = some next → inv next)
    (matched : ∀ s label next, inv s → step s label = some next →
      run other (view s) (seen s label) = some (view next))
    {s final : σ} {labels : List ω} (start : inv s) (ran : run step s labels = some final) :
    run other (view s) (observe step seen s labels) = some (view final) := by
  induction labels generalizing s with
  | nil => exact congrArg (fun s => some (view s)) (Option.some.inj ran)
  | cons label rest ih =>
    obtain ⟨next, stepped, ran⟩ := run_cons_some.mp ran
    rw [observe, stepped, run_append, matched s label next start stepped]
    exact ih (kept s label next start stepped) ran

/-- Suitable labels keep the invariant, so it holds throughout. -/
theorem throughout_of_meets {suits : σ → ω → Prop} {inv : σ → Prop}
    (sufficient : ∀ s label, inv s → suits s label → ∃ next, step s label = some next ∧ inv next)
    {s : σ} {labels : List ω} (start : inv s) (met : Meets step suits s labels) :
    Throughout step inv s labels := by
  induction labels generalizing s with
  | nil => exact start
  | cons label rest ih =>
    obtain ⟨next, stepped, kept⟩ := sufficient s label start met.1
    exact ⟨start, next, stepped, ih kept (met.2 next stepped)⟩

/-- An invariant that every label keeps holds throughout every run. -/
theorem throughout_of_total {inv : σ → Prop}
    (kept : ∀ s label, inv s → ∃ next, step s label = some next ∧ inv next)
    {s : σ} (labels : List ω) (start : inv s) : Throughout step inv s labels := by
  induction labels generalizing s with
  | nil => exact start
  | cons label rest ih =>
    obtain ⟨next, stepped, held⟩ := kept s label start
    exact ⟨start, next, stepped, ih held⟩

theorem Throughout.start {good : σ → Prop} {s : σ} {labels : List ω}
    (held : Throughout step good s labels) : good s := by
  cases labels with
  | nil => exact held
  | cons => exact held.1

theorem Throughout.mono {good better : σ → Prop} (implied : ∀ s, good s → better s)
    {s : σ} {labels : List ω} (held : Throughout step good s labels) :
    Throughout step better s labels := by
  induction labels generalizing s with
  | nil => exact implied s held
  | cons label rest ih =>
    obtain ⟨here, next, stepped, later⟩ := held
    exact ⟨implied s here, next, stepped, ih later⟩

/-- Suitable labels keep the invariant, so it holds throughout a run that is known to exist. -/
theorem throughout_of_run {suits : σ → ω → Prop} {inv : σ → Prop}
    (kept : ∀ s label next, inv s → suits s label → step s label = some next → inv next)
    {s final : σ} {labels : List ω} (start : inv s) (ran : run step s labels = some final)
    (met : Meets step suits s labels) : Throughout step inv s labels := by
  induction labels generalizing s with
  | nil => exact start
  | cons label rest ih =>
    obtain ⟨next, stepped, ran⟩ := run_cons_some.mp ran
    exact ⟨start, next, stepped, ih (kept s label next start met.1 stepped) ran (met.2 next stepped)⟩

/-- Only suitable labels lead to a good state, so a run that is good throughout has no others. -/
theorem meets_of_throughout {suits : σ → ω → Prop} {inv good : σ → Prop}
    (kept : ∀ s label next, inv s → suits s label → step s label = some next → inv next)
    (necessary : ∀ s label next, inv s → step s label = some next → good next → suits s label)
    {s : σ} {labels : List ω} (start : inv s) (held : Throughout step good s labels) :
    Meets step suits s labels := by
  induction labels generalizing s with
  | nil => trivial
  | cons label rest ih =>
    obtain ⟨-, next, stepped, later⟩ := held
    have suited := necessary s label next start stepped later.start
    refine ⟨suited, fun other same => ?_⟩
    obtain rfl : next = other := Option.some.inj (stepped.symm.trans same)
    exact ih (kept s label next start suited stepped) later

/-- When suitable labels keep an invariant that makes every state good, and
only they lead to a good state, a run is good throughout exactly when all its
labels are suitable. -/
theorem throughout_iff_meets {suits : σ → ω → Prop} {inv good : σ → Prop}
    (sufficient : ∀ s label, inv s → suits s label → ∃ next, step s label = some next ∧ inv next)
    (necessary : ∀ s label next, inv s → step s label = some next → good next → suits s label)
    (strong : ∀ s, inv s → good s) {s : σ} (labels : List ω) (start : inv s) :
    Throughout step good s labels ↔ Meets step suits s labels := by
  refine ⟨meets_of_throughout ?_ necessary start, fun met =>
    (throughout_of_meets sufficient start met).mono strong⟩
  intro s label next held suited stepped
  obtain ⟨found, reached, kept⟩ := sufficient s label held suited
  obtain rfl : next = found := Option.some.inj (stepped.symm.trans reached)
  exact kept

/-- The same for a run that is known to exist, when labels may be disabled. -/
theorem throughout_iff_meets_of_run {suits : σ → ω → Prop} {inv good : σ → Prop}
    (kept : ∀ s label next, inv s → suits s label → step s label = some next → inv next)
    (necessary : ∀ s label next, inv s → step s label = some next → good next → suits s label)
    (strong : ∀ s, inv s → good s) {s final : σ} {labels : List ω} (start : inv s)
    (ran : run step s labels = some final) :
    Throughout step good s labels ↔ Meets step suits s labels :=
  ⟨meets_of_throughout kept necessary start, fun met =>
    (throughout_of_run kept start ran met).mono strong⟩

/-- Two demands on labels that agree under an invariant are met by the same runs. -/
theorem meets_congr {suits demands : σ → ω → Prop} {inv : σ → Prop}
    (kept : ∀ s label next, inv s → step s label = some next → inv next)
    (agree : ∀ s label, inv s → (suits s label ↔ demands s label)) {s : σ} (labels : List ω)
    (start : inv s) : Meets step suits s labels ↔ Meets step demands s labels := by
  induction labels generalizing s with
  | nil => rfl
  | cons label rest ih =>
    refine and_congr (agree s label start) (forall₂_congr fun next stepped => ?_)
    exact ih (kept s label next start stepped)

/-- When a label that is not suitable spoils the state for good, a run whose
last state is not spoilt has none. -/
theorem meets_of_not_spoilt {suits : σ → ω → Prop} {inv spoilt : σ → Prop}
    (kept : ∀ s label next, inv s → step s label = some next → inv next)
    (spoils : ∀ s label next, inv s → step s label = some next → ¬ suits s label → spoilt next)
    (stays : ∀ s label next, inv s → spoilt s → step s label = some next → spoilt next)
    {s final : σ} {labels : List ω} (start : inv s) (ran : run step s labels = some final)
    (fine : ¬ spoilt final) : Meets step suits s labels := by
  have both : ∀ s label next, (inv s ∧ spoilt s) → step s label = some next →
      inv next ∧ spoilt next := by
    rintro s label next ⟨held, bad⟩ stepped
    exact ⟨kept s label next held stepped, stays s label next held bad stepped⟩
  induction labels generalizing s with
  | nil => trivial
  | cons label rest ih =>
    obtain ⟨next, stepped, ran⟩ := run_cons_some.mp ran
    have held := kept s label next start stepped
    refine ⟨?_, fun other same => ?_⟩
    · by_contra unsuited
      exact fine (run_keeps both ⟨held, spoils s label next start stepped unsuited⟩ ran).2
    · obtain rfl : next = other := Option.some.inj (stepped.symm.trans same)
      exact ih held ran

/-- When a label that is not suitable leaves something owed, and what is owed
stays so while the states are good and the labels leave it, a run that is good
throughout and owes nothing at its end has none. -/
theorem meets_of_left {suits leaves : σ → ω → Prop} {inv good owed : σ → Prop}
    (kept : ∀ s label next, inv s → step s label = some next → inv next)
    (owes : ∀ s label next, inv s → step s label = some next → ¬ suits s label → good next → owed next)
    (stays : ∀ s label next, inv s → owed s → leaves s label → step s label = some next → good next →
      owed next)
    {s final : σ} {labels : List ω} (start : inv s) (ran : run step s labels = some final)
    (left : Meets step leaves s labels) (held : Throughout step good s labels)
    (settled : ¬ owed final) : Meets step suits s labels := by
  have late : ∀ (labels : List ω) {s : σ}, inv s → owed s → run step s labels = some final →
      Meets step leaves s labels → Throughout step good s labels → owed final := by
    intro labels
    induction labels with
    | nil =>
      intro s _ owing ran _ _
      exact (Option.some.inj ran) ▸ owing
    | cons label rest ih =>
      rintro s start owing ran ⟨leaving, left⟩ ⟨-, next, stepped, later⟩
      rw [run_cons, stepped, Option.bind_some] at ran
      exact ih (kept s label next start stepped)
        (stays s label next start owing leaving stepped later.start) ran (left next stepped) later
  induction labels generalizing s with
  | nil => trivial
  | cons label rest ih =>
    obtain ⟨-, next, stepped, later⟩ := held
    rw [run_cons, stepped, Option.bind_some] at ran
    have following := kept s label next start stepped
    have left := left.2 next stepped
    refine ⟨?_, fun other same => ?_⟩
    · by_contra unsuited
      exact settled (late rest following (owes s label next start stepped unsuited later.start) ran
        left later)
    · obtain rfl : next = other := Option.some.inj (stepped.symm.trans same)
      exact ih following ran left later

/-- Every run meets a demand that asks for nothing. -/
theorem meets_trivial {s : σ} (labels : List ω) : Meets step (fun _ _ => True) s labels := by
  induction labels generalizing s with
  | nil => trivial
  | cons label rest ih => exact ⟨trivial, fun next _ => ih⟩

/-- The same where every label leaves what is owed. -/
theorem meets_of_settled {suits : σ → ω → Prop} {inv good owed : σ → Prop}
    (kept : ∀ s label next, inv s → step s label = some next → inv next)
    (owes : ∀ s label next, inv s → step s label = some next → ¬ suits s label → good next → owed next)
    (stays : ∀ s label next, inv s → owed s → step s label = some next → good next → owed next)
    {s final : σ} {labels : List ω} (start : inv s) (ran : run step s labels = some final)
    (held : Throughout step good s labels) (settled : ¬ owed final) : Meets step suits s labels :=
  meets_of_left kept owes (fun s label next start owing _ => stays s label next start owing) start
    ran (meets_trivial labels) held settled

/-- The last state of a run that is good throughout. -/
theorem Throughout.final {good : σ → Prop} {s : σ} {labels : List ω}
    (held : Throughout step good s labels) : ∃ final, run step s labels = some final ∧ good final := by
  induction labels generalizing s with
  | nil => exact ⟨s, rfl, held⟩
  | cons label rest ih =>
    obtain ⟨-, next, stepped, later⟩ := held
    obtain ⟨final, ran, good⟩ := ih later
    exact ⟨final, run_cons_some.mpr ⟨next, stepped, ran⟩, good⟩

end ExNetlink.Runs
