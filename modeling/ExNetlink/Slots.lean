import Mathlib.Data.List.Basic
import ExNetlink.Runs

/-! Tables of slots, and what is done with the things they hold.

A program keeps things (descriptors, say) in the slots of a table and makes
calls on them. `key` is the thing a slot holds, if any, and `phase` how far it
has come; `next` says which calls a phase admits and where they lead, starting
from `absent`. `Tracks` ties the two together: what was called on any thing,
from the beginning of the log on, was admitted, and has led to the phase that
the table shows. The rules say when a changed slot and a new slot keep it. -/
namespace ExNetlink.Slots
open Runs

variable {α κ φ γ : Type*} {key : α → Option κ} {phase : α → φ} {next : φ → γ → Option φ}
  {absent : φ} {slots : List α} {log : List (κ × γ)} {a b : α} {i : Nat}

/-- No two slots hold the same thing. -/
def Distinct (key : α → Option κ) (slots : List α) : Prop :=
  ∀ k, ∀ i j : Nat, ∀ a ∈ slots[i]?, ∀ b ∈ slots[j]?, key a = some k → key b = some k → i = j

/-- How far thing `k` has come, by the table. -/
def At (key : α → Option κ) (phase : α → φ) (absent : φ) (slots : List α) (k : κ) (p : φ) : Prop :=
  (∃ i : Nat, ∃ a ∈ slots[i]?, key a = some k ∧ phase a = p) ∨
    (∀ i : Nat, ∀ a ∈ slots[i]?, key a ≠ some k) ∧ p = absent

variable [DecidableEq κ]

/-- The calls made on thing `k`. -/
def on (k : κ) (log : List (κ × γ)) : List γ :=
  log.filterMap fun entry => if entry.1 = k then some entry.2 else none

/-- The table says of every thing what the calls on it have led to. -/
structure Tracks (key : α → Option κ) (phase : α → φ) (next : φ → γ → Option φ) (absent : φ)
    (slots : List α) (log : List (κ × γ)) : Prop where
  distinct : Distinct key slots
  follows : ∀ k, ∃ p, run next absent (on k log) = some p ∧ At key phase absent slots k p

theorem on_append (k : κ) (log more : List (κ × γ)) : on k (log ++ more) = on k log ++ on k more :=
  List.filterMap_append ..

theorem on_self (k : κ) (calls : List γ) : on k (calls.map (k, ·)) = calls := by
  simp [on, List.filterMap_map]

theorem on_other {k other : κ} (different : other ≠ k) (calls : List γ) :
    on k (calls.map (other, ·)) = [] := by
  simp [on, List.filterMap_map, different]

omit [DecidableEq κ] in
theorem Distinct.phase_eq (distinct : Distinct key slots) (here : a ∈ slots[i]?) {k : κ}
    (holds : key a = some k) {p : φ} (shown : At key phase absent slots k p) : phase a = p := by
  rcases shown with ⟨j, b, there, same, rfl⟩ | ⟨nowhere, -⟩
  · obtain rfl := distinct k i j a here b there holds same
    rw [Option.mem_def] at here there
    rw [here] at there
    rw [Option.some.inj there]
  · exact absurd holds (nowhere i a here)

/-- The slots after one of them has changed. -/
theorem getElem?_set_cases {j : Nat} {c : α} (there : c ∈ (slots.set i b)[j]?) :
    j = i ∧ c = b ∨ j ≠ i ∧ c ∈ slots[j]? := by
  rw [List.getElem?_set] at there
  split at there
  · rename_i same
    split at there
    · exact .inl ⟨same.symm, (Option.some.inj there).symm⟩
    · cases there
  · rename_i other
    exact .inr ⟨Ne.symm other, there⟩

/-- A slot keeps what it holds or lets it go, by calls that its phase admits. -/
theorem Tracks.change (tracks : Tracks key phase next absent slots log) (here : a ∈ slots[i]?)
    {k : κ} (holds : key a = some k) {calls : List γ}
    (led : key b = some k ∧ run next (phase a) calls = some (phase b) ∨
      key b = none ∧ run next (phase a) calls = some absent) :
    Tracks key phase next absent (slots.set i b) (log ++ calls.map (k, ·)) := by
  have kept : ∀ l, key b = some l → key a = some l := by
    intro l held
    rcases led with ⟨same, -⟩ | ⟨none, -⟩
    · rw [holds, ← same, held]
    · rw [none] at held
      cases held
  have inside : i < slots.length := (List.getElem?_eq_some_iff.mp here).1
  have changed : b ∈ (slots.set i b)[i]? := List.getElem?_set_self inside
  constructor
  · intro l j m c there d yonder first second
    rcases getElem?_set_cases there with ⟨rfl, rfl⟩ | ⟨-, left⟩
    · rcases getElem?_set_cases yonder with ⟨rfl, -⟩ | ⟨-, right⟩
      · rfl
      · exact tracks.distinct l _ _ a here d right (kept l first) second
    · rcases getElem?_set_cases yonder with ⟨rfl, rfl⟩ | ⟨-, right⟩
      · exact tracks.distinct l _ _ c left a here first (kept l second)
      · exact tracks.distinct l _ _ c left d right first second
  · intro l
    obtain ⟨p, ran, shown⟩ := tracks.follows l
    rw [on_append, run_append, ran, Option.bind_some]
    by_cases this : k = l
    · subst this
      obtain rfl := tracks.distinct.phase_eq here holds shown
      rw [on_self]
      rcases led with ⟨same, led⟩ | ⟨none, led⟩
      · exact ⟨_, led, .inl ⟨i, b, changed, same, rfl⟩⟩
      · refine ⟨_, led, .inr ⟨fun j c there held => ?_, rfl⟩⟩
        rcases getElem?_set_cases there with ⟨-, rfl⟩ | ⟨other, there⟩
        · rw [none] at held
          cases held
        · exact other (tracks.distinct k _ _ c there a here held holds)
    · rw [on_other this]
      refine ⟨p, rfl, ?_⟩
      rcases shown with ⟨j, c, there, held, rfl⟩ | ⟨nowhere, rfl⟩
      · have other : i ≠ j := by
          rintro rfl
          rw [Option.mem_def] at here there
          rw [here] at there
          rw [← Option.some.inj there, holds] at held
          exact this (Option.some.inj held)
        exact .inl ⟨j, c, by rwa [List.getElem?_set_ne other], held, rfl⟩
      · refine .inr ⟨fun j c there held => ?_, rfl⟩
        rcases getElem?_set_cases there with ⟨-, rfl⟩ | ⟨-, there⟩
        · exact nowhere i a here (kept l held)
        · exact nowhere j c there held

/-- A new slot holds what no other slot does. -/
theorem Tracks.add (tracks : Tracks key phase next absent slots log) {k : κ}
    (holds : key a = some k) (fresh : ∀ i : Nat, ∀ b ∈ slots[i]?, key b ≠ some k) {calls : List γ}
    (led : run next absent calls = some (phase a)) :
    Tracks key phase next absent (slots ++ [a]) (log ++ calls.map (k, ·)) := by
  have cases : ∀ {j : Nat} {c : α}, c ∈ (slots ++ [a])[j]? → c ∈ slots[j]? ∨ j = slots.length ∧ c = a := by
    intro j c there
    by_cases inside : j < slots.length
    · rw [List.getElem?_append_left inside] at there
      exact .inl there
    · rw [List.getElem?_append_right (by omega)] at there
      obtain ⟨bound, same⟩ := List.getElem?_eq_some_iff.mp there
      simp only [List.length_singleton] at bound
      have last : j - slots.length = 0 := by omega
      simp only [last, List.getElem_cons_zero] at same
      exact .inr ⟨by omega, same.symm⟩
  have added : a ∈ (slots ++ [a])[slots.length]? := by simp
  have before : ∀ {j : Nat} {c : α}, c ∈ slots[j]? → c ∈ (slots ++ [a])[j]? := by
    intro j c there
    rw [List.getElem?_append_left (List.getElem?_eq_some_iff.mp there).1]
    exact there
  constructor
  · intro l j m c there d yonder first second
    rcases cases there with left | ⟨rfl, rfl⟩
    · rcases cases yonder with right | ⟨rfl, rfl⟩
      · exact tracks.distinct l _ _ c left d right first second
      · rw [holds] at second
        exact absurd (first.trans second.symm) (fresh j c left)
    · rcases cases yonder with right | ⟨rfl, -⟩
      · rw [holds] at first
        exact absurd (second.trans first.symm) (fresh m d right)
      · rfl
  · intro l
    obtain ⟨p, ran, shown⟩ := tracks.follows l
    rw [on_append, run_append, ran, Option.bind_some]
    by_cases this : k = l
    · subst this
      obtain rfl : p = absent := by
        rcases shown with ⟨j, c, there, held, -⟩ | ⟨-, same⟩
        · exact absurd held (fresh j c there)
        · exact same
      rw [on_self]
      exact ⟨_, led, .inl ⟨_, a, added, holds, rfl⟩⟩
    · rw [on_other this]
      refine ⟨p, rfl, ?_⟩
      rcases shown with ⟨j, c, there, held, rfl⟩ | ⟨nowhere, rfl⟩
      · exact .inl ⟨j, c, before there, held, rfl⟩
      · refine .inr ⟨fun j c there held => ?_, rfl⟩
        rcases cases there with there | ⟨-, rfl⟩
        · exact nowhere j c there held
        · rw [holds] at held
          exact this (Option.some.inj held)

/-- A table that shows the same keys and phases tracks the same. -/
theorem Tracks.congr {others : List α} (tracks : Tracks key phase next absent slots log)
    (same : others.map (fun a => (key a, phase a)) = slots.map fun a => (key a, phase a)) :
    Tracks key phase next absent others log := by
  have corresponds : ∀ {left right : List α} {j : Nat} {c : α},
      left.map (fun a => (key a, phase a)) = right.map (fun a => (key a, phase a)) → c ∈ left[j]? →
      ∃ d ∈ right[j]?, key c = key d ∧ phase c = phase d := by
    intro left right j c same there
    have entry := congrArg (·[j]?) same
    rw [List.getElem?_map, List.getElem?_map, Option.mem_def.mp there, Option.map_some] at entry
    obtain ⟨d, found, equal⟩ := Option.map_eq_some_iff.mp entry.symm
    exact ⟨d, found, (Prod.mk.inj equal).1.symm, (Prod.mk.inj equal).2.symm⟩
  constructor
  · intro l j m c there d yonder first second
    obtain ⟨c', left, keyLeft, -⟩ := corresponds same there
    obtain ⟨d', right, keyRight, -⟩ := corresponds same yonder
    exact tracks.distinct l j m c' left d' right (keyLeft ▸ first) (keyRight ▸ second)
  · intro l
    obtain ⟨p, ran, shown⟩ := tracks.follows l
    refine ⟨p, ran, ?_⟩
    rcases shown with ⟨j, c, there, held, rfl⟩ | ⟨nowhere, rfl⟩
    · obtain ⟨c', found, sameKey, samePhase⟩ := corresponds same.symm there
      exact .inl ⟨j, c', found, sameKey ▸ held, samePhase.symm⟩
    · refine .inr ⟨fun j c there held => ?_, rfl⟩
      obtain ⟨c', found, sameKey, -⟩ := corresponds same there
      exact nowhere j c' found (sameKey ▸ held)

end ExNetlink.Slots
