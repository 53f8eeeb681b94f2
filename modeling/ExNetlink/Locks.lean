import Mathlib.Logic.Function.Basic
import Mathlib.Tactic.Common

/-! Locks that threads take and release.

`owner` is what the locks record, `holds` what the threads' positions say. The
rules below keep the two in agreement when a free lock is taken and when a held
one is released, for any number of locks and for a single one. -/
namespace ExNetlink.Locks

variable {T L : Type*} {owner : L → Option T} {holds after : T → L → Prop} {t u : T} {l : L}

/-- A lock is owned by the thread that holds it. -/
def Owned (owner : L → Option T) (holds : T → L → Prop) : Prop :=
  ∀ l t, owner l = some t ↔ holds t l

namespace Owned

theorem unique (owned : Owned owner holds) (first : holds t l) (second : holds u l) : t = u :=
  Option.some.inj (((owned l t).mpr first).symm.trans ((owned l u).mpr second))

theorem not_holds (owned : Owned owner holds) (free : owner l = none) : ¬ holds t l := by
  intro held
  have taken := (owned l t).mpr held
  rw [free] at taken
  contradiction

theorem congr (owned : Owned owner holds) (same : ∀ u m, after u m ↔ holds u m) :
    Owned owner after :=
  fun m u => (owned m u).trans (same u m).symm

variable [DecidableEq L]

/-- A free lock is taken. -/
theorem take (owned : Owned owner holds) (free : owner l = none)
    (taken : ∀ u m, after u m ↔ holds u m ∨ u = t ∧ m = l) :
    Owned (Function.update owner l (some t)) after := by
  intro m u
  rw [taken]
  by_cases this : m = l
  · subst this
    rw [Function.update_self, Option.some_inj]
    constructor
    · rintro rfl
      exact .inr ⟨rfl, rfl⟩
    · rintro (held | ⟨rfl, -⟩)
      · exact absurd held (owned.not_holds free)
      · rfl
  · rw [Function.update_of_ne this, owned m u]
    constructor
    · exact .inl
    · rintro (held | ⟨-, same⟩)
      · exact held
      · exact absurd same this

/-- A held lock is released. -/
theorem release (owned : Owned owner holds) (released : ∀ u m, after u m ↔ holds u m ∧ m ≠ l) :
    Owned (Function.update owner l none) after := by
  intro m u
  rw [released]
  by_cases this : m = l
  · subst this
    rw [Function.update_self]
    exact iff_of_false nofun fun held => held.2 rfl
  · rw [Function.update_of_ne this, owned m u]
    exact ⟨fun held => ⟨held, this⟩, And.left⟩

end Owned

/-! ### A single lock -/

variable {P : Type*} {only : Option T} {within : P → Bool} {places : T → P} {place : P}

/-- The one lock is owned by the thread whose place says so. -/
def Sole (only : Option T) (within : P → Bool) (places : T → P) : Prop :=
  ∀ t, only = some t ↔ within (places t) = true

namespace Sole
variable [DecidableEq T]

/-- A thread moves on; the lock stays with whom it was, or comes to or from
this thread. -/
theorem put {now : Option T} (sole : Sole only within places)
    (own : now = some t ↔ within place = true) (others : ∀ u, u ≠ t → (now = some u ↔ only = some u)) :
    Sole now within (Function.update places t place) := by
  intro u
  by_cases same : u = t
  · rw [same, Function.update_self]
    exact own
  · rw [Function.update_of_ne same, others u same]
    exact sole u

theorem take (sole : Sole only within places) (free : only = none) (holds : within place = true) :
    Sole (some t) within (Function.update places t place) := by
  refine sole.put (by simp [holds]) fun u other => ?_
  simp [free, Ne.symm other]

theorem release (sole : Sole only within places) (has : within (places t) = true)
    (leaves : within place = false) : Sole none within (Function.update places t place) := by
  refine sole.put (by simp [leaves]) fun u other => ?_
  simp [(sole t).mpr has, Ne.symm other]

theorem stay (sole : Sole only within places) (same : within place = within (places t)) :
    Sole only within (Function.update places t place) := by
  refine sole.put ?_ fun _ _ => Iff.rfl
  rw [same]
  exact sole t

end Sole
end ExNetlink.Locks
