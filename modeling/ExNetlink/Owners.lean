import Mathlib.Logic.Function.Basic

/-! Who holds what, when things are held by at most one name each.

A name (an object, say) holds a thing (a block of memory) or nothing; a thing
is live from when it comes into being until it is let go. `Sole` says that what
is held is live and held once, `Tidy` that what is live is held, and `Lost`
that a live thing is held by nobody. The rules follow the three ways in which
holdings change: a new thing is given to a name, a name lets go of what it
holds, and what one name holds moves to another. -/
namespace ExNetlink.Owners

variable {ι β : Type*} [DecidableEq ι] {live : β → Prop} {holds : ι → Option β} {b c : β}

/-- What is held is live, and nobody else holds it. -/
structure Sole (live : β → Prop) (holds : ι → Option β) : Prop where
  live : ∀ x b, holds x = some b → live b
  unique : ∀ x y b, holds x = some b → holds y = some b → x = y

/-- What is live is held. -/
def Tidy (live : β → Prop) (holds : ι → Option β) : Prop := ∀ b, live b → ∃ x, holds x = some b

/-- A live thing that nobody holds. -/
def Lost (live : β → Prop) (holds : ι → Option β) (b : β) : Prop := live b ∧ ∀ x, holds x ≠ some b

/-- A name is given a new thing. -/
def give (holds : ι → Option β) (x : ι) (b : β) : ι → Option β := Function.update holds x (some b)

/-- A name lets go. -/
def drop (holds : ι → Option β) (x : ι) : ι → Option β := Function.update holds x none

/-- What `y` holds moves to `x`, whatever that held. -/
def move (holds : ι → Option β) (x y : ι) : ι → Option β :=
  Function.update (Function.update holds x (holds y)) y none

/-- The live things after one has been let go. -/
def LiveWithout (live : β → Prop) (gone : Option β) (b : β) : Prop := live b ∧ gone ≠ some b

theorem drop_eq_some {x z : ι} : drop holds x z = some b ↔ z ≠ x ∧ holds z = some b := by
  by_cases this : z = x
  · subst this
    simp [drop]
  · simp [drop, this]

theorem give_eq_some {x z : ι} :
    give holds x c z = some b ↔ z = x ∧ c = b ∨ z ≠ x ∧ holds z = some b := by
  by_cases this : z = x
  · subst this
    simp [give]
  · simp [give, this]

theorem move_eq_some {x y z : ι} :
    move holds x y z = some b ↔ z ≠ y ∧ (z = x ∧ holds y = some b ∨ z ≠ x ∧ holds z = some b) := by
  by_cases last : z = y
  · subst last
    simp [move]
  · by_cases this : z = x
    · subst this
      simp [move, last]
    · simp [move, last, this]

omit [DecidableEq ι] in
/-- Nothing is held. -/
theorem sole_of_empty (empty : ∀ x, holds x = none) : Sole live holds where
  live x b held := by
    rw [empty x] at held
    cases held
  unique x y b held := by
    rw [empty x] at held
    cases held

theorem Sole.drop (sole : Sole live holds) (x : ι) :
    Sole (LiveWithout live (holds x)) (drop holds x) where
  live z b held := by
    obtain ⟨other, held⟩ := drop_eq_some.mp held
    exact ⟨sole.live z b held, fun same => other (sole.unique z x b held same)⟩
  unique y z b first second :=
    sole.unique y z b (drop_eq_some.mp first).2 (drop_eq_some.mp second).2

theorem Sole.give (sole : Sole live holds) (fresh : ¬ live c) (x : ι) :
    Sole (fun b => b = c ∨ live b) (give holds x c) where
  live z b held := by
    rcases give_eq_some.mp held with ⟨-, rfl⟩ | ⟨-, held⟩
    · exact .inl rfl
    · exact .inr (sole.live z b held)
  unique y z b first second := by
    rcases give_eq_some.mp first with ⟨rfl, rfl⟩ | ⟨-, first⟩
    · rcases give_eq_some.mp second with ⟨rfl, -⟩ | ⟨-, second⟩
      · rfl
      · exact absurd (sole.live z c second) fresh
    · rcases give_eq_some.mp second with ⟨-, rfl⟩ | ⟨-, second⟩
      · exact absurd (sole.live y c first) fresh
      · exact sole.unique y z b first second

theorem Sole.move (sole : Sole live holds) (x y : ι) : Sole live (move holds x y) where
  live z b held := by
    obtain ⟨-, ⟨-, held⟩ | ⟨-, held⟩⟩ := move_eq_some.mp held
    · exact sole.live y b held
    · exact sole.live z b held
  unique z w b first second := by
    obtain ⟨notFirst, ⟨rfl, moved⟩ | ⟨-, held⟩⟩ := move_eq_some.mp first
    · obtain ⟨notSecond, ⟨rfl, -⟩ | ⟨-, other⟩⟩ := move_eq_some.mp second
      · rfl
      · exact absurd (sole.unique w y b other moved) notSecond
    · obtain ⟨-, ⟨-, moved⟩ | ⟨-, other⟩⟩ := move_eq_some.mp second
      · exact absurd (sole.unique z y b held moved) notFirst
      · exact sole.unique z w b held other

theorem Tidy.drop (tidy : Tidy live holds) (x : ι) :
    Tidy (LiveWithout live (holds x)) (drop holds x) := by
  rintro b ⟨alive, kept⟩
  obtain ⟨z, held⟩ := tidy b alive
  refine ⟨z, drop_eq_some.mpr ⟨?_, held⟩⟩
  rintro rfl
  exact kept held

theorem Tidy.give (tidy : Tidy live holds) {x : ι} (empty : holds x = none) :
    Tidy (fun b => b = c ∨ live b) (give holds x c) := by
  rintro b (rfl | alive)
  · exact ⟨x, give_eq_some.mpr (.inl ⟨rfl, rfl⟩)⟩
  · obtain ⟨z, held⟩ := tidy b alive
    refine ⟨z, give_eq_some.mpr (.inr ⟨?_, held⟩)⟩
    rintro rfl
    rw [empty] at held
    cases held

theorem Tidy.move (tidy : Tidy live holds) {x : ι} (empty : holds x = none) (y : ι) :
    Tidy live (move holds x y) := by
  intro b alive
  obtain ⟨z, held⟩ := tidy b alive
  have notEmpty : z ≠ x := by
    rintro rfl
    rw [empty] at held
    cases held
  by_cases moved : z = y
  · subst moved
    exact ⟨x, move_eq_some.mpr ⟨Ne.symm notEmpty, .inl ⟨rfl, held⟩⟩⟩
  · exact ⟨z, move_eq_some.mpr ⟨moved, .inr ⟨notEmpty, held⟩⟩⟩

/-- A move onto a name that holds something loses that. -/
theorem Sole.lost_move (sole : Sole live holds) {x : ι} (held : holds x = some b) (y : ι) :
    Lost live (Owners.move holds x y) b := by
  refine ⟨sole.live x b held, fun z again => ?_⟩
  obtain ⟨last, ⟨rfl, other⟩ | ⟨this, other⟩⟩ := move_eq_some.mp again
  · exact last (sole.unique z y b held other)
  · exact this (sole.unique z x b other held)

theorem Lost.drop (lost : Lost live holds b) (x : ι) :
    Lost (LiveWithout live (holds x)) (drop holds x) b :=
  ⟨⟨lost.1, lost.2 x⟩, fun z held => lost.2 z (drop_eq_some.mp held).2⟩

theorem Lost.give (lost : Lost live holds b) (fresh : ¬ live c) (x : ι) :
    Lost (fun b => b = c ∨ live b) (give holds x c) b := by
  refine ⟨.inr lost.1, fun z held => ?_⟩
  rcases give_eq_some.mp held with ⟨-, rfl⟩ | ⟨-, held⟩
  · exact fresh lost.1
  · exact lost.2 z held

theorem Lost.move (lost : Lost live holds b) (x y : ι) : Lost live (move holds x y) b := by
  refine ⟨lost.1, fun z held => ?_⟩
  obtain ⟨-, ⟨-, held⟩ | ⟨-, held⟩⟩ := move_eq_some.mp held
  · exact lost.2 y held
  · exact lost.2 z held

/-- What a second name holds too cannot be held once again: when one of them
lets go, the other is left with what is gone. -/
theorem Sole.of_drop {x : ι} (sole : Sole (LiveWithout live (holds x)) (Owners.drop holds x))
    (held : ∀ b, holds x = some b → live b) : Sole live holds where
  live z b has := by
    by_cases this : z = x
    · exact held b (this ▸ has)
    · exact (sole.live z b (drop_eq_some.mpr ⟨this, has⟩)).1
  unique y z b first second := by
    by_cases here : y = x
    · by_cases there : z = x
      · exact here.trans there.symm
      · subst here
        exact absurd first (sole.live z b (drop_eq_some.mpr ⟨there, second⟩)).2
    · by_cases there : z = x
      · subst there
        exact absurd second (sole.live y b (drop_eq_some.mpr ⟨here, first⟩)).2
      · exact sole.unique y z b (drop_eq_some.mpr ⟨here, first⟩) (drop_eq_some.mpr ⟨there, second⟩)

/-- Giving a new thing mends nothing. -/
theorem Sole.of_give {x : ι} (sole : Sole (fun b => b = c ∨ live b) (Owners.give holds x c))
    (empty : holds x = none) (fresh : ∀ z, holds z ≠ some c) : Sole live holds where
  live z b has := by
    have apart : z ≠ x := by
      rintro rfl
      rw [empty] at has
      cases has
    rcases sole.live z b (give_eq_some.mpr (.inr ⟨apart, has⟩)) with rfl | alive
    · exact absurd has (fresh z)
    · exact alive
  unique y z b first second := by
    have apart : ∀ w, holds w = some b → w ≠ x := by
      rintro w has rfl
      rw [empty] at has
      cases has
    exact sole.unique y z b (give_eq_some.mpr (.inr ⟨apart y first, first⟩))
      (give_eq_some.mpr (.inr ⟨apart z second, second⟩))

end ExNetlink.Owners
