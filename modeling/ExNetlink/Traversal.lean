import Mathlib.Tactic.Common

/-! Loops that walk through memory.

The body of such a loop looks at where the loop stands. It stops, or it visits
an item and moves on, or it has no result because it reads what it may not
read. `traverse` runs the loop for a bounded number of turns, and `Visits` says
without a bound what a loop that comes to its end has visited. -/
namespace ExNetlink.Traversal

variable {σ α : Type*}

/-- What the body of a loop decides. -/
inductive Turn (σ α : Type*) where
  | stop
  | visit (item : α) (next : σ)

/-- The items visited in at most `fuel` turns. There is no result when the body
has none, nor when the loop has not stopped by then. -/
def traverse (body : σ → Option (Turn σ α)) : Nat → σ → Option (List α)
  | 0, _ => none
  | fuel + 1, s => (body s).bind fun
    | .stop => some []
    | .visit item next => (traverse body fuel next).map (item :: ·)

/-- The loop visits these items and stops. -/
inductive Visits (body : σ → Option (Turn σ α)) : σ → List α → Prop
  | stop {s : σ} (here : body s = some .stop) : Visits body s []
  | visit {s next : σ} {item : α} {items : List α} (here : body s = some (.visit item next))
      (later : Visits body next items) : Visits body s (item :: items)

variable {body : σ → Option (Turn σ α)} {s : σ} {items : List α}

/-- Enough fuel gives what the loop visits. -/
theorem Visits.traverse {fuel : Nat} (visited : Visits body s items) (enough : items.length < fuel) :
    traverse body fuel s = some items := by
  induction visited generalizing fuel with
  | stop here =>
    obtain ⟨fuel, rfl⟩ := Nat.exists_eq_add_one_of_ne_zero (Nat.ne_of_gt enough)
    rw [Traversal.traverse, here]
    rfl
  | visit here later ih =>
    obtain ⟨fuel, rfl⟩ := Nat.exists_eq_add_one_of_ne_zero (Nat.ne_of_gt (Nat.zero_lt_of_lt enough))
    rw [Traversal.traverse, here, Option.bind_some]
    dsimp only
    rw [ih (Nat.lt_of_succ_lt_succ enough), Option.map_some]

end ExNetlink.Traversal
