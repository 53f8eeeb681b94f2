import Mathlib.Algebra.Group.Int.Defs
import Mathlib.Algebra.Group.Nat.Defs
import Mathlib.Tactic.Common

/-! Arithmetic of the 64-bit `size_t`.

A size is a natural number below `2 ^ 64`. The operators wrap as the
machine's do; the equations below say when they agree with the natural
numbers' own operators. -/
namespace ExNetlink.SizeArith

/-- `a + b` in `size_t`. -/
def wadd (a b : Nat) : Nat := (a + b) % 2 ^ 64

/-- `a - b` in `size_t`; it wraps below zero. -/
def wsub (a b : Nat) : Nat := (a + 2 ^ 64 - b) % 2 ^ 64

/-- `a * b` in `size_t`. -/
def wmul (a b : Nat) : Nat := (a * b) % 2 ^ 64

/-- A signed value converted to `size_t`, as in a mixed comparison. -/
def asSize (value : Int) : Nat := (value % 2 ^ 64).toNat

/-- A `uint64_t` converted to `int64_t`. -/
def asSigned (size : Nat) : Int := if size < 2 ^ 63 then size else size - 2 ^ 64

theorem wadd_eq (bound : a + b < 2 ^ 64) : wadd a b = a + b := Nat.mod_eq_of_lt bound

theorem wsub_eq (ordered : b ≤ a) (bound : a < 2 ^ 64) : wsub a b = a - b := by
  unfold wsub
  omega

/-- A difference below zero comes out just under `2 ^ 64`. -/
theorem wsub_below (below : a < b) (bound : b < 2 ^ 64) : wsub a b = a + 2 ^ 64 - b := by
  unfold wsub
  omega

theorem wmul_eq (bound : a * b < 2 ^ 64) : wmul a b = a * b := Nat.mod_eq_of_lt bound

/-- An intermediate difference may wrap when the following sum wraps back. -/
theorem wadd_wsub (ordered : b ≤ a + c) (left : a < 2 ^ 64) (right : b < 2 ^ 64)
    (bound : a + c - b < 2 ^ 64) : wadd (wsub a b) c = a + c - b := by
  unfold wadd wsub
  omega

theorem asSize_ofNat {n : Nat} (bound : n < 2 ^ 64) : asSize (n : Int) = n := by
  unfold asSize
  omega

theorem asSize_neg_one : asSize (-1) = 2 ^ 64 - 1 := by decide

/-- Half the distance of two sizes, which an `int64_t` holds. -/
theorem asSigned_half_distance (ordered : b ≤ a) (bound : a < 2 ^ 64) :
    asSigned (wsub (max a b) (min a b) / 2) = ((a - b) / 2 : Nat) := by
  rw [Nat.max_eq_left ordered, Nat.min_eq_right ordered, wsub_eq ordered bound, asSigned,
    if_pos (by omega)]

/-- Halves of a distance and of the same one taken around the other way. -/
theorem half_around_iff (bound : d ≤ 2 ^ 64) : (2 ^ 64 - d) / 2 = d / 2 ↔ d = 2 ^ 63 := by
  omega

end ExNetlink.SizeArith
