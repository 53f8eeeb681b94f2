import Mathlib.Algebra.Group.Nat.Defs
import Mathlib.Tactic.Common

/-! Unsigned integers as bytes in memory.

A little-endian host stores the low byte of an integer first. `littleEndian`
are the bytes of an integer of a given width and `value` is the integer some
bytes stand for; `bswap` reverses the bytes of an integer, which turns host
order into network order and back. -/
namespace ExNetlink.ByteOrder

/-- The `size` bytes of an integer in memory, low byte first. -/
def littleEndian : Nat → Nat → List UInt8
  | 0, _ => []
  | size + 1, number => UInt8.ofNat (number % 256) :: littleEndian size (number / 256)

/-- The integer that bytes in memory stand for. -/
def value : List UInt8 → Nat
  | [] => 0
  | byte :: rest => byte.toNat + 256 * value rest

/-- The integer with its bytes in the opposite order. -/
def bswap (size number : Nat) : Nat := value (littleEndian size number).reverse

@[simp] theorem littleEndian_length (size number : Nat) :
    (littleEndian size number).length = size := by
  induction size generalizing number with
  | zero => rfl
  | succ size ih => rw [littleEndian, List.length_cons, ih]

theorem value_lt (bytes : List UInt8) : value bytes < 256 ^ bytes.length := by
  induction bytes with
  | nil => exact Nat.one_pos
  | cons byte rest ih =>
    have low := byte.toNat_lt
    rw [value, List.length_cons, Nat.pow_succ]
    omega

theorem value_append (front back : List UInt8) :
    value (front ++ back) = value front + 256 ^ front.length * value back := by
  induction front with
  | nil => simp [value]
  | cons byte rest ih =>
    rw [List.cons_append, value, value, ih, List.length_cons, Nat.pow_succ]
    rw [Nat.mul_add, Nat.mul_comm (256 ^ rest.length) 256, Nat.mul_assoc, Nat.add_assoc]

/-- Storing the integer that some bytes stand for gives the bytes. -/
theorem littleEndian_value (bytes : List UInt8) : littleEndian bytes.length (value bytes) = bytes := by
  induction bytes with
  | nil => rfl
  | cons byte rest ih =>
    have low := byte.toNat_lt
    have first : (byte.toNat + 256 * value rest) % 256 = byte.toNat := by omega
    have others : (byte.toNat + 256 * value rest) / 256 = value rest := by omega
    rw [List.length_cons, value, littleEndian, first, others, ih, UInt8.ofNat_toNat]

/-- The integer that its own bytes stand for. -/
theorem value_littleEndian (size number : Nat) :
    value (littleEndian size number) = number % 256 ^ size := by
  induction size generalizing number with
  | zero => simp [littleEndian, value, Nat.mod_one]
  | succ size ih =>
    have low : (UInt8.ofNat (number % 256)).toNat = number % 256 := by
      rw [UInt8.toNat_ofNat']
      omega
    rw [littleEndian, value, low, ih, Nat.pow_succ, Nat.mul_comm _ 256, Nat.mod_mul]

/-- The bytes of a swapped integer are the bytes in reverse. -/
theorem littleEndian_bswap (size number : Nat) :
    littleEndian size (bswap size number) = (littleEndian size number).reverse := by
  have stored := littleEndian_value (littleEndian size number).reverse
  rwa [List.length_reverse, littleEndian_length] at stored

theorem bswap_bswap (size number : Nat) (small : number < 256 ^ size) :
    bswap size (bswap size number) = number := by
  rw [bswap, littleEndian_bswap, List.reverse_reverse, value_littleEndian, Nat.mod_eq_of_lt small]

end ExNetlink.ByteOrder
