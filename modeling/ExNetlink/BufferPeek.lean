import ExNetlink.BufferProofs
import ExNetlink.ByteOrder

/-! Typed reads from the byte ring: `peek<T>` of `buffer.h` with the byte order
functions of `yendian.h`, on a little-endian host.

Whatever way the value lies in the array, straight, wrapped but whole, or cut
by the end of the array, `peek<T>` is the big-endian reading of the first
bytes of the queue. -/
namespace ExNetlink.BufferPeek
open Windows SizeArith ByteOrder CirculationBuffer

/-- The types `peek` and the byte order functions are used at. -/
inductive Width where
  | uint8
  | uint16
  | uint32
  | uint64
  deriving DecidableEq, Repr

/-- `sizeof(T)`. -/
def Width.sizeof : Width → Nat
  | .uint8 => 1
  | .uint16 => 2
  | .uint32 => 4
  | .uint64 => 8

def host2network : Width → Nat → Nat
  | .uint8, host => host
  | t, host => bswap t.sizeof host

def network2host : Width → Nat → Nat
  | .uint8, net => net
  | t, net => bswap t.sizeof net

/-- `peek<T>()`. In the cut case the two parts are put together in host order:
the bytes at the start of the array are shifted above those of the tail. -/
def peek (b : CirculationBuffer) (t : Width) : Option Nat :=
  if b.readedSize ≥ t.sizeof then
    if b.writeindex < b.readindex then
      let reSize := wsub b.length b.readindex
      if reSize > t.sizeof then do
        let be ← load b.buf b.readindex t.sizeof
        some (network2host t (value be))
      else do
        let l ← load b.buf b.readindex reSize
        let r ← load b.buf 0 (wsub t.sizeof reSize)
        let be := (value l + value r <<< (reSize * 8)) % 256 ^ t.sizeof
        some (network2host t be)
    else if wsub b.writeindex b.readindex ≥ t.sizeof then do
      let be ← load b.buf b.readindex t.sizeof
      some (network2host t (value be))
    else none
  else none

/-- The integer some bytes stand for in network order. -/
def bigEndian (bytes : List UInt8) : Nat := value bytes.reverse

theorem network2host_value (t : Width) (bytes : List UInt8) (width : bytes.length = t.sizeof) :
    network2host t (value bytes) = bigEndian bytes := by
  have swapped : bswap t.sizeof (value bytes) = bigEndian bytes := by
    rw [bswap, ← width, littleEndian_value, bigEndian]
  cases t with
  | uint8 =>
    obtain ⟨byte, rfl⟩ := List.length_eq_one_iff.mp width
    rfl
  | uint16 => exact swapped
  | uint32 => exact swapped
  | uint64 => exact swapped

/-- The bytes of a `uint64_t` sent in network order are those it was read
from. -/
theorem littleEndian_host2network (bytes : List UInt8) (width : bytes.length = 8) :
    littleEndian 8 (host2network .uint64 (bigEndian bytes)) = bytes := by
  have reversed := littleEndian_value bytes.reverse
  rw [List.length_reverse, width] at reversed
  rw [host2network, Width.sizeof, littleEndian_bswap, bigEndian, reversed, List.reverse_reverse]
  · intro same
    cases same

private theorem shift_bytes (number count : Nat) : number <<< (count * 8) = 256 ^ count * number := by
  rw [Nat.shiftLeft_eq, Nat.mul_comm, Nat.mul_comm count 8, Nat.pow_mul]

/-- A typed read is the big-endian value of the first bytes of the queue. -/
theorem peek_eq (sound : Sound b) (t : Width) (available : t.sizeof ≤ b.readedSize) :
    peek b t = some (bigEndian (b.contents.take t.sizeof)) := by
  have allocated := sound.allocated
  have bound := sound.bounded
  have readInside := sound.readInside
  have writeInside := sound.writeInside
  have taken : (b.contents.take t.sizeof).length = t.sizeof := by
    rw [List.length_take, contents_length sound]
    omega
  rw [← network2host_value t _ taken, peek, if_pos available]
  by_cases wrapped : b.writeindex < b.readindex
  · have count := readedSize_wrapped sound wrapped
    have tail : (window b.buf b.readindex (b.length - b.readindex)).length =
        b.length - b.readindex := window_length (by omega)
    rw [if_pos wrapped, wsub_eq readInside bound]
    dsimp only
    by_cases whole : b.length - b.readindex > t.sizeof
    · have first : b.contents.take t.sizeof = window b.buf b.readindex t.sizeof := by
        rw [contents_wrapped wrapped, List.take_append_of_le_length (by omega),
          window_take _ _ _ _ (by omega)]
      rw [if_pos whole, load_eq (by omega), first]
      rfl
    · have first : b.contents.take t.sizeof = window b.buf b.readindex (b.length - b.readindex) ++
          window b.buf 0 (t.sizeof - (b.length - b.readindex)) := by
        rw [contents_wrapped wrapped, List.take_append, tail, List.take_of_length_le (by omega),
          window_take _ _ _ _ (by omega)]
      have small : value (b.contents.take t.sizeof) < 256 ^ t.sizeof := by
        have below := value_lt (b.contents.take t.sizeof)
        rwa [taken] at below
      have assembled : value (window b.buf b.readindex (b.length - b.readindex)) +
          value (window b.buf 0 (t.sizeof - (b.length - b.readindex))) <<<
            ((b.length - b.readindex) * 8) = value (b.contents.take t.sizeof) := by
        rw [first, value_append, tail, shift_bytes]
      have width : t.sizeof < 2 ^ 64 := by cases t <;> decide
      rw [if_neg whole, load_eq (by omega), wsub_eq (by omega) width, Option.bind_eq_bind,
        Option.bind_some, load_eq (by omega), Option.bind_some, assembled, Nat.mod_eq_of_lt small]
  · have ordered : b.readindex ≤ b.writeindex := by omega
    have count := readedSize_straight sound ordered
    have first : b.contents.take t.sizeof = window b.buf b.readindex t.sizeof := by
      rw [contents_straight ordered, window_take _ _ _ _ (by omega)]
    rw [if_neg wrapped, wsub_eq ordered (by omega), if_pos (by omega), load_eq (by omega), first]
    rfl

/-- The bytes of an integer in network order, read back as such. -/
theorem bigEndian_host2network (t : Width) (v : Nat) (small : v < 256 ^ t.sizeof) :
    bigEndian (littleEndian t.sizeof (host2network t v)) = v := by
  have swapped : bigEndian (littleEndian t.sizeof (bswap t.sizeof v)) = v :=
    bswap_bswap t.sizeof v small
  cases t with
  | uint8 =>
    -- a single byte is its own reverse
    change value (littleEndian 1 v) = v
    rw [value_littleEndian]
    exact Nat.mod_eq_of_lt small
  | uint16 => exact swapped
  | uint32 => exact swapped
  | uint64 => exact swapped

theorem network2host_host2network (t : Width) (v : Nat) (small : v < 256 ^ t.sizeof) :
    network2host t (host2network t v) = v := by
  cases t with
  | uint8 => rfl
  | uint16 => exact bswap_bswap _ v small
  | uint32 => exact bswap_bswap _ v small
  | uint64 => exact bswap_bswap _ v small

/-- In every ring with its indices inside the array, wrapped or not, a typed
read is the big-endian value of the first bytes of the queue; it touches
nothing. When these are the bytes of an integer in network order it gives the
integer back. -/
theorem typed_peek_decodes {b : CirculationBuffer} (allocated : b.buf.length = b.length)
    (bounded : b.length < 2 ^ 64) (wrapped : b.writeindex < b.readindex → b.readindex < b.length)
    (writeInside : b.writeindex ≤ b.length) (t : Width) (available : t.sizeof ≤ b.readedSize) :
    peek b t = some (bigEndian (b.contents.take t.sizeof)) ∧
      ∀ v < 256 ^ t.sizeof, b.contents.take t.sizeof = littleEndian t.sizeof (host2network t v) →
        peek b t = some v := by
  have readInside : b.readindex ≤ b.length := by
    by_cases around : b.writeindex < b.readindex
    · exact Nat.le_of_lt (wrapped around)
    · omega
  have read := peek_eq ⟨allocated, bounded, readInside, writeInside⟩ t available
  refine ⟨read, fun v small sent => ?_⟩
  rw [read, sent, bigEndian_host2network t v small]

/-- A 32-bit value cut after its first byte by the end of the array. -/
theorem typed_peek_decodes_cut :
    let b : CirculationBuffer := ⟨[2, 3, 4, 0, 0, 0, 0, 1], 8, 7, 3⟩
    peek b .uint32 = some 0x01020304 :=
  (typed_peek_decodes (by decide) (by decide) (by decide) (by decide) .uint32 (by decide)).2
    0x01020304 (by decide) (by decide)

/-! ### The shift

In the cut case `r` is promoted to at least an `int` and shifted by the bits
of the tail. The branch is taken up to a tail of exactly `sizeof(T)` bytes. -/

/-- The bits of the type that a `T` is promoted to before it is shifted. -/
def Width.promoted : Width → Nat
  | .uint8 => 32
  | .uint16 => 32
  | .uint32 => 32
  | .uint64 => 64

/-- The amount of the shift `peek<T>()` evaluates, on the branch that has one. -/
def peekShift (b : CirculationBuffer) (t : Width) : Option Nat :=
  if b.readedSize ≥ t.sizeof then
    if b.writeindex < b.readindex then
      let reSize := wsub b.length b.readindex
      if reSize > t.sizeof then none
      else do
        let _ ← load b.buf b.readindex reSize
        let _ ← load b.buf 0 (wsub t.sizeof reSize)
        some (wmul reSize 8)
    else none
  else none

theorem sizeof_le (t : Width) : t.sizeof ≤ 8 := by
  cases t <;> decide

/-- What `peek<T>()` returns where it shifts is put together with that shift. -/
theorem peek_of_shift {b : CirculationBuffer} {t : Width} {amount : Nat}
    (shifted : peekShift b t = some amount) :
    ∃ l r, peek b t = some (network2host t ((value l + value r <<< amount) % 256 ^ t.sizeof)) := by
  rw [peekShift] at shifted
  rw [peek]
  split at shifted
  · rename_i available
    split at shifted
    · rename_i wrapped
      dsimp only at shifted
      split at shifted
      · contradiction
      · rename_i cut
        obtain ⟨l, tail, shifted⟩ := Option.bind_eq_some_iff.mp shifted
        obtain ⟨r, head, shifted⟩ := Option.bind_eq_some_iff.mp shifted
        obtain rfl := Option.some.inj shifted
        have narrow := sizeof_le t
        have bits : wmul (wsub b.length b.readindex) 8 = wsub b.length b.readindex * 8 :=
          wmul_eq (by omega)
        refine ⟨l, r, ?_⟩
        simp only [available, wrapped, cut, tail, head, bits, if_true, if_false,
          Option.bind_eq_bind, Option.bind_some]
    · contradiction
  · contradiction

/-- A typed read that comes to a value shifts exactly when the tail of a
wrapped ring holds no more than its bytes. -/
theorem peekShift_eq {b : CirculationBuffer} {t : Width} {v : Nat} (read : peek b t = some v) :
    peekShift b t =
      if b.writeindex < b.readindex ∧ wsub b.length b.readindex ≤ t.sizeof then
        some (wsub b.length b.readindex * 8)
      else none := by
  rw [peek] at read
  rw [peekShift]
  split at read
  · rename_i available
    rw [if_pos available]
    by_cases wrapped : b.writeindex < b.readindex
    · rw [if_pos wrapped] at read ⊢
      dsimp only at read ⊢
      by_cases whole : wsub b.length b.readindex > t.sizeof
      · rw [if_pos whole, if_neg fun cut => absurd cut.2 (by omega)]
      · rw [if_neg whole] at read
        obtain ⟨l, tail, read⟩ := Option.bind_eq_some_iff.mp read
        obtain ⟨r, head, -⟩ := Option.bind_eq_some_iff.mp read
        have narrow := sizeof_le t
        rw [if_neg whole, tail, Option.bind_eq_bind, Option.bind_some, head, Option.bind_some,
          wmul_eq (by omega), if_pos ⟨wrapped, by omega⟩]
    · rw [if_neg wrapped, if_neg fun cut => wrapped cut.1]
  · contradiction

end ExNetlink.BufferPeek
