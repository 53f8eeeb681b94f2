import ExNetlink.CirculationBuffer

/-! What each operation of the byte ring does, operation by operation.

The results here are stated over any ring whose indices lie inside its array,
the padding respected or not: the source itself reaches rings with a read
index below the padding. Each branch of an operation is first resolved into
plain arithmetic, then read as a change of the unread bytes. -/
namespace ExNetlink.CirculationBuffer
open Windows SizeArith

/-- The array has the recorded length, which is a `size_t`, and both indices
lie inside it. -/
structure Sound (b : CirculationBuffer) : Prop where
  allocated : b.buf.length = b.length
  bounded : b.length < 2 ^ 64
  readInside : b.readindex ≤ b.length
  writeInside : b.writeindex ≤ b.length

variable {b after : CirculationBuffer} {data : List UInt8} {len : Nat}

theorem readedSize_straight (sound : Sound b) (ordered : b.readindex ≤ b.writeindex) :
    b.readedSize = b.writeindex - b.readindex := by
  have bound := Nat.lt_of_le_of_lt sound.writeInside sound.bounded
  rw [readedSize, if_neg (by omega), wsub_eq ordered bound]

theorem readedSize_wrapped (sound : Sound b) (wrapped : b.writeindex < b.readindex) :
    b.readedSize = b.length - b.readindex + b.writeindex := by
  have inside := sound.readInside
  have bound := sound.bounded
  rw [readedSize, if_pos wrapped, wadd_wsub (by omega) bound (by omega) (by omega)]
  omega

theorem contents_straight (ordered : b.readindex ≤ b.writeindex) :
    b.contents = window b.buf b.readindex (b.writeindex - b.readindex) := if_pos ordered

theorem contents_wrapped (wrapped : b.writeindex < b.readindex) :
    b.contents = window b.buf b.readindex (b.length - b.readindex) ++ window b.buf 0 b.writeindex :=
  if_neg (by omega)

/-- `readed_size()` counts the unread bytes. -/
theorem contents_length (sound : Sound b) : b.contents.length = b.readedSize := by
  have allocated := sound.allocated
  have readInside := sound.readInside
  have writeInside := sound.writeInside
  by_cases wrapped : b.writeindex < b.readindex
  · rw [contents_wrapped wrapped, readedSize_wrapped sound wrapped, List.length_append,
      window_length (by omega), window_length (by omega)]
  · rw [contents_straight (by omega), readedSize_straight sound (by omega),
      window_length (by omega)]

/-! ### Skipping -/

theorem skip_all (b : CirculationBuffer) : b.skip b.readedSize = some b.retrieveAll := by
  simp [skip]

theorem skip_straight (sound : Sound b) (ordered : b.readindex ≤ b.writeindex)
    (fewer : len < b.readedSize) :
    b.skip len = some { b with readindex := b.readindex + len } := by
  have count := readedSize_straight sound ordered
  have inside := sound.writeInside
  have bound := sound.bounded
  rw [skip, if_pos (by omega), if_pos fewer, if_neg (by omega), wadd_eq (by omega)]

/-- A wrapped ring whose read index stays in the tail of the array. -/
theorem skip_tail (sound : Sound b) (wrapped : b.writeindex < b.readindex)
    (within : b.readindex + len < b.length) :
    b.skip len = some { b with readindex := b.readindex + len } := by
  have count := readedSize_wrapped sound wrapped
  have bound := sound.bounded
  rw [skip, if_pos (by omega), if_pos (by omega), if_pos wrapped,
    wsub_eq sound.readInside bound, if_pos (by omega), wadd_eq (by omega)]

/-- A wrapped ring whose read index passes the end of the array: it restarts
from position zero, not from the padding. -/
theorem skip_around (sound : Sound b) (wrapped : b.writeindex < b.readindex)
    (past : b.length ≤ b.readindex + len) (fewer : len < b.readedSize) :
    b.skip len = some { b with readindex := b.readindex + len - b.length } := by
  have count := readedSize_wrapped sound wrapped
  have inside := sound.readInside
  have bound := sound.bounded
  rw [skip, if_pos (by omega), if_pos fewer, if_pos wrapped, wsub_eq inside bound,
    if_neg (by omega), wadd_wsub (by omega) (by omega) bound (by omega), Nat.add_comm len]

theorem retrieveAll_contents (b : CirculationBuffer) : b.retrieveAll.contents = [] := by
  rw [contents_straight (Nat.le_refl _)]
  simp [retrieveAll]

theorem retrieveAll_sound (sound : Sound b) (room : padding ≤ b.length) : Sound b.retrieveAll :=
  ⟨sound.allocated, sound.bounded, room, room⟩

/-- Skipping removes exactly a prefix of the unread bytes. -/
theorem skip_contents (sound : Sound b) (available : len ≤ b.readedSize) :
    ∃ after, b.skip len = some after ∧ after.buf = b.buf ∧ after.length = b.length ∧
      after.contents = b.contents.drop len := by
  have readInside := sound.readInside
  have writeInside := sound.writeInside
  rcases Nat.lt_or_eq_of_le available with fewer | rfl
  · by_cases wrapped : b.writeindex < b.readindex
    · have count := readedSize_wrapped sound wrapped
      have tail : (window b.buf b.readindex (b.length - b.readindex)).length =
          b.length - b.readindex := window_length (by rw [sound.allocated]; omega)
      by_cases within : b.readindex + len < b.length
      · refine ⟨_, skip_tail sound wrapped within, rfl, rfl, ?_⟩
        rw [contents_wrapped (show b.writeindex < b.readindex + len by omega),
          contents_wrapped wrapped, List.drop_append_of_le_length (by omega), window_drop]
        simp only [Nat.sub_add_eq]
      · refine ⟨_, skip_around sound wrapped (by omega) fewer, rfl, rfl, ?_⟩
        rw [contents_straight (show b.readindex + len - b.length ≤ b.writeindex by omega),
          contents_wrapped wrapped, List.drop_append, tail,
          List.drop_eq_nil_of_le (by omega), List.nil_append, window_drop, Nat.zero_add]
        congr 1 <;> (dsimp only; omega)
    · refine ⟨_, skip_straight sound (by omega) fewer, rfl, rfl, ?_⟩
      have count := readedSize_straight sound (show b.readindex ≤ b.writeindex by omega)
      rw [contents_straight (show b.readindex + len ≤ b.writeindex by omega),
        contents_straight (by omega), window_drop]
      simp only [Nat.sub_add_eq]
  · refine ⟨_, skip_all b, rfl, rfl, ?_⟩
    rw [retrieveAll_contents, List.drop_eq_nil_of_le (Nat.le_of_eq (contents_length sound))]

/-- A skip that leaves something to read keeps the indices inside the array. -/
theorem skip_sound_fewer (sound : Sound b) (fewer : len < b.readedSize)
    (skipped : b.skip len = some after) : Sound after := by
  have readInside := sound.readInside
  have writeInside := sound.writeInside
  by_cases wrapped : b.writeindex < b.readindex
  · have count := readedSize_wrapped sound wrapped
    by_cases within : b.readindex + len < b.length
    · rw [skip_tail sound wrapped within] at skipped
      cases skipped
      exact ⟨sound.allocated, sound.bounded, Nat.le_of_lt within, writeInside⟩
    · rw [skip_around sound wrapped (by omega) fewer] at skipped
      cases skipped
      exact ⟨sound.allocated, sound.bounded, by dsimp only; omega, writeInside⟩
  · rw [skip_straight sound (by omega) fewer] at skipped
    cases skipped
    have count := readedSize_straight sound (show b.readindex ≤ b.writeindex by omega)
    exact ⟨sound.allocated, sound.bounded, by dsimp only; omega, writeInside⟩

theorem skip_sound (sound : Sound b) (room : padding ≤ b.length)
    (skipped : b.skip len = some after) : Sound after := by
  by_cases available : len ≤ b.readedSize
  · rcases Nat.lt_or_eq_of_le available with fewer | rfl
    · exact skip_sound_fewer sound fewer skipped
    · rw [skip_all] at skipped
      cases skipped
      exact retrieveAll_sound sound room
  · rw [skip, if_neg available] at skipped
    cases skipped

/-! ### Writing -/

/-- Up to the end of the array, or into the gap of a wrapped ring. -/
theorem write_block (sound : Sound b) (held : len ≤ data.length)
    (inside : b.writeindex + len ≤ b.length) :
    b.write data len = some { b with
      buf := overwrite b.buf b.writeindex (data.take len)
      writeindex := b.writeindex + len } := by
  have bound := sound.bounded
  have copied : copyN data 0 len b.buf b.writeindex =
      some (overwrite b.buf b.writeindex (data.take len)) := by
    rw [copyN_eq (by omega) (by rw [sound.allocated]; exact inside)]
    rfl
  rw [write]
  by_cases wrapped : b.writeindex < b.readindex
  · rw [if_neg (by omega), if_pos wrapped, copied, wadd_eq (by omega)]
    rfl
  · rw [if_pos ⟨by omega, by rw [wsub_eq sound.writeInside bound]; omega⟩, copied,
      wadd_eq (by omega)]
    rfl

/-- Around the end of the array. -/
theorem write_split (sound : Sound b) (held : len ≤ data.length) (size : len < 2 ^ 64)
    (ordered : b.readindex ≤ b.writeindex) (past : b.length < b.writeindex + len)
    (inside : b.writeindex + len ≤ 2 * b.length) :
    b.write data len = some { b with
      buf := overwrite (overwrite b.buf b.writeindex (data.take (b.length - b.writeindex))) 0
        (window data (b.length - b.writeindex) (b.writeindex + len - b.length))
      writeindex := b.writeindex + len - b.length } := by
  have bound := sound.bounded
  have writeInside := sound.writeInside
  have front : wsub b.length b.writeindex = b.length - b.writeindex := wsub_eq writeInside bound
  have rest : wadd (wsub len b.length) b.writeindex = b.writeindex + len - b.length := by
    rw [wadd_wsub (by omega) size bound (by omega), Nat.add_comm len]
  have lead : (data.take (b.length - b.writeindex)).length = b.length - b.writeindex := by
    rw [List.length_take]
    omega
  have written : (overwrite b.buf b.writeindex (data.take (b.length - b.writeindex))).length =
      b.length := by
    rw [overwrite_length (by rw [lead, sound.allocated]; omega), sound.allocated]
  rw [write, if_neg (by rw [front]; omega), if_neg (by omega), front, rest]
  dsimp only
  rw [copyN_eq (by omega) (by rw [sound.allocated]; omega), Option.bind_eq_bind, Option.bind_some]
  change (copyN data (b.length - b.writeindex) (b.writeindex + len - b.length)
    (overwrite b.buf b.writeindex (data.take (b.length - b.writeindex))) 0).bind _ = _
  rw [copyN_eq (by omega) (by rw [written]; omega)]
  rfl

/-- The bytes fit without running into the read index. -/
def Fits (b : CirculationBuffer) (len : Nat) : Prop :=
  (b.readindex ≤ b.writeindex ∧ b.writeindex + len ≤ b.length) ∨ b.readedSize + len < b.length

instance (b : CirculationBuffer) (len : Nat) : Decidable (Fits b len) :=
  inferInstanceAs (Decidable (_ ∨ _))

/-- What a fitting write leaves. -/
private def Written (b : CirculationBuffer) (data : List UInt8) (writeindex : Nat)
    (after : CirculationBuffer) : Prop :=
  Sound after ∧ after.length = b.length ∧ after.readindex = b.readindex ∧
    after.writeindex = writeindex ∧ after.contents = b.contents ++ data

/-- Into the gap of a wrapped ring. -/
private theorem write_gap (sound : Sound b) (wrapped : b.writeindex < b.readindex)
    (room : b.writeindex + data.length < b.readindex) :
    ∃ after, b.write data data.length = some after ∧
      Written b data (b.writeindex + data.length) after := by
  have allocated := sound.allocated
  have readInside := sound.readInside
  have whole : data.take data.length = data := List.take_length
  have inside : b.writeindex + data.length ≤ b.buf.length := by omega
  refine ⟨_, write_block sound (Nat.le_refl _) (by omega), ?_, rfl, rfl, rfl, ?_⟩
  · exact ⟨by rw [whole, overwrite_length inside, allocated], sound.bounded, readInside,
      by dsimp only; omega⟩
  · rw [contents_wrapped room, contents_wrapped wrapped, whole, List.append_assoc]
    congr 1
    · exact window_overwrite_clear inside (.inr (Nat.le_of_lt room))
    · exact window_overwrite_extend inside (Nat.zero_le _)

/-- Up to the end of the array of a straight ring. -/
private theorem write_tail (sound : Sound b) (ordered : b.readindex ≤ b.writeindex)
    (room : b.writeindex + data.length ≤ b.length) :
    ∃ after, b.write data data.length = some after ∧
      Written b data (b.writeindex + data.length) after := by
  have allocated := sound.allocated
  have whole : data.take data.length = data := List.take_length
  have inside : b.writeindex + data.length ≤ b.buf.length := by omega
  refine ⟨_, write_block sound (Nat.le_refl _) room, ?_, rfl, rfl, rfl, ?_⟩
  · exact ⟨by rw [whole, overwrite_length inside, allocated], sound.bounded, sound.readInside, room⟩
  · rw [contents_straight (show b.readindex ≤ b.writeindex + data.length by omega),
      contents_straight ordered, whole]
    exact window_overwrite_extend inside ordered

/-- Around the end of the array of a straight ring, short of the read index. -/
private theorem write_around (sound : Sound b) (size : data.length < 2 ^ 64)
    (ordered : b.readindex ≤ b.writeindex) (past : b.length < b.writeindex + data.length)
    (room : b.writeindex + data.length - b.length < b.readindex) :
    ∃ after, b.write data data.length = some after ∧
      Written b data (b.writeindex + data.length - b.length) after := by
  have allocated := sound.allocated
  have readInside := sound.readInside
  have writeInside := sound.writeInside
  -- the two pieces of the data and the two blocks they are laid over
  have lead : (data.take (b.length - b.writeindex)).length = b.length - b.writeindex := by
    rw [List.length_take]
    omega
  have rest : window data (b.length - b.writeindex) (b.writeindex + data.length - b.length) =
      data.drop (b.length - b.writeindex) :=
    List.take_of_length_le (by rw [List.length_drop]; omega)
  have restLength : (data.drop (b.length - b.writeindex)).length =
      b.writeindex + data.length - b.length := by
    rw [List.length_drop]
    omega
  have front : b.writeindex + (data.take (b.length - b.writeindex)).length ≤ b.buf.length := by
    omega
  have back : 0 + (data.drop (b.length - b.writeindex)).length ≤
      (overwrite b.buf b.writeindex (data.take (b.length - b.writeindex))).length := by
    rw [overwrite_length front]
    omega
  refine ⟨_, write_split sound (Nat.le_refl _) size ordered past (by omega), ?_, rfl, rfl, rfl, ?_⟩
  · exact ⟨by rw [rest, overwrite_length back, overwrite_length front, allocated],
      sound.bounded, readInside, by dsimp only; omega⟩
  · have tail : b.length - b.readindex =
        b.writeindex + (data.take (b.length - b.writeindex)).length - b.readindex := by omega
    rw [contents_wrapped room, contents_straight ordered, rest]
    dsimp only
    rw [window_overwrite_clear back (by omega), tail, window_overwrite_extend front ordered,
      ← restLength, window_overwrite_self back, List.append_assoc, List.take_append_drop]

/-- Bytes that fit are queued behind the unread ones. -/
theorem write_contents (sound : Sound b) (size : data.length < 2 ^ 64)
    (fits : Fits b data.length) :
    ∃ after, b.write data data.length = some after ∧ Sound after ∧
      after.length = b.length ∧ after.readindex = b.readindex ∧
      after.writeindex = (if b.writeindex + data.length ≤ b.length then
        b.writeindex + data.length else b.writeindex + data.length - b.length) ∧
      after.contents = b.contents ++ data := by
  have readInside := sound.readInside
  have writeInside := sound.writeInside
  by_cases wrapped : b.writeindex < b.readindex
  · have count := readedSize_wrapped sound wrapped
    have room : b.writeindex + data.length < b.readindex := by
      rcases fits with ⟨ordered, -⟩ | free <;> omega
    rw [if_pos (by omega)]
    exact write_gap sound wrapped room
  · have ordered : b.readindex ≤ b.writeindex := by omega
    have count := readedSize_straight sound ordered
    by_cases straight : b.writeindex + data.length ≤ b.length
    · rw [if_pos straight]
      exact write_tail sound ordered straight
    · have room : b.writeindex + data.length - b.length < b.readindex := by
        rcases fits with ⟨-, inside⟩ | free <;> omega
      rw [if_neg straight]
      exact write_around sound size ordered (by omega) room

/-! ### Growing -/

/-- The array that `relocation_location` leaves behind: the padding and the
tail of the old array in front, the wrapped head behind them. -/
def rotated (b : CirculationBuffer) : List UInt8 :=
  overwrite (overwrite b.buf 0 (window b.buf (b.readindex - padding)
    (b.length - b.readindex + padding))) (b.length - b.readindex + padding)
    (window b.buf 0 b.writeindex)

private theorem copyN_scratch (cells : List UInt8) (inside : origin + count ≤ cells.length) :
    copyN cells origin count (List.replicate count 0) 0 = some (window cells origin count) := by
  rw [copyN_eq inside (by simp)]
  have length := window_length inside
  simp [overwrite, length]

private theorem copyN_back (cells target : List UInt8) (width : cells.length = count)
    (inside : start + count ≤ target.length) :
    copyN cells 0 count target start = some (overwrite target start cells) := by
  subst width
  exact copyN_whole inside

section Relocation
variable (sound : Sound b) (gap : b.writeindex + padding ≤ b.readindex)
include sound gap

/-- A tail longer than the wrapped head: the bytes end up in place, but the
write index is computed from the new read index. -/
theorem relocation_longer_tail (longer : b.writeindex < b.length - b.readindex) :
    b.relocationLocation = some { b with
      buf := b.rotated
      readindex := padding
      writeindex := wadd (b.length - padding) b.writeindex } := by
  have pad : padding = 4 := rfl
  have bound := sound.bounded
  have allocated := sound.allocated
  have readInside := sound.readInside
  have tail : wsub b.length b.readindex = b.length - b.readindex := wsub_eq readInside bound
  have lead : wsub b.readindex padding = b.readindex - padding := wsub_eq (by omega) (by omega)
  have moved : wadd (b.length - b.readindex) padding = b.length - b.readindex + padding :=
    wadd_eq (by omega)
  have block : (window b.buf (b.readindex - padding) (b.length - b.readindex + padding)).length =
      b.length - b.readindex + padding := window_length (by omega)
  rw [relocationLocation, if_pos (by omega), tail, moved, lead]
  dsimp only
  rw [if_pos longer, copyN_scratch _ (by omega), Option.bind_eq_bind, Option.bind_some,
    copyN_eq (by omega) (by omega), Option.bind_some,
    copyN_back _ _ (window_length (by omega)) (by rw [overwrite_length (by omega)]; omega)]
  rw [wsub_eq (show padding ≤ b.length by omega) bound]
  rfl

/-- A tail no longer than the wrapped head: a plain rotation. -/
theorem relocation_shorter_tail (shorter : b.length - b.readindex ≤ b.writeindex) :
    b.relocationLocation = some { b with
      buf := b.rotated
      readindex := padding
      writeindex := padding + b.readedSize } := by
  have pad : padding = 4 := rfl
  have bound := sound.bounded
  have allocated := sound.allocated
  have readInside := sound.readInside
  have count := readedSize_wrapped sound (show b.writeindex < b.readindex by omega)
  have tail : wsub b.length b.readindex = b.length - b.readindex := wsub_eq readInside bound
  have lead : wsub b.readindex padding = b.readindex - padding := wsub_eq (by omega) (by omega)
  have moved : wadd (b.length - b.readindex) padding = b.length - b.readindex + padding :=
    wadd_eq (by omega)
  have block : (window b.buf (b.readindex - padding) (b.length - b.readindex + padding)).length =
      b.length - b.readindex + padding := window_length (by omega)
  have head : (window b.buf 0 b.writeindex).length = b.writeindex := window_length (by omega)
  rw [relocationLocation, if_pos (by omega), tail, moved, lead]
  dsimp only
  rw [if_neg (by omega), copyN_scratch _ (by omega), Option.bind_eq_bind, Option.bind_some,
    copyN_eq (by omega) (by omega), Option.bind_some,
    copyN_back _ _ block (by rw [overwrite_length (by omega)]; omega), Option.bind_some,
    overwrite_comm (by omega) (by omega), wadd_eq (a := b.length - b.readindex) (by omega),
    wadd_eq (by omega), ← count, Nat.add_comm b.readedSize]
  rfl

/-- The rotated array holds the unread bytes behind the padding. -/
theorem rotated_contents : window b.rotated padding b.readedSize = b.contents := by
  have pad : padding = 4 := rfl
  have allocated := sound.allocated
  have readInside := sound.readInside
  have wrapped : b.writeindex < b.readindex := by omega
  have block : (window b.buf (b.readindex - padding) (b.length - b.readindex + padding)).length =
      b.length - b.readindex + padding := window_length (by omega)
  have head : (window b.buf 0 b.writeindex).length = b.writeindex := window_length (by omega)
  have span : b.readedSize =
      b.length - b.readindex + padding + (window b.buf 0 b.writeindex).length - padding := by
    rw [readedSize_wrapped sound wrapped]
    omega
  have tail : window (overwrite b.buf 0 (window b.buf (b.readindex - padding)
      (b.length - b.readindex + padding))) padding (b.length - b.readindex) =
        window b.buf b.readindex (b.length - b.readindex) := by
    rw [window_overwrite_front (by omega) (by omega), window_window (by omega),
      Nat.sub_add_cancel (by omega)]
  rw [span, rotated, window_overwrite_extend (by rw [overwrite_length (by omega)]; omega) (by omega),
    Nat.add_sub_cancel, tail, contents_wrapped wrapped]

theorem rotated_length : b.rotated.length = b.length := by
  have pad : padding = 4 := rfl
  have allocated := sound.allocated
  have readInside := sound.readInside
  have block : (window b.buf (b.readindex - padding) (b.length - b.readindex + padding)).length =
      b.length - b.readindex + padding := window_length (by omega)
  have head : (window b.buf 0 b.writeindex).length = b.writeindex := window_length (by omega)
  rw [rotated, overwrite_length (by rw [overwrite_length (by omega)]; omega),
    overwrite_length (by omega), allocated]

end Relocation

/-- The ring a rotation is meant to give: the same unread bytes, straight, with
the read index at the padding. -/
def straightened (b : CirculationBuffer) : CirculationBuffer :=
  { b with buf := b.rotated, readindex := padding, writeindex := padding + b.readedSize }

theorem straightened_sound (sound : Sound b) (gap : b.writeindex + padding ≤ b.readindex) :
    Sound b.straightened ∧ b.straightened.contents = b.contents := by
  have pad : padding = 4 := rfl
  have readInside := sound.readInside
  have count := readedSize_wrapped sound (show b.writeindex < b.readindex by omega)
  constructor
  · exact ⟨rotated_length sound gap, sound.bounded, by dsimp only [straightened]; omega,
      by dsimp only [straightened]; omega⟩
  · rw [contents_straight (show padding ≤ padding + b.readedSize by omega)]
    simp only [straightened, Nat.add_sub_cancel_left]
    exact rotated_contents sound gap

theorem writedSize_straight (sound : Sound b) (guarded : padding ≤ b.readindex)
    (ordered : b.readindex ≤ b.writeindex) :
    b.writedSize = b.length - b.writeindex + (b.readindex - padding) := by
  have pad : padding = 4 := rfl
  have bound := sound.bounded
  have writeInside := sound.writeInside
  rw [writedSize, wsub_eq guarded (by omega), if_neg (by omega), wsub_eq writeInside bound,
    wadd_eq (by omega), wsub_eq (by omega) (by omega)]
  omega

theorem writedSize_wrapped (sound : Sound b) (gap : b.writeindex + padding ≤ b.readindex) :
    b.writedSize = b.readindex - padding - b.writeindex := by
  have bound := sound.bounded
  have readInside := sound.readInside
  rw [writedSize, wsub_eq (by omega) (by omega), if_pos (by omega), wsub_eq (by omega) (by omega)]

/-- Enlarging a straight ring copies `writeindex_` bytes from just below the
read index, wherever that stands, and leaves both indices alone. -/
theorem enlarge_straight (sound : Sound b) (guarded : padding ≤ b.readindex)
    (ordered : b.readindex ≤ b.writeindex) (needed : b.writedSize ≤ len)
    (size : b.length + 2 * (len - b.writedSize) < 2 ^ 64)
    (readable : b.readindex - padding + b.writeindex ≤ b.length) (fresh : Nat → UInt8) :
    b.enlarge len fresh = some { b with
      buf := overwrite ((List.range (b.length + 2 * (len - b.writedSize))).map fresh) 0
        (window b.buf (b.readindex - padding) b.writeindex)
      length := b.length + 2 * (len - b.writedSize) } := by
  have writeInside := sound.writeInside
  have bound := sound.bounded
  have room := writedSize_straight sound guarded ordered
  rw [enlarge, wsub_eq needed (by omega), wmul_eq (by omega),
    Nat.mul_comm, wadd_eq size, wsub_eq guarded (by omega),
    copyN_eq (by rw [sound.allocated]; exact readable) (by simp; omega)]
  rfl

/-- With the read index at the padding, enlarging keeps the unread bytes and
makes room for the requested ones behind them. -/
theorem enlarge_contents (sound : Sound b) (front : b.readindex = padding)
    (ordered : b.readindex ≤ b.writeindex) (needed : b.writedSize ≤ len)
    (size : b.length + 2 * (len - b.writedSize) < 2 ^ 64) (fresh : Nat → UInt8) :
    ∃ after, b.enlarge len fresh = some after ∧ Sound after ∧ after.contents = b.contents ∧
      after.readindex = padding ∧ after.writeindex = b.writeindex ∧ b.length ≤ after.length ∧
      after.writeindex + len ≤ after.length := by
  have allocated := sound.allocated
  have writeInside := sound.writeInside
  have room := writedSize_straight sound (Nat.le_of_eq front.symm) ordered
  have kept : (window b.buf 0 b.writeindex).length = b.writeindex := window_length (by omega)
  have inside : 0 + (window b.buf 0 b.writeindex).length ≤
      ((List.range (b.length + 2 * (len - b.writedSize))).map fresh).length := by
    rw [List.length_map, List.length_range]
    omega
  refine ⟨_, enlarge_straight sound (by omega) ordered needed size (by omega) fresh, ?_, ?_, front,
    rfl, by dsimp only; omega, by dsimp only; omega⟩
  · rw [front, Nat.sub_self]
    exact ⟨by rw [overwrite_length inside]; simp, size, by dsimp only; omega, by dsimp only; omega⟩
  · rw [contents_straight (b := b) ordered, contents, if_pos ordered]
    simp only [front, Nat.sub_self]
    rw [window_overwrite_front (by omega) (by omega), window_window (by omega), Nat.zero_add]

/-! ### Appending -/

/-- Growing keeps the unread bytes: the read index of a straight ring stands
at the padding; a wrapped ring has a tail no longer than its wrapped head, or
a read index of exactly twice the padding; and the new length is a `size_t`. -/
def GrowSafe (b : CirculationBuffer) (len : Nat) : Prop :=
  2 * (b.readedSize + padding + len) - b.length < 2 ^ 64 ∧
  ((b.readindex = padding ∧ padding ≤ b.writeindex) ∨
    (b.writeindex + padding ≤ b.readindex ∧
      (b.length - b.readindex ≤ b.writeindex ∨ b.readindex = 2 * padding)))

instance (b : CirculationBuffer) (len : Nat) : Decidable (GrowSafe b len) :=
  inferInstanceAs (Decidable (_ ∧ _))

/-- `append` of `len` bytes takes a branch that queues them. -/
def AppendSafe (b : CirculationBuffer) (len : Nat) : Prop :=
  if b.writedSize < len then GrowSafe b len else Fits b len

instance (b : CirculationBuffer) (len : Nat) : Decidable (AppendSafe b len) :=
  inferInstanceAs (Decidable (if b.writedSize < len then GrowSafe b len else Fits b len))

theorem makeMemory_relocated (needed : b.writedSize < len)
    (moved : b.relocationLocation = some after) (fresh : Nat → UInt8) :
    b.makeMemory len fresh = after.enlarge len fresh := by
  rw [makeMemory, if_neg (Nat.not_lt_of_lt needed), moved, Option.bind_eq_bind, Option.bind_some]

/-- Growing where it is safe keeps the unread bytes and makes the room. -/
theorem makeMemory_contents (sound : Sound b) (needed : b.writedSize < len)
    (safe : GrowSafe b len) (fresh : Nat → UInt8) :
    ∃ after, b.makeMemory len fresh = some after ∧ Sound after ∧ after.contents = b.contents ∧
      after.readindex ≤ after.writeindex ∧ b.length ≤ after.length ∧
      after.writeindex + len ≤ after.length := by
  have pad : padding = 4 := rfl
  have writeInside := sound.writeInside
  obtain ⟨size, ⟨front, ordered⟩ | ⟨gap, branch⟩⟩ := safe
  · have straight : b.readindex ≤ b.writeindex := by omega
    have stays : b.relocationLocation = some b := by rw [relocationLocation, if_neg (by omega)]
    have count := readedSize_straight sound straight
    have room := writedSize_straight sound (by omega) straight
    obtain ⟨after, grown, good, same, read, write, longer, fits⟩ :=
      enlarge_contents sound front straight (Nat.le_of_lt needed) (by omega) fresh
    exact ⟨after, (makeMemory_relocated needed stays fresh).trans grown, good, same, by omega,
      longer, fits⟩
  · have readInside := sound.readInside
    have bound := sound.bounded
    have count := readedSize_wrapped sound (show b.writeindex < b.readindex by omega)
    have moved : b.relocationLocation = some b.straightened := by
      by_cases shorter : b.length - b.readindex ≤ b.writeindex
      · exact relocation_shorter_tail sound gap shorter
      · have twice : b.readindex = 2 * padding := branch.resolve_left shorter
        rw [relocation_longer_tail sound gap (by omega), wadd_eq (by omega)]
        have agree : b.length - padding + b.writeindex = padding + b.readedSize := by omega
        rw [agree]
        rfl
    obtain ⟨good, same⟩ := straightened_sound sound gap
    have ordered : b.straightened.readindex ≤ b.straightened.writeindex := by
      simp [straightened]
    have room : b.straightened.writedSize = b.writedSize := by
      rw [writedSize_straight good (Nat.le_refl padding) ordered, writedSize_wrapped sound gap]
      dsimp only [straightened]
      omega
    have room' := writedSize_wrapped sound gap
    have newSize : b.straightened.length + 2 * (len - b.straightened.writedSize) < 2 ^ 64 := by
      rw [room]
      dsimp only [straightened]
      omega
    obtain ⟨after, grown, final, kept, read, write, longer, fits⟩ :=
      enlarge_contents good rfl ordered (room ▸ Nat.le_of_lt needed) newSize fresh
    exact ⟨after, (makeMemory_relocated needed moved fresh).trans grown, final, kept.trans same,
      by rw [read, write]; exact ordered, longer, fits⟩

/-- Appending to the free end of the array. -/
theorem append_block (sound : Sound b) (held : len ≤ data.length) (room : len ≤ b.writedSize)
    (inside : b.writeindex + len ≤ b.length) (fresh : Nat → UInt8) :
    b.append data len fresh = some { b with
      buf := overwrite b.buf b.writeindex (data.take len)
      writeindex := b.writeindex + len } := by
  rw [append, if_neg (Nat.not_lt_of_le room), Option.bind_eq_bind, Option.bind_some]
  exact write_block sound held inside

/-- Asked for more bytes than lie behind the pointer, the copy leaves its
array. -/
theorem append_unreadable (sound : Sound b) (short : data.length < len)
    (room : len ≤ b.writedSize) (ordered : b.readindex ≤ b.writeindex)
    (inside : b.writeindex + len ≤ b.length) (fresh : Nat → UInt8) :
    b.append data len fresh = none := by
  have straight : b.writeindex ≥ b.readindex ∧ wsub b.length b.writeindex ≥ len := by
    rw [wsub_eq sound.writeInside sound.bounded]
    omega
  rw [append, if_neg (Nat.not_lt_of_le room), Option.bind_eq_bind, Option.bind_some]
  change b.write data len = none
  rw [write, if_pos straight, copyN_none (.inl (by omega))]
  rfl

/-- Appending where it is safe queues exactly the given bytes. -/
theorem append_contents (sound : Sound b) (size : data.length < 2 ^ 64)
    (safe : AppendSafe b data.length) (fresh : Nat → UInt8) :
    ∃ after, b.append data data.length fresh = some after ∧ Sound after ∧
      b.length ≤ after.length ∧ after.contents = b.contents ++ data := by
  rw [append]
  by_cases needed : b.writedSize < data.length
  · rw [AppendSafe, if_pos needed] at safe
    obtain ⟨middle, grown, good, same, ordered, longer, fits⟩ :=
      makeMemory_contents sound needed safe fresh
    obtain ⟨after, written, final, kept, -, -, queued⟩ :=
      write_contents good size (.inl ⟨ordered, fits⟩)
    rw [if_pos needed, grown]
    exact ⟨after, written, final, by omega, by rw [queued, same]⟩
  · rw [AppendSafe, if_neg needed] at safe
    obtain ⟨after, written, final, kept, -, -, queued⟩ := write_contents sound size safe
    rw [if_neg needed]
    exact ⟨after, written, final, by omega, queued⟩

end ExNetlink.CirculationBuffer
