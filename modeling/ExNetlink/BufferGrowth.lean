import ExNetlink.BufferProofs

/-! What growing the byte ring keeps.

`make_memory` copies from `peek() - padding` on but leaves the indices where
they were, so a byte that lay `readindex_ - padding` places further on comes
to stand in the place of each unread one. `relocation_location` puts the bytes
of a wrapped ring where they belong, and in one of its two branches computes
the write index from a read index it has already changed. -/
namespace ExNetlink.BufferGrowth
open Windows SizeArith CirculationBuffer

variable {b after : CirculationBuffer} {len : Nat} {fresh : Nat → UInt8}

/-- The length of the new array, as `size_t` arithmetic gives it. -/
def newLength (b : CirculationBuffer) (len : Nat) : Nat :=
  (b.length + 2 * (len - b.writedSize)) % 2 ^ 64

/-- Each unread byte of a straight ring is the same as the one
`readindex_ - padding` places further on. -/
def Recurs (b : CirculationBuffer) : Prop :=
  ∀ i < b.writeindex - b.readindex,
    b.buf[b.readindex - padding + b.readindex + i]? = b.buf[b.readindex + i]?

instance : DecidablePred Recurs := fun _ => inferInstanceAs (Decidable (∀ _ < _, _))

/-- What growing is for: nothing is lost, and the requested bytes fit. -/
structure Grown (b after : CirculationBuffer) (len : Nat) : Prop where
  contents : after.contents = b.contents
  readed : after.readedSize = b.readedSize
  room : len ≤ after.writedSize

/-- The copy stays inside the old array and puts equal bytes in the unread
places, and the new length is a `size_t`. -/
structure GrowsWhole (b : CirculationBuffer) (len : Nat) : Prop where
  readable : b.readindex - padding + b.writeindex ≤ b.length
  recurs : Recurs b
  size : b.length + 2 * (len - b.writedSize) < 2 ^ 64

section Straight
variable (sound : Sound b) (guarded : padding ≤ b.readindex) (ordered : b.readindex ≤ b.writeindex)
  (needed : b.writedSize < len) (size : len < 2 ^ 64)
include sound guarded ordered needed size

/-- Enlarging has a result exactly when the copy stays inside both arrays. -/
theorem makeMemory_eq_some :
    b.makeMemory len fresh = some after ↔
      b.readindex - padding + b.writeindex ≤ b.length ∧ b.writeindex ≤ newLength b len ∧
      { b with
        buf := overwrite ((List.range (newLength b len)).map fresh) 0
          (window b.buf (b.readindex - padding) b.writeindex)
        length := newLength b len } = after := by
  have bound := sound.bounded
  have writeInside := sound.writeInside
  have stays : b.relocationLocation = some b := by rw [relocationLocation, if_neg (by omega)]
  have grows : wadd b.length (wmul (wsub len b.writedSize) 2) = newLength b len := by
    rw [wsub_eq (by omega) size, wmul, wadd, newLength]
    omega
  rw [makeMemory_relocated needed stays, enlarge, grows, wsub_eq guarded (by omega), copyN]
  simp only [Nat.zero_add, List.length_map, List.length_range, sound.allocated]
  split
  · rename_i inside
    simp [inside.1, inside.2]
  · rename_i outside
    refine iff_of_false (by simp) ?_
    rintro ⟨readable, writable, -⟩
    exact outside ⟨readable, writable⟩

/-- The unread bytes of the new array. -/
theorem makeMemory_reads (grown : b.makeMemory len fresh = some after) :
    Sound after ∧ after.readindex = b.readindex ∧ after.writeindex = b.writeindex ∧
      after.length = newLength b len ∧ (after.contents = b.contents ↔ Recurs b) := by
  obtain ⟨readable, writable, rfl⟩ :=
    (makeMemory_eq_some sound guarded ordered needed size).mp grown
  have block : (window b.buf (b.readindex - padding) b.writeindex).length = b.writeindex :=
    window_length (by rw [sound.allocated]; exact readable)
  have inside : 0 + (window b.buf (b.readindex - padding) b.writeindex).length ≤
      ((List.range (newLength b len)).map fresh).length := by
    simp only [block, List.length_map, List.length_range]
    omega
  have small : newLength b len < 2 ^ 64 := Nat.mod_lt _ (by decide)
  refine ⟨⟨?_, small, by dsimp only; omega, writable⟩, rfl, rfl, rfl, ?_⟩
  · rw [overwrite_length inside]
    simp
  · rw [contents_straight (b := b) ordered, contents, if_pos ordered]
    dsimp only
    rw [window_overwrite_front (by omega) (by omega), window_window (by omega)]
    exact window_eq_iff

/-- A straight ring grows without loss exactly when the copy stays inside the
old array, the bytes it puts in the unread places are equal to the unread ones,
and the new length does not overflow. -/
theorem growth_lossless_iff (fresh : Nat → UInt8) :
    (∃ after, b.makeMemory len fresh = some after ∧ Grown b after len) ↔ GrowsWhole b len := by
  have pad : padding = 4 := rfl
  have bound := sound.bounded
  have free := writedSize_straight sound guarded ordered
  constructor
  · rintro ⟨after, grown, whole⟩
    obtain ⟨readable, writable, -⟩ :=
      (makeMemory_eq_some sound guarded ordered needed size).mp grown
    obtain ⟨good, read, write, longer, kept⟩ :=
      makeMemory_reads sound guarded ordered needed size grown
    have room := whole.room
    rw [writedSize_straight good (by omega) (by omega), read, write, longer] at room
    refine ⟨readable, kept.mp whole.contents, ?_⟩
    -- a length that has wrapped falls short of the request
    rw [newLength] at room writable
    omega
  · rintro ⟨readable, recurs, fits⟩
    have same : newLength b len = b.length + 2 * (len - b.writedSize) := Nat.mod_eq_of_lt fits
    have writeInside := sound.writeInside
    have grown : b.makeMemory len fresh = some _ :=
      (makeMemory_eq_some sound guarded ordered needed size).mpr ⟨readable, by omega, rfl⟩
    obtain ⟨good, read, write, longer, kept⟩ :=
      makeMemory_reads sound guarded ordered needed size grown
    refine ⟨_, grown, kept.mpr recurs, ?_, ?_⟩
    · rw [readedSize_straight good (by omega), readedSize_straight sound ordered, read, write]
    · rw [writedSize_straight good (by omega) (by omega), read, write, longer]
      omega

end Straight

/-- Growth is sound where the tests exercise it: with nothing skipped yet, or
with nothing left to read. -/
theorem recurs_of_front (front : b.readindex = padding ∨ b.writeindex = b.readindex) : Recurs b := by
  intro i unread
  rcases front with front | empty
  · rw [front, Nat.sub_self, Nat.zero_add]
  · omega

/-- Two unread bytes at the padding, and room for three more wanted. -/
theorem growth_lossless_fresh :
    let b : CirculationBuffer := ⟨[0, 0, 0, 0, 1, 2, 0], 7, 4, 6⟩
    ∃ after, b.makeMemory 3 (fun _ => 255) = some after ∧ Grown b after 3 :=
  (growth_lossless_iff ⟨by decide, by decide, by decide, by decide⟩ (by decide) (by decide) (by decide)
    (by decide) fun _ => 255).mpr ⟨by decide, recurs_of_front (.inl rfl), by decide⟩

/-- One byte has been read: the other one is replaced by the byte behind it. -/
theorem growth_loses_byte :
    let b : CirculationBuffer := ⟨[0, 0, 0, 0, 1, 2, 0, 0], 8, 5, 6⟩
    b.writedSize < 4 ∧ b.contents = [2] ∧
      (b.makeMemory 4 fun _ => 255).map (fun after => after.contents) = some [0] ∧
      ¬ ∃ after, b.makeMemory 4 (fun _ => 255) = some after ∧ Grown b after 4 := by
  refine ⟨by decide, by decide, by decide, ?_⟩
  rintro ⟨after, grown, whole⟩
  have read : (CirculationBuffer.makeMemory ⟨[0, 0, 0, 0, 1, 2, 0, 0], 8, 5, 6⟩ 4 fun _ => 255).map
      (fun after => after.contents) = some [0] := by decide
  rw [grown, Option.map_some, whole.contents] at read
  exact absurd read (by decide)

/-! ### Straightening -/

/-- What a rotation is for. -/
structure Straightened (b after : CirculationBuffer) : Prop where
  readindex : after.readindex = padding
  writeindex : after.writeindex = padding + b.readedSize
  contents : after.contents = b.contents

/-- A wrapped ring is straightened exactly when its tail is no longer than its
wrapped head, or when its read index is twice the padding, where the write
index computed from the wrong read index is the right one. -/
theorem relocation_straightens_iff (sound : Sound b) (gap : b.writeindex + padding ≤ b.readindex) :
    (∃ after, b.relocationLocation = some after ∧ Straightened b after) ↔
      b.length - b.readindex ≤ b.writeindex ∨ b.readindex = 2 * padding := by
  have pad : padding = 4 := rfl
  have bound := sound.bounded
  have readInside := sound.readInside
  have count := readedSize_wrapped sound (show b.writeindex < b.readindex by omega)
  have same := (straightened_sound sound gap).2
  by_cases shorter : b.length - b.readindex ≤ b.writeindex
  · have moved : b.relocationLocation = some b.straightened := relocation_shorter_tail sound gap shorter
    exact iff_of_true ⟨_, moved, rfl, rfl, same⟩ (.inl shorter)
  · have moved := relocation_longer_tail sound gap (by omega)
    constructor
    · rintro ⟨after, reached, straight⟩
      have write := straight.writeindex
      rw [moved] at reached
      obtain rfl := Option.some.inj reached
      dsimp only at write
      rw [count, wadd] at write
      omega
    · intro either
      have twice : b.readindex = 2 * padding := either.resolve_left shorter
      have agree : wadd (b.length - padding) b.writeindex = padding + b.readedSize := by
        rw [wadd_eq (by omega)]
        omega
      rw [agree] at moved
      exact ⟨b.straightened, moved, rfl, rfl, same⟩

/-- Three bytes at the end of the array and four at its start. -/
theorem relocation_straightens_head :
    let b : CirculationBuffer := ⟨[4, 5, 6, 7, 0, 0, 0, 0, 0, 1, 2, 3], 12, 9, 4⟩
    ∃ after, b.relocationLocation = some after ∧ Straightened b after :=
  (relocation_straightens_iff ⟨by decide, by decide, by decide, by decide⟩ (by decide)).mpr
    (.inl (by decide))

/-- Three bytes at the end of the array and one at its start: the write index
falls one short, and the last byte is lost. -/
theorem relocation_misplaces_end :
    let b : CirculationBuffer := ⟨[4, 0, 0, 0, 0, 0, 0, 1, 2, 3], 10, 7, 1⟩
    b.writeindex + padding ≤ b.readindex ∧
      b.relocationLocation.map (fun after => (after.readindex, after.writeindex, b.readedSize)) =
        some (4, 7, 4) ∧
      ¬ ∃ after, b.relocationLocation = some after ∧ Straightened b after := by
  refine ⟨by decide, by decide, ?_⟩
  rintro ⟨after, moved, straight⟩
  have read : (CirculationBuffer.relocationLocation
      ⟨[4, 0, 0, 0, 0, 0, 0, 1, 2, 3], 10, 7, 1⟩).map (fun after => after.writeindex) = some 7 := by
    decide
  rw [moved, Option.map_some, straight.writeindex] at read
  exact absurd read (by decide)

end ExNetlink.BufferGrowth
