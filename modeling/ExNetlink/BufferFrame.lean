import ExNetlink.BufferProofs

/-! What `append` and `skip` leave alone.

An append that does not grow the ring lays its bytes over free positions only,
straight, into the gap or split around the end of the array. A skip moves the
read index and nothing else, so two skips in a row come to one. -/
namespace ExNetlink.BufferFrame
open Windows SizeArith CirculationBuffer

variable {b after : CirculationBuffer} {data : List UInt8} {len : Nat}

/-- Where the two indices may stand: the padding in front of the read index
lies inside the array and holds no unread byte. -/
structure Placed (b : CirculationBuffer) : Prop where
  guarded : padding ≤ b.readindex
  readInside : b.readindex ≤ b.length
  writeInside : b.writeindex ≤ b.length
  gap : b.readindex ≤ b.writeindex ∨ b.writeindex + padding ≤ b.readindex

/-- The positions of the unread bytes. -/
def Unread (b : CirculationBuffer) (i : Nat) : Prop :=
  if b.readindex ≤ b.writeindex then b.readindex ≤ i ∧ i < b.writeindex
  else (b.readindex ≤ i ∧ i < b.length) ∨ i < b.writeindex

/-- The positions of the padding in front of the read index. -/
def Padded (b : CirculationBuffer) (i : Nat) : Prop :=
  b.readindex - padding ≤ i ∧ i < b.readindex

/-! ### Appending -/

section Room
variable (sound : Sound b) (placed : Placed b) (room : data.length ≤ b.writedSize)
include sound placed room

/-- The free size counts the positions between the write index and the
padding. -/
theorem fits_of_room : Fits b data.length := by
  have pad : padding = 4 := rfl
  have guarded := placed.guarded
  have readInside := placed.readInside
  have writeInside := placed.writeInside
  rcases placed.gap with ordered | gap
  · have free := writedSize_straight sound guarded ordered
    have count := readedSize_straight sound ordered
    by_cases straight : b.writeindex + data.length ≤ b.length
    · exact .inl ⟨ordered, straight⟩
    · exact .inr (by omega)
  · have free := writedSize_wrapped sound gap
    have count := readedSize_wrapped sound (show b.writeindex < b.readindex by omega)
    exact .inr (by omega)

theorem sized_of_room : data.length < 2 ^ 64 := by
  have bound := sound.bounded
  have guarded := placed.guarded
  have readInside := placed.readInside
  have writeInside := placed.writeInside
  rcases placed.gap with ordered | gap
  · have free := writedSize_straight sound guarded ordered
    omega
  · have free := writedSize_wrapped sound gap
    omega

/-- Bytes that fit in the free space end in front of the padding. -/
theorem gap_of_room :
    let write := if b.writeindex + data.length ≤ b.length then b.writeindex + data.length
      else b.writeindex + data.length - b.length
    b.readindex ≤ write ∨ write + padding ≤ b.readindex := by
  have guarded := placed.guarded
  have readInside := placed.readInside
  have writeInside := placed.writeInside
  dsimp only
  rcases placed.gap with ordered | gap
  · have free := writedSize_straight sound guarded ordered
    split <;> omega
  · have free := writedSize_wrapped sound gap
    rw [if_pos (by omega)]
    omega

theorem write_placed :
    ∃ after, b.write data data.length = some after ∧ Sound after ∧ Placed after ∧
      after.length = b.length ∧ after.readindex = b.readindex ∧
      after.contents = b.contents ++ data := by
  have guarded := placed.guarded
  obtain ⟨after, written, good, length, read, write, queued⟩ :=
    write_contents sound (sized_of_room sound placed room) (fits_of_room sound placed room)
  refine ⟨after, written, good, ⟨by omega, good.readInside, good.writeInside, ?_⟩, length, read,
    queued⟩
  rw [read, write]
  exact gap_of_room sound placed room

/-- Neither an unread byte nor one of the padding is written over. -/
theorem write_frame (written : b.write data data.length = some after) {i : Nat}
    (kept : Unread b i ∨ Padded b i) : after.buf[i]? = b.buf[i]? := by
  have pad : padding = 4 := rfl
  have allocated := sound.allocated
  have guarded := placed.guarded
  have readInside := placed.readInside
  have writeInside := placed.writeInside
  unfold Unread Padded at kept
  by_cases inside : b.writeindex + data.length ≤ b.length
  · have clear : ¬ (b.writeindex ≤ i ∧ i < b.writeindex + data.length) := by
      rcases placed.gap with ordered | gap
      · rw [if_pos ordered] at kept
        omega
      · have free := writedSize_wrapped sound gap
        rw [if_neg (by omega)] at kept
        omega
    rw [write_block sound (Nat.le_refl _) inside] at written
    cases written
    dsimp only
    rw [List.take_length, overwrite_getElem? (by omega), if_neg clear]
  · -- the bytes run around the end of the array and stop short of the padding
    have ordered : b.readindex ≤ b.writeindex := by
      rcases placed.gap with ordered | gap
      · exact ordered
      · have free := writedSize_wrapped sound gap
        omega
    have free := writedSize_straight sound guarded ordered
    have size := sized_of_room sound placed room
    have front : (data.take (b.length - b.writeindex)).length = b.length - b.writeindex := by
      rw [List.length_take]
      omega
    have back : (window data (b.length - b.writeindex)
        (b.writeindex + data.length - b.length)).length = b.writeindex + data.length - b.length :=
      window_length (by omega)
    rw [if_pos ordered] at kept
    rw [write_split sound (Nat.le_refl _) size ordered (by omega) (by omega)] at written
    cases written
    dsimp only
    rw [overwrite_getElem? (by rw [overwrite_length (by omega)]; omega), if_neg (by omega),
      overwrite_getElem? (by omega), if_neg (by omega)]

end Room

/-- An append that need not grow the ring queues exactly its bytes, stays
inside the array and leaves the unread bytes and the padding as they are. -/
theorem append_exact (allocated : b.buf.length = b.length) (bounded : b.length < 2 ^ 64)
    (placed : Placed b) (room : data.length ≤ b.writedSize) (fresh : Nat → UInt8) :
    ∃ after, b.append data data.length fresh = some after ∧
      after.length = b.length ∧ after.readindex = b.readindex ∧
      after.contents = b.contents ++ data ∧ Placed after ∧ after.buf.length = after.length ∧
      ∀ i, Unread b i ∨ Padded b i → after.buf[i]? = b.buf[i]? := by
  have sound : Sound b := ⟨allocated, bounded, placed.readInside, placed.writeInside⟩
  obtain ⟨after, written, good, stays, length, read, queued⟩ := write_placed sound placed room
  have appended : b.append data data.length fresh = some after := by
    rw [append, if_neg (Nat.not_lt_of_le room)]
    exact written
  exact ⟨after, appended, length, read, queued, stays, good.allocated,
    fun _ kept => write_frame sound placed room written kept⟩

/-- Split around the end of the array, exactly up to the padding. -/
theorem append_exact_around :
    let b : CirculationBuffer := ⟨[0, 0, 0, 0, 0, 0, 7, 8, 0], 9, 6, 8⟩
    b.writedSize = 3 ∧ ∃ after, b.append [9, 10, 11] 3 (fun _ => 0) = some after ∧
      after.length = 9 ∧ after.readindex = 6 ∧ after.contents = b.contents ++ [9, 10, 11] ∧
      Placed after ∧ after.buf.length = after.length ∧
      ∀ i, Unread b i ∨ Padded b i → after.buf[i]? = b.buf[i]? :=
  ⟨by decide, append_exact (by decide) (by decide)
    ⟨by decide, by decide, by decide, .inl (by decide)⟩ (by decide) fun _ => 0⟩

/-! ### Skipping -/

/-- What a skip is for: the same array, less a prefix of the unread bytes. -/
structure Consumed (b after : CirculationBuffer) (len : Nat) : Prop where
  buf : after.buf = b.buf
  length : after.length = b.length
  contents : after.contents = b.contents.drop len
  readed : after.readedSize + len = b.readedSize

theorem retrieveAll_readedSize (b : CirculationBuffer) : b.retrieveAll.readedSize = 0 := by
  simp only [readedSize, retrieveAll, Nat.lt_irrefl, if_false]
  exact wsub_eq (Nat.le_refl padding) (by decide)

theorem skip_consumed (sound : Sound b) (available : len ≤ b.readedSize) :
    ∃ after, b.skip len = some after ∧ Consumed b after len := by
  obtain ⟨after, skipped, buf, length, contents⟩ := skip_contents sound available
  refine ⟨after, skipped, buf, length, contents, ?_⟩
  rcases Nat.lt_or_eq_of_le available with fewer | rfl
  · have good := skip_sound_fewer sound fewer skipped
    rw [← contents_length good, contents, List.length_drop, contents_length sound]
    omega
  · rw [skip_all] at skipped
    cases skipped
    rw [retrieveAll_readedSize, Nat.zero_add]

/-- Two skips that together stay inside the unread bytes. The first may drain
the ring: what is left to skip then is nothing, also from an array too short
for the padding. -/
theorem skip_twice {more : Nat} (sound : Sound b) (available : len + more ≤ b.readedSize) :
    ∃ first second, b.skip len = some first ∧ first.skip more = some second ∧
      second.contents = b.contents.drop (len + more) := by
  obtain ⟨first, skipped, consumed⟩ := skip_consumed sound (Nat.le_of_add_right_le available)
  by_cases drained : len = b.readedSize
  · obtain rfl : more = 0 := by omega
    rw [drained, skip_all] at skipped
    cases skipped
    have again := skip_all b.retrieveAll
    rw [retrieveAll_readedSize] at again
    refine ⟨_, _, drained ▸ skip_all b, again, ?_⟩
    rw [retrieveAll_contents, List.drop_eq_nil_of_le]
    rw [contents_length sound]
    omega
  · have good := skip_sound_fewer sound (by omega) skipped
    have rest := consumed.readed
    obtain ⟨second, again, later⟩ := skip_consumed good (show more ≤ first.readedSize by omega)
    exact ⟨first, second, skipped, again, by rw [later.contents, consumed.contents, List.drop_drop]⟩

/-- A skip consumes exactly a prefix of the unread bytes, and two skips leave
what one of their sum leaves. -/
theorem skip_consumes_front (allocated : b.buf.length = b.length) (bounded : b.length < 2 ^ 64)
    (readInside : b.readindex ≤ b.length) (writeInside : b.writeindex ≤ b.length) :
    (∀ n ≤ b.readedSize, ∃ after, b.skip n = some after ∧ Consumed b after n) ∧
    ∀ n m, n + m ≤ b.readedSize → ∃ first second both, b.skip n = some first ∧
      first.skip m = some second ∧ b.skip (n + m) = some both ∧ second.contents = both.contents := by
  have sound : Sound b := ⟨allocated, bounded, readInside, writeInside⟩
  refine ⟨fun n available => skip_consumed sound available, fun n m available => ?_⟩
  obtain ⟨first, second, skipped, again, left⟩ := skip_twice sound available
  obtain ⟨both, together, consumed⟩ := skip_consumed sound available
  exact ⟨first, second, both, skipped, again, together, by rw [left, consumed.contents]⟩

/-- Six bytes, two of them behind the end of the array. -/
theorem skip_consumes_front_around :
    let b : CirculationBuffer := ⟨[5, 6, 0, 0, 0, 0, 1, 2, 3, 4], 10, 6, 2⟩
    ∃ first second both, b.skip 3 = some first ∧ first.skip 2 = some second ∧
      b.skip 5 = some both ∧ second.contents = both.contents :=
  (skip_consumes_front (by decide) (by decide) (by decide) (by decide)).2 3 2 (by decide)

end ExNetlink.BufferFrame
