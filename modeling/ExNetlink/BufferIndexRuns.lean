import ExNetlink.BufferFrame
import ExNetlink.BufferRuns

/-! The representation of the byte ring over whole runs.

Four bytes stay free in front of the read index, and the two size functions
never subtract below zero. Two things break it: a skip that passes the end of
the array and stops inside the padding, and a growth that copies from outside
the old array or recomputes its write index wrongly. -/
namespace ExNetlink.BufferIndexRuns
open Windows SizeArith Runs CirculationBuffer BufferFrame BufferRuns

/-- No subtraction of `readed_size()` or `writed_size()` wraps below zero: one
condition for each subtraction, on the branch that evaluates it. -/
def NoWrap (b : CirculationBuffer) : Prop :=
  (if b.writeindex < b.readindex then b.readindex ≤ b.length else b.readindex ≤ b.writeindex) ∧
  padding ≤ b.readindex ∧
  (if b.writeindex ≤ b.readindex - padding then b.writeindex ≤ b.readindex - padding
    else b.writeindex ≤ b.length ∧ padding ≤ b.length - b.writeindex + b.readindex)

instance : DecidablePred NoWrap := fun _ => inferInstanceAs (Decidable (_ ∧ _))

/-- The representation invariant of the ring. -/
structure RepInv (b : CirculationBuffer) : Prop where
  allocated : b.buf.length = b.length
  bounded : b.length < 2 ^ 64
  guarded : padding ≤ b.readindex
  readInside : b.readindex ≤ b.length
  writeInside : b.writeindex ≤ b.length
  gap : b.readindex ≤ b.writeindex ∨ b.writeindex + padding ≤ b.readindex
  unwrapped : NoWrap b
  accounted : b.readedSize + b.writedSize + padding = b.length

/-- What carries the induction. A wrapped ring holds at least one byte at the
start of its array. -/
structure Indexed (b : CirculationBuffer) : Prop extends Sound b where
  guarded : padding ≤ b.readindex
  gap : b.readindex ≤ b.writeindex ∨ b.writeindex + padding ≤ b.readindex
  started : b.writeindex < b.readindex → 0 < b.writeindex

variable {b after : CirculationBuffer} {data : List UInt8} {len : Nat}

theorem Indexed.repInv (held : Indexed b) : RepInv b := by
  have pad : padding = 4 := rfl
  have guarded := held.guarded
  have readInside := held.readInside
  have writeInside := held.writeInside
  refine ⟨held.allocated, held.bounded, guarded, readInside, writeInside, held.gap,
    ⟨?_, guarded, ?_⟩, ?_⟩
  · split <;> omega
  · split <;> omega
  · rcases held.gap with ordered | gap
    · rw [readedSize_straight held.toSound ordered, writedSize_straight held.toSound guarded ordered]
      omega
    · rw [readedSize_wrapped held.toSound (by omega), writedSize_wrapped held.toSound gap]
      omega

theorem Indexed.placed (held : Indexed b) : Placed b :=
  ⟨held.guarded, held.readInside, held.writeInside, held.gap⟩

/-- A skip that passes the end of the array and stops inside the padding. -/
def StopsInPadding (b : CirculationBuffer) (len : Nat) : Prop :=
  b.writeindex < b.readindex ∧ len < b.readedSize ∧
    b.length ≤ b.readindex + len ∧ b.readindex + len < b.length + padding

instance (b : CirculationBuffer) (len : Nat) : Decidable (StopsInPadding b len) :=
  inferInstanceAs (Decidable (_ ∧ _))

/-- Growing keeps the indices: a straight ring copies from inside its array; a
wrapped one has a tail no longer than its wrapped head, or few enough wrapped
bytes that the miscomputed write index still lies inside the array; and the
new length is a `size_t`. -/
def GrowInside (b : CirculationBuffer) (len : Nat) : Prop :=
  if b.readindex ≤ b.writeindex then
    b.readindex - padding + b.writeindex ≤ b.length ∧
      b.length + 2 * (len - b.writedSize) < 2 ^ 64
  else if b.length - b.readindex ≤ b.writeindex then
    b.length + 2 * (len - b.writedSize) < 2 ^ 64
  else b.writeindex ≤ padding ∧ padding ≤ b.writeindex + len ∧
    b.length + 2 * (b.writeindex + len - padding) < 2 ^ 64

instance (b : CirculationBuffer) (len : Nat) : Decidable (GrowInside b len) := by
  unfold GrowInside
  infer_instance

/-- The call takes a branch that keeps the representation. -/
def Keeps (b : CirculationBuffer) : Op → Prop
  | .append data _ _ => b.writedSize < data.length → GrowInside b data.length
  | .skip len => len ≤ b.readedSize ∧ ¬ StopsInPadding b len
  | .retrieveAll => True

instance (b : CirculationBuffer) : DecidablePred (Keeps b)
  | .append data _ _ =>
    inferInstanceAs (Decidable (b.writedSize < data.length → GrowInside b data.length))
  | .skip len => inferInstanceAs (Decidable (len ≤ b.readedSize ∧ ¬ StopsInPadding b len))
  | .retrieveAll => isTrue trivial

theorem retrieveAll_indexed (held : Indexed b) : Indexed b.retrieveAll :=
  ⟨retrieveAll_sound held.toSound (Nat.le_trans held.guarded held.readInside), Nat.le_refl _,
    .inl (Nat.le_refl _), fun wrapped => absurd wrapped (Nat.lt_irrefl _)⟩

theorem skip_indexed (held : Indexed b) (available : len ≤ b.readedSize)
    (clear : ¬ StopsInPadding b len) : ∃ after, b.skip len = some after ∧ Indexed after := by
  have sound := held.toSound
  have guarded := held.guarded
  have readInside := sound.readInside
  have writeInside := sound.writeInside
  rcases Nat.lt_or_eq_of_le available with fewer | rfl
  · by_cases wrapped : b.writeindex < b.readindex
    · have gap : b.writeindex + padding ≤ b.readindex := held.gap.resolve_left (by omega)
      have count := readedSize_wrapped sound wrapped
      by_cases within : b.readindex + len < b.length
      · have skipped := skip_tail sound wrapped within
        refine ⟨_, skipped, skip_sound sound (by omega) skipped, by dsimp only; omega,
          .inr (by dsimp only; omega), fun _ => held.started wrapped⟩
      · have skipped := skip_around sound wrapped (by omega) fewer
        have past : b.length + padding ≤ b.readindex + len := by
          by_contra short
          exact clear ⟨wrapped, fewer, by omega, by omega⟩
        refine ⟨_, skipped, skip_sound sound (by omega) skipped, by dsimp only; omega,
          .inl (by dsimp only; omega), fun wrapped => ?_⟩
        dsimp only at wrapped
        omega
    · have ordered : b.readindex ≤ b.writeindex := by omega
      have count := readedSize_straight sound ordered
      have skipped := skip_straight sound ordered fewer
      refine ⟨_, skipped, skip_sound sound (by omega) skipped, by dsimp only; omega,
        .inl (by dsimp only; omega), fun wrapped => ?_⟩
      dsimp only at wrapped
      omega
  · exact ⟨_, skip_all b, retrieveAll_indexed held⟩

/-- Bytes that fit in the free space land in front of the padding. -/
theorem write_indexed (held : Indexed b) (size : data.length < 2 ^ 64)
    (room : data.length ≤ b.writedSize) :
    ∃ after, b.write data data.length = some after ∧ Indexed after ∧ after.length = b.length ∧
      after.readindex = b.readindex ∧ after.contents = b.contents ++ data := by
  have sound := held.toSound
  have guarded := held.guarded
  have started := held.started
  have placed := held.placed
  obtain ⟨after, written, good, length, read, write, queued⟩ :=
    write_contents sound size (fits_of_room sound placed room)
  refine ⟨after, written, ⟨good, by omega, ?_, ?_⟩, length, read, queued⟩
  · rw [read, write]
    exact gap_of_room sound placed room
  · rw [read, write]
    intro wrapped
    split at wrapped <;> rename_i straight
    · rw [if_pos straight]
      omega
    · rw [if_neg straight]
      omega

/-- Appending bytes that fit in the free space. -/
theorem append_indexed (held : Indexed b) (size : data.length < 2 ^ 64)
    (room : data.length ≤ b.writedSize) (fresh : Nat → UInt8) :
    ∃ after, b.append data data.length fresh = some after ∧ Indexed after ∧
      after.length = b.length ∧ after.readindex = b.readindex ∧
      after.contents = b.contents ++ data := by
  rw [append, if_neg (Nat.not_lt_of_le room)]
  exact write_indexed held size room

/-- A straight ring that copies from inside its array is larger afterwards by
twice what was missing. -/
theorem enlarge_indexed (held : Indexed b) (ordered : b.readindex ≤ b.writeindex)
    (needed : b.writedSize ≤ len) (size : b.length + 2 * (len - b.writedSize) < 2 ^ 64)
    (readable : b.readindex - padding + b.writeindex ≤ b.length) (fresh : Nat → UInt8) :
    ∃ after, b.enlarge len fresh = some after ∧ Indexed after ∧ len ≤ after.writedSize := by
  have sound := held.toSound
  have guarded := held.guarded
  have readInside := sound.readInside
  have writeInside := sound.writeInside
  have copied : (window b.buf (b.readindex - padding) b.writeindex).length = b.writeindex :=
    window_length (by rw [sound.allocated]; exact readable)
  have grown := enlarge_straight sound guarded ordered needed size readable fresh
  have good : Sound { b with
      buf := overwrite ((List.range (b.length + 2 * (len - b.writedSize))).map fresh) 0
        (window b.buf (b.readindex - padding) b.writeindex)
      length := b.length + 2 * (len - b.writedSize) } := by
    refine ⟨?_, size, by dsimp only; omega, by dsimp only; omega⟩
    rw [overwrite_length (by rw [copied, List.length_map, List.length_range]; omega)]
    simp
  refine ⟨_, grown, ⟨good, guarded, .inl ordered, fun wrapped => ?_⟩, ?_⟩
  · exact absurd wrapped (Nat.not_lt_of_le ordered)
  · rw [writedSize_straight good guarded ordered]
    have free := writedSize_straight sound guarded ordered
    dsimp only
    omega

private theorem straightened_indexed (held : Indexed b)
    (gap : b.writeindex + padding ≤ b.readindex) :
    Indexed b.straightened ∧ b.straightened.writedSize = b.writedSize := by
  have pad : padding = 4 := rfl
  have sound := held.toSound
  have readInside := sound.readInside
  have count := readedSize_wrapped sound (show b.writeindex < b.readindex by omega)
  have good := (straightened_sound sound gap).1
  have ordered : b.straightened.readindex ≤ b.straightened.writeindex := by simp [straightened]
  refine ⟨⟨good, Nat.le_refl _, .inl ordered, fun wrapped => ?_⟩, ?_⟩
  · exact absurd wrapped (Nat.not_lt_of_le ordered)
  · rw [writedSize_straight good (Nat.le_refl padding) ordered, writedSize_wrapped sound gap]
    dsimp only [straightened]
    omega

theorem makeMemory_indexed (held : Indexed b) (needed : b.writedSize < len)
    (safe : GrowInside b len) (fresh : Nat → UInt8) :
    ∃ after, b.makeMemory len fresh = some after ∧ Indexed after ∧ len ≤ after.writedSize := by
  have pad : padding = 4 := rfl
  have sound := held.toSound
  have guarded := held.guarded
  have readInside := sound.readInside
  have bound := sound.bounded
  rw [GrowInside] at safe
  by_cases ordered : b.readindex ≤ b.writeindex
  · rw [if_pos ordered] at safe
    have stays : b.relocationLocation = some b := by rw [relocationLocation, if_neg (by omega)]
    rw [makeMemory_relocated needed stays]
    exact enlarge_indexed held ordered (Nat.le_of_lt needed) safe.2 safe.1 fresh
  · have gap : b.writeindex + padding ≤ b.readindex := held.gap.resolve_left ordered
    rw [if_neg ordered] at safe
    by_cases shorter : b.length - b.readindex ≤ b.writeindex
    · rw [if_pos shorter] at safe
      obtain ⟨moved, room⟩ := straightened_indexed held gap
      have count := readedSize_wrapped sound (show b.writeindex < b.readindex by omega)
      have copies : b.straightened.readindex - padding + b.straightened.writeindex ≤
          b.straightened.length := by
        dsimp only [straightened]
        omega
      have relocated := relocation_shorter_tail sound gap shorter
      rw [makeMemory_relocated needed relocated]
      exact enlarge_indexed moved (by simp [straightened]) (by omega) (room.symm ▸ safe) copies fresh
    · -- the write index is computed from the new read index, but stays inside
      rw [if_neg shorter] at safe
      obtain ⟨few, enough, size⟩ := safe
      have started := held.started (by omega)
      have relocated := relocation_longer_tail sound gap (by omega)
      rw [wadd_eq (by omega)] at relocated
      have good : Sound { b with
          buf := b.rotated, readindex := padding, writeindex := b.length - padding + b.writeindex } :=
        ⟨rotated_length sound gap, bound, by dsimp only; omega, by dsimp only; omega⟩
      have straight : padding ≤ b.length - padding + b.writeindex := by omega
      have free := writedSize_straight good (Nat.le_refl padding) straight
      dsimp only at free
      rw [makeMemory_relocated needed relocated]
      refine enlarge_indexed ⟨good, Nat.le_refl padding, .inl straight, fun wrapped => ?_⟩ straight
        (by rw [free]; omega) (by rw [free]; dsimp only; omega) (by dsimp only; omega) fresh
      exact absurd wrapped (Nat.not_lt_of_le straight)

theorem step_indexed (b : CirculationBuffer) (op : Op) (held : Indexed b) (safe : Keeps b op) :
    ∃ next, step b op = some next ∧ Indexed next := by
  cases op with
  | append data sized fresh =>
    rw [step]
    by_cases needed : b.writedSize < data.length
    · obtain ⟨middle, grown, good, room⟩ := makeMemory_indexed held needed (safe needed) fresh
      obtain ⟨next, written, kept, -⟩ := write_indexed good sized room
      rw [append, if_pos needed, grown]
      exact ⟨next, written, kept⟩
    · obtain ⟨next, appended, kept, -⟩ := append_indexed held sized (Nat.le_of_not_lt needed) fresh
      exact ⟨next, appended, kept⟩
  | skip len => exact skip_indexed held safe.1 safe.2
  | retrieveAll => exact ⟨_, rfl, retrieveAll_indexed held⟩

/-- A run whose calls all take a keeping branch has the representation
invariant in every state. -/
theorem ring_keeps_representation (length : Nat) (room : padding ≤ length)
    (size : length < 2 ^ 64) (ops : List Op) (met : Meets step Keeps (make length) ops) :
    Throughout step RepInv (make length) ops := by
  have start : Indexed (make length) :=
    ⟨make_sound room size, Nat.le_refl _, .inl (Nat.le_refl _),
      fun wrapped => absurd wrapped (Nat.lt_irrefl _)⟩
  exact (throughout_of_meets step_indexed start met).mono fun _ held => held.repInv

/-- The ring wraps, grows out of the miscomputed branch, wraps again and is
skipped across the end of its array. -/
def growingAround : List Op :=
  [.append [21, 22, 23, 24, 25, 26] (by decide) fun _ => 0, .skip 4,
    .append [27, 28, 29, 30] (by decide) fun _ => 0,
    .append [31, 32, 33, 34, 35] (by decide) fun _ => 255, .skip 10,
    .append [36, 37, 38, 39, 40, 41, 42, 43] (by decide) fun _ => 0, .skip 8]

theorem ring_keeps_representation_around :
    Meets step Keeps (make 12) growingAround ∧
      Throughout step RepInv (make 12) growingAround :=
  have met : Meets step Keeps (make 12) growingAround := by decide +kernel
  ⟨met, ring_keeps_representation 12 (by decide) (by decide) growingAround met⟩

/-- A skip to the very end of the array leaves the read index at zero; the
free size wraps to just under `2 ^ 64`. -/
def skippingToEnd : List Op :=
  [.append [1, 2, 3, 4, 5, 6, 7, 8] (by decide) fun _ => 0, .skip 4,
    .append [9, 10, 11, 12] (by decide) fun _ => 0, .skip 4]

theorem ring_loses_representation :
    padding ≤ 12 ∧ Meets step Available (make 12) skippingToEnd ∧
      (run step (make 12) skippingToEnd).map
        (fun b => (b.readindex, b.writeindex, b.readedSize, b.writedSize)) =
          some (0, 4, 4, 2 ^ 64 - 8) ∧
      ¬ Throughout step RepInv (make 12) skippingToEnd := by
  refine ⟨by decide, by decide +kernel, by decide +kernel, fun held => ?_⟩
  obtain ⟨b, ran, inv⟩ := held.final
  have stopped : (run step (make 12) skippingToEnd).map (·.readindex) = some 0 := by
    decide +kernel
  rw [ran] at stopped
  have zero : b.readindex = 0 := Option.some.inj stopped
  have guarded := inv.guarded
  rw [zero] at guarded
  exact absurd guarded (by decide)

end ExNetlink.BufferIndexRuns
