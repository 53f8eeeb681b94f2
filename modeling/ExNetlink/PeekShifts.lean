import ExNetlink.BufferPeek
import ExNetlink.BufferRuns

/-! The shifts that typed reads evaluate, over whole runs of the ring.

A shift is defined when its amount is smaller than the width of the shifted
type. The cut branch of `peek<T>` is for a value that the end of the array
cuts, but its test also sends there a value that ends with the array: then the
whole width of `T` is shifted, which is too much as soon as `T` is no narrower
than an `int`. -/
namespace ExNetlink.PeekShifts
open SizeArith Runs CirculationBuffer BufferPeek BufferRuns

/-- A call that changes the ring, or a typed read from it. -/
inductive Call where
  | change (op : Op)
  | peek (t : Width)

/-- The ring, and the shifts that typed reads have evaluated on it. -/
structure Shifting where
  ring : CirculationBuffer
  shifts : List (Width × Nat)

def start (length : Nat) : Shifting where
  ring := make length
  shifts := []

def step (s : Shifting) : Call → Option Shifting
  | .change op => (BufferRuns.step s.ring op).map fun ring => { s with ring := ring }
  | .peek t => (peek s.ring t).map fun _ =>
    { s with shifts := s.shifts ++ (peekShift s.ring t).toList.map fun amount => (t, amount) }

/-- No shift was by the width of its type or more. -/
def InRange (s : Shifting) : Prop := ∀ shift ∈ s.shifts, shift.2 < shift.1.promoted

instance : DecidablePred InRange := fun s =>
  inferInstanceAs (Decidable (∀ shift ∈ s.shifts, shift.2 < shift.1.promoted))

/-- The tail of a wrapped ring holds exactly the bytes of a value that is not
narrower than an `int`. -/
def EndsWithArray (b : CirculationBuffer) (t : Width) : Prop :=
  b.writeindex < b.readindex ∧ wsub b.length b.readindex = t.sizeof ∧ 4 ≤ t.sizeof

instance (b : CirculationBuffer) (t : Width) : Decidable (EndsWithArray b t) :=
  inferInstanceAs (Decidable (_ ∧ _))

/-- A value that is read does not end with the array. -/
def Suits (s : Shifting) : Call → Prop
  | .change _ => True
  | .peek t => ¬ EndsWithArray s.ring t

instance (s : Shifting) : DecidablePred (Suits s)
  | .change _ => isTrue trivial
  | .peek t => inferInstanceAs (Decidable (¬ EndsWithArray s.ring t))

theorem promoted_eq (t : Width) : t.promoted = if 4 ≤ t.sizeof then t.sizeof * 8 else 32 := by
  cases t <;> rfl

/-- A typed read shifts in range exactly when its value does not end with the
array. -/
theorem shift_lt_iff {b : CirculationBuffer} {t : Width} {v : Nat} (read : peek b t = some v) :
    (∀ amount, peekShift b t = some amount → amount < t.promoted) ↔ ¬ EndsWithArray b t := by
  have narrow := sizeof_le t
  rw [peekShift_eq read, promoted_eq]
  constructor
  · rintro within ⟨wrapped, exactly, wide⟩
    rw [if_pos ⟨wrapped, Nat.le_of_eq exactly⟩, if_pos wide] at within
    have short := within _ rfl
    omega
  · intro apart amount shifted
    split at shifted
    · rename_i cut
      obtain rfl := Option.some.inj shifted
      split
      · rename_i wide
        have other : wsub b.length b.readindex ≠ t.sizeof := fun same => apart ⟨cut.1, same, wide⟩
        omega
      · omega
    · contradiction

theorem inRange_peek {s : Shifting} {t : Width} (held : InRange s) :
    InRange { s with shifts := s.shifts ++ (peekShift s.ring t).toList.map fun amount => (t, amount) } ↔
      ∀ amount, peekShift s.ring t = some amount → amount < t.promoted := by
  constructor
  · intro within amount shifted
    exact within (t, amount) (by simp [shifted])
  · intro within shift member
    rcases List.mem_append.mp member with old | new
    · exact held shift old
    · obtain ⟨amount, shifted, rfl⟩ := List.mem_map.mp new
      exact within amount (by simpa using shifted)

/-- One call keeps the shifts in range exactly when it suits the ring. -/
theorem inRange_step_iff {s next : Shifting} {call : Call} (held : InRange s)
    (stepped : step s call = some next) : InRange next ↔ Suits s call := by
  cases call with
  | change op =>
    obtain ⟨ring, -, rfl⟩ := Option.map_eq_some_iff.mp stepped
    exact iff_of_true held trivial
  | peek t =>
    obtain ⟨v, read, rfl⟩ := Option.map_eq_some_iff.mp stepped
    exact (inRange_peek held).trans (shift_lt_iff read)

/-- In every run of appends, skips, clears and typed reads, all shifts are in
range exactly when no value of four or eight bytes that ends with the array of
a wrapped ring is read. -/
theorem shifts_in_range_iff (length : Nat) {calls : List Call} {final : Shifting}
    (ran : run step (start length) calls = some final) :
    Throughout step InRange (start length) calls ↔ Meets step Suits (start length) calls := by
  have begun : InRange (start length) := by simp [InRange, start]
  refine throughout_iff_meets_of_run ?_ ?_ (fun _ held => held) begun ran
  · intro s call next held suited stepped
    exact (inRange_step_iff held stepped).mpr suited
  · intro s call next held stepped kept
    exact (inRange_step_iff held stepped).mp kept

/-- Twelve bytes fill a ring of sixteen, all but the last four are skipped, and
two more go to the start of the array. -/
def wrapping : List Call :=
  [.change (.append (List.replicate 12 1) (by decide) fun _ => 0), .change (.skip 8),
    .change (.append [2, 2] (by decide) fun _ => 0)]

/-- One byte further on the value is really cut. -/
theorem shifts_in_range_cut :
    Throughout step InRange (start 16) (wrapping ++ [.change (.skip 1), .peek .uint32]) :=
  have ran : (run step (start 16) (wrapping ++ [.change (.skip 1), .peek .uint32])).isSome := by
    decide +kernel
  (shifts_in_range_iff 16 (Option.some_get ran).symm).mpr (by decide +kernel)

/-- The last four bytes of the array, read as one value: `r << 32`. -/
theorem shift_by_whole_width :
    (run step (start 16) (wrapping ++ [.peek .uint32])).map (fun s => (s.ring.readedSize, s.shifts)) =
        some (6, [(.uint32, 32)]) ∧
      ¬ Throughout step InRange (start 16) (wrapping ++ [.peek .uint32]) := by
  decide +kernel

end ExNetlink.PeekShifts
