import Mathlib.Data.List.Basic
import Mathlib.Tactic.Common

/-! Cells of a flat array, read and written a window at a time.

An array is a list of cells. `window` reads consecutive cells and `overwrite`
replaces them; `copyN` is a bounds-checked copy between two arrays, or inside
one array, whose source cells are all read before the first one is written.
Everything is over an arbitrary cell type. -/
namespace ExNetlink.Windows

/-- The `count` cells from position `start` on. -/
def window (cells : List α) (start count : Nat) : List α := (cells.drop start).take count

/-- The array with `data` laid over the cells from position `start` on. -/
def overwrite (cells : List α) (start : Nat) (data : List α) : List α :=
  cells.take start ++ data ++ cells.drop (start + data.length)

/-- Copy `count` cells from position `origin` of `source` to position `start`
of `target`. Touching a cell outside either array has no result. -/
def copyN (source : List α) (origin count : Nat) (target : List α) (start : Nat) :
    Option (List α) :=
  if origin + count ≤ source.length ∧ start + count ≤ target.length then
    some (overwrite target start (window source origin count))
  else none

/-- Read `count` cells from position `start` on, all of them inside the array. -/
def load (cells : List α) (start count : Nat) : Option (List α) :=
  if start + count ≤ cells.length then some (window cells start count) else none

theorem load_eq (inside : start + count ≤ cells.length) :
    load cells start count = some (window cells start count) := if_pos inside

theorem window_getElem? (cells : List α) (start count index : Nat) :
    (window cells start count)[index]? = if index < count then cells[start + index]? else none := by
  simp [window, List.getElem?_take]

/-- Windows of one size are equal when their cells are. -/
theorem window_eq_iff {cells others : List α} {start origin count : Nat} :
    window cells start count = window others origin count ↔
      ∀ index < count, cells[start + index]? = others[origin + index]? := by
  constructor
  · intro same index within
    have cell := congrArg (·[index]?) same
    simpa only [window_getElem?, if_pos within] using cell
  · intro same
    apply List.ext_getElem?
    intro index
    rw [window_getElem?, window_getElem?]
    split
    · rename_i within
      exact same index within
    · rfl

@[simp] theorem window_zero (cells : List α) (start : Nat) : window cells start 0 = [] := by
  simp [window]

theorem window_length (inside : start + count ≤ cells.length) :
    (window cells start count).length = count := by
  simp only [window, List.length_take, List.length_drop]
  omega

theorem window_all (cells : List α) : window cells 0 cells.length = cells := by
  simp [window]

/-- Two adjacent windows are one. -/
theorem window_split (cells : List α) (start first second : Nat) :
    window cells start (first + second) =
      window cells start first ++ window cells (start + first) second := by
  simp [window, List.take_add, List.drop_drop]

theorem window_drop (cells : List α) (start count skipped : Nat) :
    (window cells start count).drop skipped =
      window cells (start + skipped) (count - skipped) := by
  simp [window, List.drop_take, List.drop_drop]

theorem window_take (cells : List α) (start count kept : Nat) (within : kept ≤ count) :
    (window cells start count).take kept = window cells start kept := by
  simp [window, List.take_take, Nat.min_eq_left within]

theorem overwrite_length (inside : start + data.length ≤ cells.length) :
    (overwrite cells start data).length = cells.length := by
  simp only [overwrite, List.length_append, List.length_take, List.length_drop]
  omega

theorem overwrite_getElem? (inside : start + data.length ≤ cells.length) (index : Nat) :
    (overwrite cells start data)[index]? =
      if start ≤ index ∧ index < start + data.length then data[index - start]?
      else cells[index]? := by
  have lead : (cells.take start).length = start := by
    rw [List.length_take]
    omega
  by_cases before : index < start
  · have outside : ¬ (start ≤ index ∧ index < start + data.length) := by omega
    rw [if_neg outside, overwrite, List.append_assoc,
      List.getElem?_append_left (by omega), List.getElem?_take, if_pos before]
  · by_cases within : index < start + data.length
    · rw [if_pos ⟨by omega, within⟩, overwrite, List.append_assoc,
        List.getElem?_append_right (by omega), List.getElem?_append_left (by omega), lead]
    · have outside : ¬ (start ≤ index ∧ index < start + data.length) := by omega
      rw [if_neg outside, overwrite, List.getElem?_append_right (by simp; omega),
        List.getElem?_drop]
      congr 1
      simp only [List.length_append, lead]
      omega

/-- The overwritten cells are the new data. -/
theorem window_overwrite_self (inside : start + data.length ≤ cells.length) :
    window (overwrite cells start data) start data.length = data := by
  apply List.ext_getElem?
  intro index
  rw [window_getElem?, overwrite_getElem? inside]
  by_cases within : index < data.length
  · have hit : start ≤ start + index ∧ start + index < start + data.length := by omega
    rw [if_pos within, if_pos hit, Nat.add_sub_cancel_left]
  · rw [if_neg within, List.getElem?_eq_none (by omega)]

/-- A window inside data laid over the front of an array is a window of the
data. -/
theorem window_overwrite_front (inside : data.length ≤ cells.length)
    (within : offset + count ≤ data.length) :
    window (overwrite cells 0 data) offset count = window data offset count := by
  apply window_eq_iff.mpr
  intro index bound
  rw [overwrite_getElem? (by omega), if_pos (by omega), Nat.sub_zero]

/-- A window of a window. -/
theorem window_window (within : offset + size ≤ count) (cells : List α) (start : Nat) :
    window (window cells start count) offset size = window cells (start + offset) size := by
  apply window_eq_iff.mpr
  intro index bound
  rw [window_getElem?, if_pos (by omega), Nat.add_assoc]

/-- A window that stays clear of the overwritten cells is unchanged. -/
theorem window_overwrite_clear (inside : start + data.length ≤ cells.length)
    (clear : origin + count ≤ start ∨ start + data.length ≤ origin) :
    window (overwrite cells start data) origin count = window cells origin count := by
  apply List.ext_getElem?
  intro index
  rw [window_getElem?, window_getElem?, overwrite_getElem? inside]
  by_cases within : index < count
  · have outside : ¬ (start ≤ origin + index ∧ origin + index < start + data.length) := by omega
    rw [if_pos within, if_pos within, if_neg outside]
  · rw [if_neg within, if_neg within]

/-- A window that runs up to the end of the overwritten cells ends in the new
data. -/
theorem window_overwrite_extend (inside : start + data.length ≤ cells.length)
    (before : origin ≤ start) :
    window (overwrite cells start data) origin (start + data.length - origin) =
      window cells origin (start - origin) ++ data := by
  have span : start + data.length - origin = (start - origin) + data.length := by omega
  have meet : origin + (start - origin) = start := by omega
  rw [span, window_split, meet, window_overwrite_clear inside (by omega),
    window_overwrite_self inside]

/-- Data laid over separate cells may be laid in either order. -/
theorem overwrite_comm {cells front back : List α} {low high : Nat}
    (separate : low + front.length ≤ high) (inside : high + back.length ≤ cells.length) :
    overwrite (overwrite cells high back) low front =
      overwrite (overwrite cells low front) high back := by
  have lowInside : low + front.length ≤ cells.length := by omega
  apply List.ext_getElem?
  intro index
  rw [overwrite_getElem? (by rw [overwrite_length inside]; omega), overwrite_getElem? inside,
    overwrite_getElem? (by rw [overwrite_length lowInside]; omega), overwrite_getElem? lowInside]
  by_cases inLow : low ≤ index ∧ index < low + front.length
  · rw [if_pos inLow, if_neg (by omega), if_pos inLow]
  · rw [if_neg inLow, if_neg inLow]

theorem copyN_eq (readable : origin + count ≤ source.length)
    (writable : start + count ≤ target.length) :
    copyN source origin count target start =
      some (overwrite target start (window source origin count)) := by
  rw [copyN, if_pos ⟨readable, writable⟩]

/-- Copying a whole array lays it over the target. -/
theorem copyN_whole (writable : start + data.length ≤ target.length) :
    copyN data 0 data.length target start = some (overwrite target start data) := by
  rw [copyN_eq (by omega) writable, window_all]

theorem copyN_none (escapes : source.length < origin + count ∨ target.length < start + count) :
    copyN source origin count target start = none := by
  rw [copyN, if_neg (by omega)]

end ExNetlink.Windows
