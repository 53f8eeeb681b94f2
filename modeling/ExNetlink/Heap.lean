import Mathlib.Logic.Function.Basic
import ExNetlink.Windows

/-! A heap of blocks of cells.

A block is named when it is allocated, and no name is given out twice. Reading
or writing outside a block, or in one that has been freed, has no result, and
neither has freeing a block twice. The cell type is arbitrary. -/
namespace ExNetlink
open Windows

/-- The blocks that are allocated and not freed, and the next name. -/
structure Heap (α : Type*) where
  blocks : Nat → Option (List α)
  next : Nat

namespace Heap
variable {α : Type*} {h after : Heap α} {block other : Nat} {cells data : List α}

def empty : Heap α where
  blocks := fun _ => none
  next := 0

/-- A new block of the given cells, and its name. -/
def malloc (h : Heap α) (cells : List α) : Heap α × Nat :=
  ({ blocks := Function.update h.blocks h.next (some cells), next := h.next + 1 }, h.next)

def free (h : Heap α) (block : Nat) : Option (Heap α) :=
  (h.blocks block).map fun _ => { h with blocks := Function.update h.blocks block none }

/-- `count` cells of a block from position `start` on. -/
def read (h : Heap α) (block start count : Nat) : Option (List α) :=
  (h.blocks block).bind fun cells => load cells start count

/-- The heap with `data` written to a block from position `start` on. -/
def write (h : Heap α) (block start : Nat) (data : List α) : Option (Heap α) :=
  (h.blocks block).bind fun cells =>
    (copyN data 0 data.length cells start).map fun cells =>
      { h with blocks := Function.update h.blocks block (some cells) }

theorem malloc_self (h : Heap α) (cells : List α) : (h.malloc cells).1.blocks h.next = some cells :=
  Function.update_self ..

/-- Blocks with earlier names are untouched. -/
theorem malloc_other (older : block < h.next) : (h.malloc cells).1.blocks block = h.blocks block :=
  Function.update_of_ne (Nat.ne_of_lt older) ..

theorem read_eq (known : h.blocks block = some cells) (inside : start + count ≤ cells.length) :
    h.read block start count = some (window cells start count) := by
  rw [read, known, Option.bind_some, load_eq inside]

theorem write_eq (known : h.blocks block = some cells) (inside : start + data.length ≤ cells.length) :
    h.write block start data =
      some { h with blocks := Function.update h.blocks block (some (overwrite cells start data)) } := by
  rw [write, known, Option.bind_some, copyN_whole inside, Option.map_some]

/-- Filling a new block is allocating it filled. -/
theorem write_malloc (width : data.length = cells.length) :
    (h.malloc cells).1.write h.next 0 data = some (h.malloc data).1 := by
  have whole : overwrite cells 0 data = data := by simp [overwrite, width]
  rw [write_eq (malloc_self h cells) (by omega), whole]
  simp [malloc]

theorem write_eq_some (known : h.blocks block = some cells)
    (written : h.write block start data = some after) :
    start + data.length ≤ cells.length ∧
      after.blocks block = some (overwrite cells start data) := by
  by_cases inside : start + data.length ≤ cells.length
  · rw [write_eq known inside] at written
    cases written
    exact ⟨inside, Function.update_self ..⟩
  · rw [write, known, Option.bind_some, copyN_none (.inr (by omega))] at written
    contradiction

/-- A freed block cannot be written, not even at its end. -/
theorem write_freed (gone : h.blocks block = none) : h.write block start data = none := by
  rw [write, gone, Option.bind_none]

theorem free_gone (freed : h.free block = some after) : after.blocks block = none := by
  obtain ⟨-, -, rfl⟩ := Option.map_eq_some_iff.mp freed
  exact Function.update_self ..

/-- Writing nothing changes nothing. -/
theorem write_nil (known : h.blocks block = some cells) (inside : start ≤ cells.length) :
    h.write block start [] = some h := by
  have same : overwrite cells start [] = cells := by simp [overwrite]
  rw [write_eq known (by simpa using inside), same, ← known, Function.update_eq_self]

/-- The blocks that are there after an allocation. -/
theorem malloc_live (h : Heap α) (cells : List α) (block : Nat) :
    ((h.malloc cells).1.blocks block).isSome ↔ block = h.next ∨ (h.blocks block).isSome := by
  by_cases this : block = h.next
  · simp [malloc, this]
  · simp [malloc, this]

/-- The blocks that are left after one is freed. -/
theorem free_live (freed : h.free block = some after) (other : Nat) :
    (after.blocks other).isSome ↔ (h.blocks other).isSome ∧ block ≠ other := by
  obtain ⟨-, -, rfl⟩ := Option.map_eq_some_iff.mp freed
  by_cases this : other = block
  · simp [this]
  · simp [this, Ne.symm this]

theorem free_next (freed : h.free block = some after) : after.next = h.next := by
  obtain ⟨-, -, rfl⟩ := Option.map_eq_some_iff.mp freed
  rfl

/-- Writing changes no more than what a block holds. -/
theorem write_live {start : Nat} (written : h.write block start data = some after) :
    (∀ other, (after.blocks other).isSome ↔ (h.blocks other).isSome) ∧ after.next = h.next := by
  obtain ⟨cells, known, written⟩ := Option.bind_eq_some_iff.mp written
  obtain ⟨changed, -, rfl⟩ := Option.map_eq_some_iff.mp written
  refine ⟨fun other => ?_, rfl⟩
  by_cases this : other = block
  · simp [this, known]
  · simp [this]

end Heap
end ExNetlink
