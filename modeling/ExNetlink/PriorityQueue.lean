import Mathlib.Data.List.Sort
import Mathlib.Data.Multiset.AddSub
import Mathlib.Tactic.Common

/-! Priority queues with a least key on top.

A queue is known through the multiset of its elements. What `top` yields among
equal keys is not specified, and may differ from one queue with the same
elements to another. A sorted list is one such queue. -/
namespace ExNetlink

/-- The operations of a priority queue and what they do to its elements. -/
structure PriorityQueue (α : Type) (key : α → Nat) where
  Queue : Type
  empty : Queue
  emplace : Queue → α → Queue
  /-- Nothing when the queue is empty. -/
  top : Queue → Option α
  pop : Queue → Queue
  elements : Queue → Multiset α
  elements_empty : elements empty = 0
  elements_emplace : ∀ q x, elements (emplace q x) = x ::ₘ elements q
  elements_of_none : ∀ q, top q = none → elements q = 0
  elements_pop : ∀ q x, top q = some x → elements q = x ::ₘ elements (pop q)
  top_least : ∀ q x, top q = some x → ∀ y ∈ elements q, key x ≤ key y

namespace PriorityQueue

variable {α : Type} {key : α → Nat}

/-- Lists in the order of their keys, least first. -/
def sortedList (key : α → Nat) : PriorityQueue α key where
  Queue := { xs : List α // xs.Pairwise fun a b => key a ≤ key b }
  empty := ⟨[], List.Pairwise.nil⟩
  emplace q x := ⟨q.1.orderedInsert (fun a b => key a ≤ key b) x, by
    have : Std.Total fun a b : α => key a ≤ key b := ⟨fun a b => Nat.le_total (key a) (key b)⟩
    have : IsTrans α fun a b => key a ≤ key b := ⟨fun _ _ _ => Nat.le_trans⟩
    exact List.Pairwise.orderedInsert _ _ q.2⟩
  top q := q.1.head?
  pop q := ⟨q.1.tail, q.2.tail⟩
  elements q := q.1
  elements_empty := rfl
  elements_emplace q x := Multiset.coe_eq_coe.mpr (List.perm_orderedInsert _ _ _)
  elements_of_none q none := by
    rw [List.head?_eq_none_iff.mp none]
    rfl
  elements_pop q x first := by
    obtain ⟨rest, shape⟩ := List.head?_eq_some_iff.mp first
    simp [shape]
  top_least q x first y member := by
    obtain ⟨rest, shape⟩ := List.head?_eq_some_iff.mp first
    have sorted := q.2
    rw [Multiset.mem_coe, shape] at member
    rw [shape, List.pairwise_cons] at sorted
    rcases List.mem_cons.mp member with rfl | later
    · exact Nat.le_refl _
    · exact sorted.1 y later

end PriorityQueue
end ExNetlink
