import Mathlib.Tactic.Common

/-! C strings in memory: what a function that is given a pointer takes for the
string, up to the first zero byte. -/
namespace ExNetlink.CStrings

/-- The bytes in front of the terminator. -/
def cString (memory : List UInt8) : List UInt8 := memory.takeWhile (· ≠ 0)

variable {memory rest : List UInt8}

theorem cString_append (clean : 0 ∉ memory) : cString (memory ++ rest) = memory ++ cString rest := by
  apply List.takeWhile_append_of_pos
  intro byte member
  rw [decide_eq_true_eq]
  rintro rfl
  exact clean member

theorem cString_whole (clean : 0 ∉ memory) : cString memory = memory := by
  have whole : cString (memory ++ []) = memory ++ cString [] := cString_append clean
  rwa [List.append_nil, cString, cString, List.takeWhile_nil, List.append_nil] at whole

/-- Zeros right behind it end the string. -/
theorem cString_terminated {room : Nat} (clean : 0 ∉ memory) (short : 0 < room) :
    cString (memory ++ List.replicate room 0 ++ rest) = memory := by
  obtain ⟨more, rfl⟩ : ∃ more, room = more + 1 := ⟨room - 1, by omega⟩
  have ends : cString (List.replicate (more + 1) 0 ++ rest) = [] := by
    simp [List.replicate_succ, cString]
  rw [List.append_assoc, cString_append clean, ends, List.append_nil]

/-- What comes after a terminator does not count. -/
theorem cString_front (ended : 0 ∈ memory) : cString (memory ++ rest) = cString memory := by
  obtain ⟨text, more, rfl, clean⟩ := List.eq_append_cons_of_mem ended
  rw [List.append_assoc, cString_append clean, cString_append clean]
  rfl

end ExNetlink.CStrings
