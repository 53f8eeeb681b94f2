import ExNetlink.Runs
import Mathlib.Algebra.Group.Nat.Defs
import Mathlib.Data.List.Range

/-! `ZeroEvenOdd` of `set/atomic/main1.cpp`: three threads that print one
sequence and have only `flag` to agree on.

The output is `0, 1, 0, 2, …, 0, n`. Each number has a position in it, and with
the position go the thread whose turn it is and the value that `flag` has. What
is proved of the threads is that they never leave a common position: the
numbers printed, the flag and the three loop counters are functions of it. -/
namespace ExNetlink.ZeroEvenOdd
open Runs

/-- The thread that runs the member function of this name. -/
inductive Role where
  | zero | even | odd
  deriving DecidableEq, Repr

/-- The next thing a thread does. -/
inductive Place where
  /-- `i <= n`. -/
  | test
  /-- `while (flag != …) yield()`. -/
  | spin
  /-- `printNumber(…)`. -/
  | print
  /-- `flag = …`. -/
  | store
  /-- `++i` or `i += 2`. -/
  | advance
  | finished
  deriving DecidableEq, Repr

namespace Role

/-- The initial value of `i`. -/
def first : Role → Nat
  | zero => 1
  | even => 2
  | odd => 1

/-- What `i` grows by. -/
def stride : Role → Nat
  | zero => 1
  | even => 2
  | odd => 2

/-- The value of `flag` that ends the spinning. -/
def wanted : Role → Nat
  | zero => 0
  | even => 2
  | odd => 1

/-- The argument of `printNumber`. -/
def printed (i : Nat) : Role → Nat
  | zero => 0
  | even => i
  | odd => i

/-- The value stored in `flag`. -/
def stored (i : Nat) : Role → Nat
  | zero => if i % 2 = 0 then 2 else 1
  | even => 0
  | odd => 0

end Role

structure Thread where
  i : Nat
  place : Place
  deriving DecidableEq, Repr

structure State where
  threads : Role → Thread
  flag : Nat
  output : List Nat

/-- A thread at its new place. -/
def State.move (s : State) (role : Role) (place : Place) : State :=
  { s with threads := Function.update s.threads role { s.threads role with place := place } }

/-- The next action of a thread. A finished one has none, and neither has a
counter that would leave `int`. -/
def step (n : Nat) (s : State) (role : Role) : Option State :=
  let i := (s.threads role).i
  match (s.threads role).place with
  | .test => some (s.move role (if i ≤ n then .spin else .finished))
  | .spin => some (if s.flag ≠ role.wanted then s else s.move role .print)
  | .print => some { s.move role .store with output := s.output ++ [role.printed i] }
  | .store => some { s.move role .advance with flag := role.stored i }
  | .advance =>
    if i + role.stride < 2 ^ 31 then
      some { s with threads := Function.update s.threads role ⟨i + role.stride, .test⟩ }
    else none
  | .finished => none

def start : State where
  threads := fun role => ⟨role.first, .test⟩
  flag := 0
  output := []

/-- `0, 1, 0, 2, …, 0, n`. -/
def expected (n : Nat) : List Nat := (List.range n).flatMap fun k => [0, k + 1]

/-- No thread can do anything that changes the state. -/
def Stalled (n : Nat) (s : State) : Prop := ∀ role next, step n s role = some next → next = s

/-! ### Positions -/

/-- The number at a position. -/
def number (position : Nat) : Nat := if position % 2 = 0 then 0 else (position + 1) / 2

/-- Whose turn it is at a position. -/
def turn (position : Nat) : Role :=
  if position % 2 = 0 then .zero else if position % 4 = 1 then .odd else .even

/-- How many of the positions before have been a thread's turn. -/
def Role.turns (position : Nat) : Role → Nat
  | zero => (position + 1) / 2
  | even => position / 4
  | odd => (position + 2) / 4

theorem range_number (n : Nat) : (List.range (2 * n)).map number = expected n := by
  induction n with
  | zero => rfl
  | succ n ih =>
    have zero : number (2 * n) = 0 := by simp [number]
    have next : number (2 * n + 1) = n + 1 := by
      rw [number, if_neg (by omega)]
      omega
    rw [Nat.mul_succ, List.range_succ, List.range_succ, List.map_append, List.map_append, ih,
      expected, expected, List.range_succ, List.flatMap_append]
    simp [zero, next]

theorem wanted_injective {a b : Role} (same : a.wanted = b.wanted) : a = b := by
  cases a <;> cases b <;> first | rfl | contradiction

theorem turn_cases (j : Nat) : (turn j = .zero ∧ j % 2 = 0) ∨ (turn j = .odd ∧ j % 4 = 1) ∨
    (turn j = .even ∧ j % 4 = 3) := by
  unfold turn
  split
  · exact .inl ⟨rfl, by assumption⟩
  · split
    · exact .inr (.inl ⟨rfl, by assumption⟩)
    · exact .inr (.inr ⟨rfl, by omega⟩)

/-- A turn is one more for the thread that has it. -/
theorem turns_succ (j : Nat) (role : Role) :
    role.turns (j + 1) = role.turns j + if role = turn j then 1 else 0 := by
  rcases turn_cases j with ⟨here, place⟩ | ⟨here, place⟩ | ⟨here, place⟩
  all_goals
    rw [here]
    cases role <;> simp only [Role.turns, reduceCtorEq, if_true, if_false] <;> omega

/-- The counter of a thread that has had its turns before a position. -/
def Role.counter (role : Role) (j : Nat) : Nat := role.first + role.stride * role.turns j

theorem printed_turn (j : Nat) : (turn j).printed ((turn j).counter j) = number j := by
  rcases turn_cases j with ⟨here, place⟩ | ⟨here, place⟩ | ⟨here, place⟩
  · simp [here, place, Role.printed, number]
  · have odd : j % 2 ≠ 0 := by omega
    simp only [here, odd, Role.printed, Role.counter, Role.first, Role.stride, Role.turns, number,
      if_false]
    omega
  · have odd : j % 2 ≠ 0 := by omega
    simp only [here, odd, Role.printed, Role.counter, Role.first, Role.stride, Role.turns, number,
      if_false]
    omega

theorem stored_turn (j : Nat) : (turn j).stored ((turn j).counter j) = (turn (j + 1)).wanted := by
  rcases turn_cases j with ⟨here, place⟩ | ⟨here, place⟩ | ⟨here, place⟩
  · simp only [here, Role.stored, Role.counter, Role.first, Role.stride, Role.turns]
    rcases turn_cases (j + 1) with ⟨next, place⟩ | ⟨next, place⟩ | ⟨next, place⟩
    · omega
    · rw [next, if_neg (by omega)]
      rfl
    · rw [next, if_pos (by omega)]
      rfl
  · have next : turn (j + 1) = .zero := by simp [turn, show (j + 1) % 2 = 0 by omega]
    rw [here, next]
    rfl
  · have next : turn (j + 1) = .zero := by simp [turn, show (j + 1) % 2 = 0 by omega]
    rw [here, next]
    rfl

/-- The counter runs over `n` only behind the last position. -/
theorem counter_turn_le_iff (n j : Nat) : (turn j).counter j ≤ n ↔ j < 2 * n := by
  rcases turn_cases j with ⟨here, place⟩ | ⟨here, place⟩ | ⟨here, place⟩
  all_goals
    simp only [here, Role.counter, Role.first, Role.stride, Role.turns]
    omega

theorem lt_counter_last (n : Nat) (role : Role) : n < role.counter (2 * n) := by
  cases role <;> simp only [Role.counter, Role.first, Role.stride, Role.turns] <;> omega

/-! ### One step -/

/-- The counter after a step that is already due. -/
def Thread.upcoming (role : Role) (t : Thread) : Nat :=
  if t.place = .advance then t.i + role.stride else t.i

/-- The thread has its turn. -/
def Place.entered : Place → Prop
  | print | store => True
  | _ => False

/-- In the body of the loop, or behind it. -/
def Place.inside : Place → Prop
  | spin | print | store | advance => True
  | _ => False

/-- A thread when the turns before position `j` are over. -/
structure Fits (n j : Nat) (role : Role) (t : Thread) : Prop where
  counter : t.upcoming role = role.counter j
  entered : t.place.entered → role = turn j
  inside : t.place.inside → t.i ≤ n
  finished : t.place = .finished → n < t.i

/-- How many numbers have been printed. -/
def State.printed (s : State) (j : Nat) : Nat :=
  if (s.threads (turn j)).place = .store then j + 1 else j

/-- The threads are at position `j`. -/
structure Ordered (n : Nat) (s : State) (j : Nat) : Prop where
  flag : s.flag = (turn j).wanted
  threads : ∀ role, Fits n j role (s.threads role)
  bound : j ≤ 2 * n
  output : s.output = (List.range (s.printed j)).map number

variable {n j : Nat} {s next : State} {role : Role}

/-- Away from the print, the number of numbers does not depend on the thread. -/
theorem printed_update {t : Thread} (before : (s.threads role).place ≠ .store)
    (after : t.place ≠ .store) :
    State.printed { s with threads := Function.update s.threads role t } j = s.printed j := by
  by_cases same : turn j = role
  · simp [State.printed, same, before, after]
  · simp [State.printed, same]

/-- A thread goes on without printing or storing. -/
theorem Ordered.goes (held : Ordered n s j) {t : Thread} (before : (s.threads role).place ≠ .store)
    (after : t.place ≠ .store) (fits : Fits n j role t) :
    Ordered n { s with threads := Function.update s.threads role t } j where
  flag := held.flag
  threads := (Function.forall_update_iff s.threads (Fits n j)).mpr
    ⟨fits, fun other _ => held.threads other⟩
  bound := held.bound
  output := by
    rw [printed_update before after]
    exact held.output

theorem test_ordered (held : Ordered n s j) (here : (s.threads role).place = .test) :
    Ordered n (s.move role (if (s.threads role).i ≤ n then .spin else .finished)) j := by
  have counter : (s.threads role).i = role.counter j := by
    simpa [Thread.upcoming, here] using (held.threads role).counter
  split
  · rename_i within
    exact held.goes (by simp [here]) nofun ⟨counter, nofun, fun _ => within, nofun⟩
  · rename_i above
    exact held.goes (by simp [here]) nofun ⟨counter, nofun, nofun, fun _ => Nat.lt_of_not_le above⟩

theorem enter_ordered (held : Ordered n s j) (here : (s.threads role).place = .spin)
    (free : s.flag = role.wanted) : Ordered n (s.move role .print) j := by
  obtain ⟨counter, -, inside, -⟩ := held.threads role
  have mine : role = turn j := wanted_injective (free.symm.trans held.flag)
  refine held.goes (by simp [here]) nofun ⟨?_, fun _ => mine, fun _ => inside ?_, nofun⟩
  · simpa [Thread.upcoming, here] using counter
  · simp [here, Place.inside]

theorem print_ordered (held : Ordered n s j) (here : (s.threads role).place = .print) :
    Ordered n { s.move role .store with
      output := s.output ++ [role.printed (s.threads role).i] } j := by
  obtain ⟨counter, entered, inside, -⟩ := held.threads role
  obtain rfl : role = turn j := entered (by simp [here, Place.entered])
  have current : (s.threads (turn j)).i = (turn j).counter j := by
    simpa [Thread.upcoming, here] using counter
  have fits : Fits n j (turn j) { s.threads (turn j) with place := .store } :=
    ⟨current, fun _ => rfl, fun _ => inside (by simp [here, Place.inside]), nofun⟩
  refine ⟨held.flag, ?_, held.bound, ?_⟩
  · exact (Function.forall_update_iff s.threads (Fits n j)).mpr
      ⟨fits, fun other _ => held.threads other⟩
  · have before : s.printed j = j := by simp [State.printed, here]
    have after : (s.move (turn j) .store).printed j = j + 1 := by simp [State.printed, State.move]
    change s.output ++ _ = (List.range ((s.move (turn j) .store).printed j)).map number
    rw [after, List.range_succ, List.map_append, held.output, before, current, printed_turn]
    rfl

/-- The store passes the turn on. -/
theorem store_ordered (held : Ordered n s j) (here : (s.threads role).place = .store) :
    Ordered n { s.move role .advance with flag := role.stored (s.threads role).i } (j + 1) := by
  obtain ⟨counter, entered, inside, -⟩ := held.threads role
  obtain rfl : role = turn j := entered (by simp [here, Place.entered])
  have current : (s.threads (turn j)).i = (turn j).counter j := by
    simpa [Thread.upcoming, here] using counter
  have within : (s.threads (turn j)).i ≤ n := inside (by simp [here, Place.inside])
  have others : ∀ other, other ≠ turn j → ¬ (s.threads other).place.entered := fun other different
    entered => different ((held.threads other).entered entered)
  refine ⟨?_, ?_, ?_, ?_⟩
  · change (turn j).stored (s.threads (turn j)).i = _
    rw [current, stored_turn]
  · refine (Function.forall_update_iff s.threads (Fits n (j + 1))).mpr ⟨?_, fun other different => ?_⟩
    · refine ⟨?_, nofun, fun _ => within, nofun⟩
      simp [Thread.upcoming, current, Role.counter, turns_succ, Nat.mul_add, Nat.add_assoc]
    · obtain ⟨counter, -, inside, finished⟩ := held.threads other
      refine ⟨?_, fun entered => absurd entered (others other different), inside, finished⟩
      rw [counter, Role.counter, Role.counter, turns_succ, if_neg different, Nat.add_zero]
  · exact (counter_turn_le_iff n j).mp (current ▸ within)
  · have before : s.printed j = j + 1 := by simp [State.printed, here]
    have after : (s.move (turn j) .advance).printed (j + 1) = j + 1 := by
      have passed : ((s.move (turn j) .advance).threads (turn (j + 1))).place ≠ .store := by
        by_cases same : turn (j + 1) = turn j
        · simp [State.move, same]
        · intro stored
          refine others _ same ?_
          simp only [State.move, Function.update_of_ne same] at stored
          simp [stored, Place.entered]
      simp [State.printed, passed]
    change s.output = (List.range ((s.move (turn j) .advance).printed (j + 1))).map number
    rw [after, held.output, before]

theorem advance_ordered (held : Ordered n s j) (here : (s.threads role).place = .advance) :
    Ordered n { s with
      threads := Function.update s.threads role ⟨(s.threads role).i + role.stride, .test⟩ } j := by
  refine held.goes (by simp [here]) nofun ⟨?_, nofun, nofun, nofun⟩
  simpa [Thread.upcoming, here] using (held.threads role).counter

/-- A step keeps the threads together, at the same position or at the next one. -/
theorem ordered_step (held : Ordered n s j) (stepped : step n s role = some next) :
    ∃ k, Ordered n next k := by
  unfold step at stepped
  split at stepped
  · cases stepped
    exact ⟨j, test_ordered held (by assumption)⟩
  · cases stepped
    split
    · exact ⟨j, held⟩
    · rename_i here free
      exact ⟨j, enter_ordered held here (not_not.mp free)⟩
  · cases stepped
    exact ⟨j, print_ordered held (by assumption)⟩
  · cases stepped
    exact ⟨j + 1, store_ordered held (by assumption)⟩
  · obtain ⟨-, rfl⟩ := guarded_eq_some.mp stepped
    exact ⟨j, advance_ordered held (by assumption)⟩
  · contradiction

/-! ### Whole schedules -/

theorem ordered_start (n : Nat) : Ordered n start 0 where
  flag := rfl
  threads := by
    intro role
    refine ⟨?_, nofun, nofun, nofun⟩
    cases role <;> rfl
  bound := Nat.zero_le _
  output := rfl

theorem ordered_run {schedule : List Role} (ran : run (step n) start schedule = some s) :
    ∃ j, Ordered n s j := by
  have kept : ∀ s role next, (∃ j, Ordered n s j) → step n s role = some next →
      ∃ j, Ordered n next j := by
    rintro s role next ⟨j, held⟩ stepped
    exact ordered_step held stepped
  exact run_keeps kept ⟨0, ordered_start n⟩ ran

theorem Ordered.printed_le (held : Ordered n s j) : s.printed j ≤ 2 * n := by
  unfold State.printed
  split
  · rename_i here
    obtain ⟨counter, -, inside, -⟩ := held.threads (turn j)
    have current : (s.threads (turn j)).i = (turn j).counter j := by
      simpa [Thread.upcoming, here] using counter
    exact (counter_turn_le_iff n j).mp (current ▸ inside (by simp [here, Place.inside]))
  · exact held.bound

theorem Ordered.output_prefix (held : Ordered n s j) : s.output <+: expected n := by
  have taken : List.range (s.printed j) = (List.range (2 * n)).take (s.printed j) := by
    rw [List.take_range, Nat.min_eq_left held.printed_le]
  rw [held.output, taken, List.map_take, range_number]
  exact List.take_prefix _ _

/-- No counter leaves `int`: every thread that has not finished has a next action. -/
theorem Ordered.enabled (small : n < 2 ^ 31 - 2) (held : Ordered n s j)
    (unfinished : (s.threads role).place ≠ .finished) : (step n s role).isSome := by
  unfold step
  cases here : (s.threads role).place with
  | test | spin | print | store => rfl
  | advance =>
    have within := (held.threads role).inside (by simp [here, Place.inside])
    have stride : role.stride ≤ 2 := by cases role <;> decide
    have valid : (s.threads role).i + role.stride < 2 ^ 31 := by omega
    dsimp only
    rw [if_pos valid]
    rfl
  | finished => exact absurd here unfinished

/-- A thread that acts is somewhere else afterwards, unless it waits for the flag. -/
theorem step_moves (stepped : step n s role = some next) :
    (next.threads role).place ≠ (s.threads role).place ∨
      (s.threads role).place = .spin ∧ s.flag ≠ role.wanted := by
  unfold step at stepped
  cases here : (s.threads role).place with
  | test =>
    rw [here] at stepped
    cases stepped
    left
    simp only [State.move, Function.update_self]
    split <;> nofun
  | spin =>
    rw [here] at stepped
    cases stepped
    split
    · exact .inr ⟨rfl, by assumption⟩
    · left
      simp [State.move]
  | print =>
    rw [here] at stepped
    cases stepped
    left
    simp [State.move]
  | store =>
    rw [here] at stepped
    cases stepped
    left
    simp [State.move]
  | advance =>
    rw [here] at stepped
    obtain ⟨-, rfl⟩ := guarded_eq_some.mp stepped
    left
    simp
  | finished =>
    rw [here] at stepped
    cases stepped

/-- Where nothing goes on, every thread has finished or waits for the flag. -/
theorem stalled_place (small : n < 2 ^ 31 - 2) (held : Ordered n s j) (stalled : Stalled n s)
    (role : Role) : (s.threads role).place = .finished ∨
      (s.threads role).place = .spin ∧ s.flag ≠ role.wanted := by
  by_cases unfinished : (s.threads role).place = .finished
  · exact .inl unfinished
  · obtain ⟨next, stepped⟩ := Option.isSome_iff_exists.mp (held.enabled small unfinished)
    have moved := step_moves stepped
    rw [stalled role next stepped] at moved
    exact .inr (moved.resolve_left fun elsewhere => elsewhere rfl)

/-- The thread whose turn it is has finished, so the position is the last one,
and no counter is left within `n`. -/
theorem Ordered.complete (small : n < 2 ^ 31 - 2) (held : Ordered n s j) (stalled : Stalled n s) :
    (∀ role, (s.threads role).place = .finished) ∧ s.output = expected n := by
  have ended : (s.threads (turn j)).place = .finished :=
    (stalled_place small held stalled (turn j)).resolve_right fun waiting => waiting.2 held.flag
  have last : j = 2 * n := by
    have current := (held.threads (turn j)).counter
    have above := (held.threads (turn j)).finished ended
    simp only [Thread.upcoming, ended, reduceCtorEq, if_false] at current
    have behind := (counter_turn_le_iff n j).not.mp (by omega)
    have bound := held.bound
    omega
  subst last
  constructor
  · intro role
    refine (stalled_place small held stalled role).resolve_right fun waiting => ?_
    have within := (held.threads role).inside (by simp [waiting.1, Place.inside])
    have current := (held.threads role).counter
    simp only [Thread.upcoming, waiting.1, reduceCtorEq, if_false] at current
    have above := lt_counter_last n role
    omega
  · have printed : s.printed (2 * n) = 2 * n := by simp [State.printed, ended]
    rw [held.output, printed, range_number]

/-- Under every schedule: what has been printed is the beginning of
`0, 1, 0, 2, …, 0, n`, no counter overflows, and nothing can go on only when all
three threads have finished and everything is printed. -/
theorem prints_in_order {n : Nat} (small : n < 2 ^ 31 - 2) {schedule : List Role} {s : State}
    (ran : run (step n) start schedule = some s) :
    s.output <+: expected n ∧
      (∀ role, (s.threads role).place ≠ .finished → (step n s role).isSome) ∧
      (Stalled n s ↔ (∀ role, (s.threads role).place = .finished) ∧ s.output = expected n) := by
  obtain ⟨j, held⟩ := ordered_run ran
  refine ⟨held.output_prefix, fun role => held.enabled small, held.complete small, ?_⟩
  rintro ⟨ended, -⟩ role next stepped
  simp [step, ended role] at stepped

/-- Two numbers, with a spinning thread in between. -/
theorem prints_in_order_one :
    ∃ s, run (step 1) start [.odd, .zero, .odd, .zero, .zero, .zero, .odd, .odd] = some s ∧
      s.output = [0, 1] ∧ s.output <+: expected 1 :=
  ⟨_, rfl, rfl, (@prints_in_order 1 (by decide)
    [.odd, .zero, .odd, .zero, .zero, .zero, .odd, .odd] _ rfl).1⟩

end ExNetlink.ZeroEvenOdd
