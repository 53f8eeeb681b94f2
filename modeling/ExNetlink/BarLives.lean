import ExNetlink.BarString
import ExNetlink.Owners

/-! The lives of `Bar`s: construction, copies, moves, appends and destruction.

The destructor of a `Bar` frees the block it points to. The move constructor
copies the pointer and leaves it in the `Bar` it moved from, so that both point
to one block, and the second of them to be destroyed frees it again. The copy
constructor makes a block of its own. An append that has to grow writes to a
block that it has just freed, so that an append with a result leaves the block
where it is. The copy assignment is left out: it flows off its end without
returning the reference it promises. -/
namespace ExNetlink.BarLives
open Owners Runs BarString

/-- The heap and the `Bar`s that are alive, by name. -/
structure Memory where
  heap : Heap Cell := .empty
  bars : Nat → Option Bar := fun _ => none

inductive Op where
  | ofBytes (x : Nat) (str : Bytes)
  | ofCString (x : Nat) (str : CString)
  | ofCapacity (x capacity : Nat)
  /-- `Bar x(y)`. -/
  | copy (x y : Nat)
  /-- `Bar x(std::move(y))`. -/
  | move (x y : Nat)
  | appendChar (x : Nat) (c : UInt8)
  | append (x : Nat) (str : Bytes)
  | appendCString (x : Nat) (str : CString)
  | appendBar (x other : Nat)
  /-- `append(const std::string&)`. -/
  | appendString (x : Nat) (other : Bytes)
  | destroy (x : Nat)

def Memory.set (s : Memory) (x : Nat) (bar : Option Bar) : Memory :=
  { s with bars := Function.update s.bars x bar }

/-- A new `Bar` of the name `x`. -/
def Memory.construct (s : Memory) (x : Nat) (built : Option (Heap Cell × Bar)) : Option Memory :=
  if s.bars x = none then
    built.map fun (heap, bar) => { s with heap := heap }.set x (some bar)
  else none

/-- A call on the `Bar` of the name `x`. -/
def Memory.extend (s : Memory) (x : Nat) (call : Heap Cell → Bar → Option (Heap Cell × Bar)) :
    Option Memory := do
  let bar ← s.bars x
  let (heap, bar) ← call s.heap bar
  some ({ s with heap := heap }.set x (some bar))

/-- The state after a call. There is none when a name is not alive, or alive
already, and where the program has no defined behaviour. -/
def step (s : Memory) : Op → Option Memory
  | .ofBytes x str => s.construct x (ofBytes s.heap (.memory str.bytes) str.bytes.length)
  | .ofCString x str => s.construct x (ofBytes s.heap (.memory str.memory) (strlen str))
  | .ofCapacity x capacity => s.construct x (some (ofCapacity s.heap capacity))
  | .copy x y => do
    let other ← s.bars y
    s.construct x (ofBytes s.heap (.block other.data) other.len)
  | .move x y => do
    let other ← s.bars y
    s.construct x (some (s.heap, other))
  | .appendChar x c => s.extend x fun heap bar => appendChar heap bar c
  | .append x str =>
    s.extend x fun heap bar => append heap bar (.memory str.bytes) str.bytes.length
  | .appendCString x str =>
    s.extend x fun heap bar => append heap bar (.memory str.memory) (strlen str)
  | .appendBar x other => do
    let source ← s.bars other
    s.extend x fun heap bar => append heap bar (.block source.data) source.len
  | .appendString x str =>
    s.extend x fun heap bar => append heap bar (.memory str.bytes) str.bytes.length
  | .destroy x => do
    let bar ← s.bars x
    let heap ← s.heap.free bar.data
    some ({ s with heap := heap }.set x none)

/-- The block a `Bar` points to. -/
def Memory.holds (s : Memory) (x : Nat) : Option Nat := (s.bars x).map Bar.data

def Memory.Live (s : Memory) (block : Nat) : Prop := (s.heap.blocks block).isSome

/-! ### One call -/

variable {s next : Memory} {x y : Nat} {heap after : Heap Cell} {bar changed : Bar}

theorem holds_set (s : Memory) (x : Nat) (bar : Option Bar) :
    (s.set x bar).holds = Function.update s.holds x (bar.map Bar.data) := by
  funext z
  by_cases this : z = x
  · subst this
    simp [Memory.holds, Memory.set]
  · simp [Memory.holds, Memory.set, this]

/-- A new `Bar` has a new block. -/
structure Gives (heap after : Heap Cell) (bar : Bar) : Prop where
  data : bar.data = heap.next
  live : ∀ block, (after.blocks block).isSome ↔ block = heap.next ∨ (heap.blocks block).isSome
  next : after.next = heap.next + 1

theorem ofCapacity_gives (heap : Heap Cell) (capacity : Nat) :
    Gives heap (ofCapacity heap capacity).1 (ofCapacity heap capacity).2 :=
  ⟨rfl, heap.malloc_live _, rfl⟩

theorem ofBytes_gives {str : Source} {len : Nat} (built : ofBytes heap str len = some (after, bar)) :
    Gives heap after bar := by
  obtain ⟨cells, -, built⟩ := Option.bind_eq_some_iff.mp built
  obtain ⟨filled, written, built⟩ := Option.bind_eq_some_iff.mp built
  cases built
  obtain ⟨live, next⟩ := Heap.write_live written
  exact ⟨rfl, fun block => (live block).trans (heap.malloc_live _ block), next⟩

/-- A call that leaves every block where it is. -/
structure Stays (heap after : Heap Cell) (bar changed : Bar) : Prop where
  data : changed.data = bar.data
  live : ∀ block, (after.blocks block).isSome ↔ (heap.blocks block).isSome
  next : after.next = heap.next

/-- Both ways to append: growing first leaves a pointer to what has been freed,
and nothing can be written there. -/
theorem stays_of_write {short : Prop} [Decidable short] {capacity start : Nat} {cells : List Cell}
    {middle : Heap Cell} {grown : Bar} (room : growIf short heap bar capacity = some (middle, grown))
    (written : middle.write grown.data start cells = some after) :
    Stays heap after bar grown := by
  rw [growIf] at room
  split at room
  · rw [Heap.write_freed (grow_spec room).2] at written
    cases written
  · cases room
    obtain ⟨live, next⟩ := Heap.write_live written
    exact ⟨rfl, live, next⟩

theorem appendChar_stays {c : UInt8} (called : appendChar heap bar c = some (after, changed)) :
    Stays heap after bar changed := by
  obtain ⟨⟨middle, grown⟩, room, called⟩ := Option.bind_eq_some_iff.mp called
  obtain ⟨final, written, called⟩ := Option.bind_eq_some_iff.mp called
  cases called
  have stays := stays_of_write room written
  exact ⟨stays.data, stays.live, stays.next⟩

theorem append_stays {str : Source} {len : Nat}
    (called : append heap bar str len = some (after, changed)) : Stays heap after bar changed := by
  obtain ⟨⟨middle, grown⟩, room, called⟩ := Option.bind_eq_some_iff.mp called
  obtain ⟨cells, -, called⟩ := Option.bind_eq_some_iff.mp called
  obtain ⟨final, written, called⟩ := Option.bind_eq_some_iff.mp called
  cases called
  exact stays_of_write room written

/-- Everything a call can do to the blocks. -/
inductive Change (s : Memory) (op : Op) (next : Memory) : Prop
  | same (holds : next.holds = s.holds) (live : next.Live = s.Live)
      (names : next.heap.next = s.heap.next) (unmoved : ∀ x y, op ≠ .move x y)
  | give (x : Nat) (empty : s.holds x = none) (holds : next.holds = Owners.give s.holds x s.heap.next)
      (live : next.Live = fun b => b = s.heap.next ∨ s.Live b)
      (names : next.heap.next = s.heap.next + 1) (unmoved : ∀ x y, op ≠ .move x y)
  /-- A second `Bar` points to the block. -/
  | share (x y block : Nat) (moves : op = .move x y) (empty : s.holds x = none)
      (held : s.holds y = some block) (holds : next.holds = Owners.give s.holds x block)
      (live : next.Live = s.Live) (names : next.heap.next = s.heap.next)
  | drop (x block : Nat) (held : s.holds x = some block) (alive : s.Live block)
      (holds : next.holds = Owners.drop s.holds x)
      (live : next.Live = LiveWithout s.Live (s.holds x)) (names : next.heap.next = s.heap.next)
      (unmoved : ∀ x y, op ≠ .move x y)

theorem construct_change {op : Op} {built : Option (Heap Cell × Bar)}
    (made : s.construct x built = some next) (unmoved : ∀ x y, op ≠ .move x y)
    (gives : ∀ after bar, built = some (after, bar) → Gives s.heap after bar) :
    Change s op next := by
  rw [Memory.construct] at made
  split at made
  · rename_i absent
    obtain ⟨⟨after, bar⟩, rfl, rfl⟩ := Option.map_eq_some_iff.mp made
    have given := gives after bar rfl
    refine .give x (by rw [Memory.holds, absent]; rfl) ?_ (funext fun b => propext (given.live b))
      given.next unmoved
    rw [holds_set, Option.map_some, given.data]
    rfl
  · cases made

theorem extend_change {op : Op} {call : Heap Cell → Bar → Option (Heap Cell × Bar)}
    (made : s.extend x call = some next) (unmoved : ∀ x y, op ≠ .move x y)
    (stays : ∀ bar after changed, call s.heap bar = some (after, changed) →
      Stays s.heap after bar changed) : Change s op next := by
  obtain ⟨bar, found, made⟩ := Option.bind_eq_some_iff.mp made
  obtain ⟨⟨after, changed⟩, called, made⟩ := Option.bind_eq_some_iff.mp made
  cases made
  have kept := stays bar after changed called
  refine .same ?_ (funext fun b => propext (kept.live b)) kept.next unmoved
  have held : s.holds x = some bar.data := by rw [Memory.holds, found, Option.map_some]
  rw [holds_set, Option.map_some, kept.data, ← held]
  exact Function.update_eq_self x s.holds

theorem step_change {op : Op} (stepped : step s op = some next) : Change s op next := by
  cases op with
  | ofBytes x str => exact construct_change stepped nofun fun _ _ => ofBytes_gives
  | ofCString x str => exact construct_change stepped nofun fun _ _ => ofBytes_gives
  | ofCapacity x capacity =>
    refine construct_change stepped nofun fun after bar built => ?_
    have given := ofCapacity_gives s.heap capacity
    rwa [Option.some.inj built] at given
  | copy x y =>
    obtain ⟨other, -, made⟩ := Option.bind_eq_some_iff.mp stepped
    exact construct_change made nofun fun _ _ => ofBytes_gives
  | move x y =>
    obtain ⟨other, found, made⟩ := Option.bind_eq_some_iff.mp stepped
    obtain ⟨absent, rfl⟩ := guarded_eq_some.mp made
    exact .share x y other.data rfl (by rw [Memory.holds, absent]; rfl)
      (by rw [Memory.holds, found]; rfl) (holds_set _ x _) rfl rfl
  | appendChar x c =>
    rw [step] at stepped
    exact extend_change stepped nofun fun _ _ _ => appendChar_stays
  | append x str =>
    rw [step] at stepped
    exact extend_change stepped nofun fun _ _ _ => append_stays
  | appendCString x str =>
    rw [step] at stepped
    exact extend_change stepped nofun fun _ _ _ => append_stays
  | appendBar x other =>
    obtain ⟨source, -, made⟩ := Option.bind_eq_some_iff.mp stepped
    exact extend_change made nofun fun _ _ _ => append_stays
  | appendString x str =>
    rw [step] at stepped
    exact extend_change stepped nofun fun _ _ _ => append_stays
  | destroy x =>
    obtain ⟨bar, found, made⟩ := Option.bind_eq_some_iff.mp stepped
    obtain ⟨heap, freed, made⟩ := Option.bind_eq_some_iff.mp made
    cases made
    have held : s.holds x = some bar.data := by rw [Memory.holds, found, Option.map_some]
    obtain ⟨cells, known, -⟩ := Option.map_eq_some_iff.mp freed
    refine .drop x bar.data held (by rw [Memory.Live, known]; rfl) (holds_set _ x none)
      (funext fun b => propext ?_) (Heap.free_next freed) nofun
    rw [LiveWithout, held, Ne, Option.some_inj]
    exact Heap.free_live freed b

/-! ### Runs -/

/-- What every call keeps: blocks are named in order, and there are finitely
many `Bar`s. -/
structure Kept (s : Memory) : Prop where
  live : ∀ block, s.Live block → block < s.heap.next
  held : ∀ x block, s.holds x = some block → block < s.heap.next
  finite : ∃ names : List Nat, ∀ x, s.holds x ≠ none → x ∈ names

theorem kept_start : Kept {} where
  live block alive := by cases alive
  held x block held := by cases held
  finite := ⟨[], fun x held => absurd rfl held⟩

theorem Kept.unnamed (kept : Kept s) : ¬ s.Live s.heap.next :=
  fun alive => Nat.lt_irrefl _ (kept.live _ alive)

theorem Kept.unheld (kept : Kept s) (x : Nat) : s.holds x ≠ some s.heap.next :=
  fun held => Nat.lt_irrefl _ (kept.held x _ held)

/-- A further name for a `Bar`. -/
theorem finite_give {holds : Nat → Option Nat} {block : Nat} (x : Nat)
    (finite : ∃ names : List Nat, ∀ z, holds z ≠ none → z ∈ names) :
    ∃ names : List Nat, ∀ z, Owners.give holds x block z ≠ none → z ∈ names := by
  obtain ⟨names, known⟩ := finite
  refine ⟨x :: names, fun z held => ?_⟩
  by_cases this : z = x
  · exact this ▸ List.mem_cons_self
  · rw [Owners.give, Function.update_of_ne this] at held
    exact List.mem_cons_of_mem x (known z held)

theorem kept_change {op : Op} (kept : Kept s) (changed : Change s op next) : Kept next := by
  cases changed with
  | same holds live names unmoved =>
    refine ⟨?_, ?_, ?_⟩
    · rw [live, names]
      exact kept.live
    · rw [holds, names]
      exact kept.held
    · rw [holds]
      exact kept.finite
  | give x empty holds live names unmoved =>
    refine ⟨fun block alive => ?_, fun z block held => ?_, ?_⟩
    · rw [live] at alive
      rw [names]
      rcases alive with rfl | old
      · exact Nat.lt_succ_self _
      · exact Nat.lt_succ_of_lt (kept.live block old)
    · rw [holds] at held
      rw [names]
      rcases give_eq_some.mp held with ⟨-, rfl⟩ | ⟨-, old⟩
      · exact Nat.lt_succ_self _
      · exact Nat.lt_succ_of_lt (kept.held z block old)
    · rw [holds]
      exact finite_give x kept.finite
  | share x y block moves empty held holds live names =>
    refine ⟨?_, fun z other has => ?_, ?_⟩
    · rw [live, names]
      exact kept.live
    · rw [holds] at has
      rw [names]
      rcases give_eq_some.mp has with ⟨-, rfl⟩ | ⟨-, old⟩
      · exact kept.held y block held
      · exact kept.held z other old
    · rw [holds]
      exact finite_give x kept.finite
  | drop x block held alive holds live names unmoved =>
    refine ⟨fun other there => ?_, fun z other has => ?_, ?_⟩
    · rw [live] at there
      rw [names]
      exact kept.live other there.1
    · rw [holds] at has
      rw [names]
      exact kept.held z other (drop_eq_some.mp has).2
    · obtain ⟨found, known⟩ := kept.finite
      refine ⟨found, fun z has => known z fun none => has ?_⟩
      rw [holds, Owners.drop]
      by_cases this : z = x
      · rw [this, Function.update_self]
      · rw [Function.update_of_ne this, none]

theorem kept_step (s : Memory) (op : Op) (next : Memory) (kept : Kept s)
    (stepped : step s op = some next) : Kept next :=
  kept_change kept (step_change stepped)

/-- Without a move every block stays with one `Bar`. -/
theorem owned_change {op : Op} (kept : Kept s) (unmoved : ∀ x y, op ≠ .move x y)
    (changed : Change s op next) (sole : Sole s.Live s.holds) (tidy : Tidy s.Live s.holds) :
    Sole next.Live next.holds ∧ Tidy next.Live next.holds := by
  cases changed with
  | same holds live names _ =>
    rw [holds, live]
    exact ⟨sole, tidy⟩
  | give x empty holds live names _ =>
    rw [holds, live]
    exact ⟨sole.give kept.unnamed x, tidy.give empty⟩
  | share x y block moves empty held holds live names => exact absurd moves (unmoved x y)
  | drop x block held alive holds live names _ =>
    rw [holds, live]
    exact ⟨sole.drop x, tidy.drop x⟩

/-- Where every block has one `Bar`, it had one before, and nothing was moved. -/
theorem sole_before {op : Op} (kept : Kept s) (changed : Change s op next)
    (sole : Sole next.Live next.holds) : Sole s.Live s.holds ∧ ∀ x y, op ≠ .move x y := by
  cases changed with
  | same holds live names unmoved =>
    rw [holds, live] at sole
    exact ⟨sole, unmoved⟩
  | give x empty holds live names unmoved =>
    rw [holds, live] at sole
    exact ⟨sole.of_give empty kept.unheld, unmoved⟩
  | share x y block moves empty held holds live names =>
    have apart : y ≠ x := by
      rintro rfl
      rw [empty] at held
      cases held
    rw [holds] at sole
    exact absurd (sole.unique y x block (give_eq_some.mpr (.inr ⟨apart, held⟩))
      (give_eq_some.mpr (.inl ⟨rfl, rfl⟩))) apart
  | drop x block held alive holds live names unmoved =>
    rw [holds, live] at sole
    refine ⟨sole.of_drop fun other has => ?_, unmoved⟩
    obtain rfl : block = other := Option.some.inj (held.symm.trans has)
    exact alive

theorem unmoved_of_sole {ops : List Op} {last : Memory} (kept : Kept s)
    (ran : run step s ops = some last) (sole : Sole last.Live last.holds) :
    Sole s.Live s.holds ∧ ∀ x y, .move x y ∉ ops := by
  induction ops generalizing s with
  | nil => exact ⟨Option.some.inj ran ▸ sole, fun x y => List.not_mem_nil⟩
  | cons op rest ih =>
    obtain ⟨next, stepped, ran⟩ := run_cons_some.mp ran
    have changed := step_change stepped
    obtain ⟨later, unmoved⟩ := ih (kept_change kept changed) ran
    obtain ⟨before, first⟩ := sole_before kept changed later
    refine ⟨before, fun x y member => ?_⟩
    rcases List.mem_cons.mp member with same | there
    · exact first x y same.symm
    · exact unmoved x y there

theorem holds_none : s.holds x = none ↔ s.bars x = none := Option.map_eq_none_iff

/-- `Bar`s with a block each can be destroyed one after the other. -/
theorem reach_released (names : List Nat) (s : Memory) (kept : Kept s) (sole : Sole s.Live s.holds)
    (tidy : Tidy s.Live s.holds) (known : ∀ x, s.holds x ≠ none → x ∈ names) :
    ∃ rest last, run step s rest = some last ∧ (∀ x, last.bars x = none) ∧
      ∀ block, last.heap.blocks block = none := by
  induction names generalizing s with
  | nil =>
    have gone : ∀ x, s.holds x = none := fun x => by
      by_contra held
      exact List.not_mem_nil (known x held)
    refine ⟨[], s, rfl, fun x => holds_none.mp (gone x), fun block => ?_⟩
    by_contra alive
    obtain ⟨x, held⟩ := tidy block (Option.isSome_iff_ne_none.mpr alive)
    rw [gone x] at held
    cases held
  | cons x names ih =>
    cases found : s.bars x with
    | none =>
      refine ih s kept sole tidy fun z held => ?_
      rcases List.mem_cons.mp (known z held) with rfl | there
      · exact absurd (holds_none.mpr found) held
      · exact there
    | some bar =>
      have held : s.holds x = some bar.data := by rw [Memory.holds, found, Option.map_some]
      obtain ⟨cells, alive⟩ := Option.isSome_iff_exists.mp (sole.live x bar.data held)
      have stepped : ∃ next, step s (.destroy x) = some next := by
        simp [step, found, Heap.free, alive]
      obtain ⟨next, stepped⟩ := stepped
      have changed := step_change stepped
      have unmoved : ∀ y z, Op.destroy x ≠ .move y z := nofun
      obtain ⟨still, whole⟩ := owned_change kept unmoved changed sole tidy
      have left : ∀ z, next.holds z ≠ none → z ∈ names := by
        obtain ⟨bar, -, made⟩ := Option.bind_eq_some_iff.mp stepped
        obtain ⟨heap, -, made⟩ := Option.bind_eq_some_iff.mp made
        cases made
        intro z has
        rw [holds_set] at has
        by_cases this : z = x
        · rw [this, Function.update_self] at has
          exact absurd rfl has
        · rw [Function.update_of_ne this] at has
          exact (List.mem_cons.mp (known z has)).resolve_left this
      obtain ⟨rest, last, ran, released⟩ := ih next (kept_change kept changed) still whole left
      exact ⟨.destroy x :: rest, last, run_cons_some.mpr ⟨next, stepped, ran⟩, released⟩

/-- After every run of constructions, copies, moves, appends and destructions
of any number of `Bar`s, the program can still come to a state where all of
them are destroyed exactly when none has been moved; and then every block has
been freed, once. -/
theorem bars_released_iff {ops : List Op} {final : Memory} (ran : run step {} ops = some final) :
    (∃ rest last, run step final rest = some last ∧ (∀ x, last.bars x = none) ∧
      ∀ block, last.heap.blocks block = none) ↔ ∀ x y, .move x y ∉ ops := by
  constructor
  · rintro ⟨rest, last, continued, gone, -⟩ x y member
    have whole : run step {} (ops ++ rest) = some last := by
      rw [run_append, ran, Option.bind_some, continued]
    have sole : Sole last.Live last.holds := sole_of_empty fun x => holds_none.mpr (gone x)
    exact (unmoved_of_sole kept_start whole sole).2 x y (List.mem_append_left rest member)
  · intro unmoved
    have inv : ∀ s, ∀ op ∈ ops, ∀ next, (Kept s ∧ Sole s.Live s.holds ∧ Tidy s.Live s.holds) →
        step s op = some next → Kept next ∧ Sole next.Live next.holds ∧ Tidy next.Live next.holds := by
      rintro s op member next ⟨kept, sole, tidy⟩ stepped
      have changed := step_change stepped
      refine ⟨kept_change kept changed, owned_change kept ?_ changed sole tidy⟩
      rintro x y rfl
      exact unmoved x y member
    have empty : Sole (Memory.Live {}) (Memory.holds {}) := sole_of_empty fun _ => rfl
    have none : Tidy (Memory.Live {}) (Memory.holds {}) := fun b alive => by cases alive
    obtain ⟨kept, sole, tidy⟩ := run_keeps_of_mem inv ⟨kept_start, empty, none⟩ ran
    obtain ⟨names, known⟩ := kept.finite
    exact reach_released names final kept sole tidy known

/-- A copy lives on by itself; a `Bar` and the one it was moved to cannot both
be destroyed. -/
theorem bars_released_copied :
    (∃ final rest last, run step {} [.ofBytes 0 ⟨[104, 105], by decide⟩, .copy 1 0, .destroy 0] =
        some final ∧ run step final rest = some last ∧ ∀ x, last.bars x = none) ∧
      ∃ final, run step {} [.ofBytes 0 ⟨[104, 105], by decide⟩, .move 1 0] = some final ∧
        ¬ ∃ rest last, run step final rest = some last ∧ (∀ x, last.bars x = none) ∧
          ∀ block, last.heap.blocks block = none := by
  constructor
  · obtain ⟨final, ran⟩ := Option.isSome_iff_exists.mp (show (run step {}
      [.ofBytes 0 ⟨[104, 105], by decide⟩, .copy 1 0, .destroy 0]).isSome from rfl)
    obtain ⟨rest, last, continued, gone, -⟩ := (bars_released_iff ran).mpr (by simp)
    exact ⟨final, rest, last, ran, continued, gone⟩
  · obtain ⟨final, ran⟩ := Option.isSome_iff_exists.mp (show (run step {}
      [.ofBytes 0 ⟨[104, 105], by decide⟩, .move 1 0]).isSome from rfl)
    exact ⟨final, ran, fun released => (bars_released_iff ran).mp released 1 0 (by simp)⟩

end ExNetlink.BarLives
