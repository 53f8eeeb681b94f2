import ExNetlink.Heap
import ExNetlink.Runs
import ExNetlink.SizeArith

/-! The byte string of `set/str/bar.h`.

A `Bar` points to a block of `capacity_` bytes, the first `len_` of which are
meant to be its text. A byte that `malloc` has handed out and nobody has
written is indeterminate. `delete` of memory from `malloc` is taken to free it,
and `malloc` to succeed.

Any number of `Bar`s live in one heap, so that one can be appended to another
or to itself. What a `Bar` is for is a list of bytes: beside each stand the
bytes that it has been given. -/
namespace ExNetlink.BarString
open Windows SizeArith Runs

/-- A byte of the heap, if it has been written. -/
abbrev Cell := Option UInt8

/-- The members of `Bar`. -/
structure Bar where
  data : Nat
  capacity : Nat
  len : Nat
  deriving DecidableEq, Repr

/-- Bytes behind a pointer and their number, a `size_t`. -/
structure Bytes where
  bytes : List UInt8
  sized : bytes.length < 2 ^ 64

/-- Memory that a C string begins in. -/
structure CString where
  memory : List UInt8
  terminated : 0 ∈ memory
  sized : memory.length < 2 ^ 64

/-- The bytes of a C string, up to the first that is zero. -/
def CString.text (str : CString) : List UInt8 := str.memory.takeWhile (· ≠ 0)

def strlen (str : CString) : Nat := str.text.length

/-- What a pointer argument points to. -/
inductive Source where
  | memory (bytes : List UInt8)
  | block (data : Nat)

/-- The first `len` bytes behind a pointer. -/
def Source.read (heap : Heap Cell) (len : Nat) : Source → Option (List Cell)
  | .memory bytes => load (bytes.map some) 0 len
  | .block data => heap.read data 0 len

/-- `Bar(size_t capacity)`. -/
def ofCapacity (heap : Heap Cell) (capacity : Nat) : Heap Cell × Bar :=
  let (heap, data) := heap.malloc (List.replicate capacity none)
  (heap, { data := data, capacity := capacity, len := 0 })

/-- `Bar(const char* str, size_t len)`. -/
def ofBytes (heap : Heap Cell) (str : Source) (len : Nat) : Option (Heap Cell × Bar) := do
  let (heap, data) := heap.malloc (List.replicate len none)
  let cells ← str.read heap len
  let heap ← heap.write data 0 cells
  some (heap, { data := data, capacity := len, len := len })

/-- The private `Bar(size_t capacity, const char* str, size_t len)`. -/
def ofPrefix (heap : Heap Cell) (capacity : Nat) (str : Source) (len : Nat) :
    Option (Heap Cell × Bar) := do
  let (heap, bar) := ofCapacity heap capacity
  let cells ← str.read heap len
  let heap ← heap.write bar.data 0 cells
  some (heap, { bar with len := len })

/-- `copy_swap(std::move(Bar(capacity, data_, len_)))`. The parameter of
`copy_swap` takes over the members of the temporary, and the move constructor
does not clear them there: `copy_swap` clears the parameter's pointer, but the
temporary's destructor, at the end of the expression, frees the block. -/
def grow (heap : Heap Cell) (bar : Bar) (capacity : Nat) : Option (Heap Cell × Bar) := do
  let (heap, temporary) ← ofPrefix heap capacity (.block bar.data) bar.len
  let other := temporary
  let bar := { bar with data := other.data, len := other.len, capacity := other.capacity }
  let heap ← heap.free temporary.data
  some (heap, bar)

/-- The test in front of both ways to append. -/
def growIf (short : Prop) [Decidable short] (heap : Heap Cell) (bar : Bar) (capacity : Nat) :
    Option (Heap Cell × Bar) :=
  if short then grow heap bar capacity else some (heap, bar)

/-- `append(char c)`. -/
def appendChar (heap : Heap Cell) (bar : Bar) (c : UInt8) : Option (Heap Cell × Bar) := do
  let (heap, bar) ← growIf (bar.len = bar.capacity) heap bar (wmul bar.capacity 2)
  let bar := { bar with len := wadd bar.len 1 }
  let heap ← heap.write bar.data bar.len [some c]
  some (heap, bar)

/-- `append(const char* str, size_t len)`. -/
def append (heap : Heap Cell) (bar : Bar) (str : Source) (len : Nat) : Option (Heap Cell × Bar) := do
  let (heap, bar) ←
    growIf (wadd bar.len len > bar.capacity) heap bar (wadd (wmul bar.capacity 2) len)
  let cells ← str.read heap len
  let heap ← heap.write bar.data bar.len cells
  some (heap, bar)

/-- The heap and the `Bar`s in it, each with the bytes that it was given. -/
structure World where
  heap : Heap Cell
  bars : List (Bar × List UInt8)

def start : World where
  heap := .empty
  bars := []

/-- A constructor, or an `append` to the `Bar` of that number. -/
inductive Op where
  | ofBytes (str : Bytes)
  | ofCString (str : CString)
  | ofCapacity (capacity : Nat) (sized : capacity < 2 ^ 64)
  | appendChar (target : Nat) (c : UInt8)
  | append (target : Nat) (str : Bytes)
  | appendCString (target : Nat) (str : CString)
  | appendBar (target other : Nat)
  /-- `append(const std::string&)`. -/
  | appendString (target : Nat) (other : Bytes)

/-- A new `Bar` and what it was built from. -/
def World.construct (w : World) (built : Option (Heap Cell × Bar)) (given : List UInt8) :
    Option World :=
  built.map fun (heap, bar) => { heap := heap, bars := w.bars ++ [(bar, given)] }

/-- A `Bar` that is given more bytes. -/
def World.extend (w : World) (target : Nat) (more : List UInt8)
    (call : Heap Cell → Bar → Option (Heap Cell × Bar)) : Option World := do
  let (bar, given) ← w.bars[target]?
  let (heap, bar) ← call w.heap bar
  some { heap := heap, bars := w.bars.set target (bar, given ++ more) }

def step (w : World) : Op → Option World
  | .ofBytes str => w.construct (ofBytes w.heap (.memory str.bytes) str.bytes.length) str.bytes
  | .ofCString str => w.construct (ofBytes w.heap (.memory str.memory) (strlen str)) str.text
  | .ofCapacity capacity _ => w.construct (some (ofCapacity w.heap capacity)) []
  | .appendChar target c => w.extend target [c] fun heap bar => appendChar heap bar c
  | .append target str =>
    w.extend target str.bytes fun heap bar => append heap bar (.memory str.bytes) str.bytes.length
  | .appendCString target str =>
    w.extend target str.text fun heap bar => append heap bar (.memory str.memory) (strlen str)
  | .appendBar target other => do
    let (source, given) ← w.bars[other]?
    w.extend target given fun heap bar => append heap bar (.block source.data) source.len
  | .appendString target str =>
    w.extend target str.bytes fun heap bar => append heap bar (.memory str.bytes) str.bytes.length

/-- The `Bar` is the bytes it was given. -/
structure Holds (heap : Heap Cell) (bar : Bar) (given : List UInt8) : Prop where
  size : bar.len = given.length
  text : heap.read bar.data 0 bar.len = some (given.map some)
  room : bar.len ≤ bar.capacity

/-- Every `Bar` is. -/
def Good (w : World) : Prop := ∀ entry ∈ w.bars, Holds w.heap entry.1 entry.2

/-- The call appends nothing: no character, and no bytes. -/
def Suits (w : World) : Op → Prop
  | .ofBytes _ | .ofCString _ | .ofCapacity _ _ => True
  | .appendChar _ _ => False
  | .append target str | .appendString target str => target < w.bars.length ∧ str.bytes = []
  | .appendCString target str => target < w.bars.length ∧ str.text = []
  | .appendBar target other => target < w.bars.length ∧ ∃ entry, w.bars[other]? = some entry ∧ entry.1.len = 0

variable {heap after : Heap Cell} {bar next : Bar} {given more : List UInt8} {w later : World}

/-! ### Building -/

/-- What carries the induction: the block holds the bytes given, and nobody has
written behind them. -/
structure Stored (heap : Heap Cell) (bar : Bar) (given : List UInt8) : Prop where
  named : bar.data < heap.next
  block : heap.blocks bar.data =
    some (given.map some ++ List.replicate (bar.capacity - bar.len) none)
  size : bar.len = given.length
  room : bar.len ≤ bar.capacity
  small : bar.capacity < 2 ^ 64

theorem Stored.holds (stored : Stored heap bar given) : Holds heap bar given := by
  refine ⟨stored.size, ?_, stored.room⟩
  rw [Heap.read_eq stored.block (by simp [stored.size]), stored.size]
  simp [window]

/-- Blocks that had a name are as they were. -/
structure Extends (heap after : Heap Cell) : Prop where
  names : heap.next ≤ after.next
  blocks : ∀ block < heap.next, after.blocks block = heap.blocks block

theorem Stored.extend (stored : Stored heap bar given) (extended : Extends heap after) :
    Stored after bar given :=
  ⟨Nat.lt_of_lt_of_le stored.named extended.names,
    (extended.blocks _ stored.named).trans stored.block, stored.size, stored.room, stored.small⟩

theorem malloc_extends (heap : Heap Cell) (cells : List Cell) : Extends heap (heap.malloc cells).1 :=
  ⟨Nat.le_succ _, fun _ => Heap.malloc_other⟩

theorem ofCapacity_spec (heap : Heap Cell) {capacity : Nat} (small : capacity < 2 ^ 64) :
    Extends heap (ofCapacity heap capacity).1 ∧
      Stored (ofCapacity heap capacity).1 (ofCapacity heap capacity).2 [] :=
  ⟨malloc_extends heap _, Nat.lt_succ_self _, Heap.malloc_self heap _, rfl, Nat.zero_le _, small⟩

theorem ofBytes_spec (heap : Heap Cell) {bytes : List UInt8} {len : Nat}
    (inside : len ≤ bytes.length) (small : len < 2 ^ 64) :
    ∃ after bar, ofBytes heap (.memory bytes) len = some (after, bar) ∧ Extends heap after ∧
      Stored after bar (bytes.take len) := by
  have count : (bytes.take len).length = len := List.length_take_of_le inside
  have source : load (bytes.map some) 0 len = some ((bytes.take len).map some) := by
    rw [load_eq (by simpa using inside), window, List.drop_zero, List.map_take]
  have written : (heap.malloc (List.replicate len none)).1.write heap.next 0
      ((bytes.take len).map some) = some (heap.malloc ((bytes.take len).map some)).1 :=
    Heap.write_malloc (by rw [List.length_map, List.length_replicate, count])
  refine ⟨_, ⟨heap.next, len, len⟩, ?_, malloc_extends heap ((bytes.take len).map some), ?_⟩
  · rw [ofBytes, Option.bind_eq_bind]
    change (load (bytes.map some) 0 len).bind _ = _
    rw [source, Option.bind_some]
    change ((heap.malloc (List.replicate len none)).1.write heap.next 0 _).bind _ = _
    rw [written, Option.bind_some]
  · refine ⟨Nat.lt_succ_self _, ?_, count.symm, Nat.le_refl _, small⟩
    rw [Nat.sub_self, List.replicate_zero, List.append_nil]
    exact Heap.malloc_self heap _

/-! ### Appending -/

/-- After growing, the text and its length are in a block that has been freed. -/
theorem grow_spec {capacity : Nat} (grown : grow heap bar capacity = some (after, next)) :
    next.len = bar.len ∧ after.blocks next.data = none := by
  obtain ⟨⟨middle, temporary⟩, built, grown⟩ := Option.bind_eq_some_iff.mp grown
  obtain ⟨final, freed, grown⟩ := Option.bind_eq_some_iff.mp grown
  obtain ⟨cells, -, built⟩ := Option.bind_eq_some_iff.mp built
  obtain ⟨filled, -, built⟩ := Option.bind_eq_some_iff.mp built
  cases built
  cases grown
  exact ⟨rfl, Heap.free_gone freed⟩

/-- `append(const char*, size_t)` leaves the length as it was. -/
theorem append_len {str : Source} {len : Nat} (appended : append heap bar str len = some (after, next)) :
    next.len = bar.len := by
  obtain ⟨⟨middle, grown⟩, room, appended⟩ := Option.bind_eq_some_iff.mp appended
  obtain ⟨cells, -, appended⟩ := Option.bind_eq_some_iff.mp appended
  obtain ⟨filled, -, appended⟩ := Option.bind_eq_some_iff.mp appended
  cases appended
  rw [growIf] at room
  split at room
  · exact (grow_spec room).1
  · cases room
    rfl

theorem append_nothing {str : Source} (stored : Stored heap bar given)
    (nothing : str.read heap 0 = some []) : append heap bar str 0 = some (heap, bar) := by
  have same : wadd bar.len 0 = bar.len := wadd_eq (Nat.lt_of_le_of_lt stored.room stored.small)
  have written : heap.write bar.data bar.len [] = some heap :=
    Heap.write_nil stored.block (by simp [stored.size])
  rw [append, same, growIf, if_neg (Nat.not_lt_of_le stored.room)]
  simp only [Option.bind_eq_bind, Option.bind_some, nothing, written]

/-- `append(char)` writes behind the place of the character, into freed memory
when it had to grow. -/
theorem not_holds_appendChar {c : UInt8} (stored : Stored heap bar given)
    (appended : appendChar heap bar c = some (after, next)) : ¬ Holds after next (given ++ [c]) := by
  obtain ⟨⟨middle, grown⟩, room, appended⟩ := Option.bind_eq_some_iff.mp appended
  obtain ⟨final, written, appended⟩ := Option.bind_eq_some_iff.mp appended
  cases appended
  rw [growIf] at room
  split at room
  · dsimp only at written
    rw [Heap.write_freed (grow_spec room).2] at written
    contradiction
  · rename_i spare
    cases room
    have small := stored.small
    have room := stored.room
    have size := stored.size
    have following : wadd bar.len 1 = bar.len + 1 := wadd_eq (by omega)
    dsimp only at written
    rw [following] at written
    obtain ⟨inside, block⟩ := Heap.write_eq_some stored.block written
    intro held
    have text := held.text
    dsimp only at text
    rw [following, Heap.read_eq block (by rw [overwrite_length inside]; omega)] at text
    -- the byte at the old length is still the one that nobody has written
    have cell := congrArg (·[bar.len]?) (Option.some.inj text)
    simp only [window_getElem?, Nat.zero_add] at cell
    rw [if_pos (by omega), overwrite_getElem? inside, if_neg (by omega)] at cell
    have unwritten : (given.map some ++ List.replicate (bar.capacity - bar.len) (none : Cell))[bar.len]? =
        some none := by
      rw [List.getElem?_append_right (by simp [size]), List.getElem?_replicate, if_pos]
      rw [List.length_map]
      omega
    rw [unwritten, size] at cell
    simp at cell

/-! ### Whole runs -/

/-- Every `Bar` has what it was given, and nothing behind it. -/
def Kept (w : World) : Prop := ∀ entry ∈ w.bars, Stored w.heap entry.1 entry.2

theorem construct_kept {built : Option (Heap Cell × Bar)} (kept : Kept w)
    (spec : ∃ after bar, built = some (after, bar) ∧ Extends w.heap after ∧ Stored after bar given) :
    ∃ later, w.construct built given = some later ∧ Kept later := by
  obtain ⟨after, bar, rfl, extended, stored⟩ := spec
  refine ⟨_, rfl, ?_⟩
  intro entry member
  rcases List.mem_append.mp member with old | new
  · exact (kept entry old).extend extended
  · rw [List.mem_singleton] at new
    subst new
    exact stored

/-- Appending nothing leaves everything as it was. -/
theorem extend_nothing {target : Nat} {str : Source} (kept : Kept w)
    (known : target < w.bars.length) (nothing : str.read w.heap 0 = some []) :
    w.extend target [] (fun heap bar => append heap bar str 0) = some w := by
  obtain ⟨⟨bar, given⟩, found⟩ : ∃ entry, w.bars[target]? = some entry :=
    ⟨_, List.getElem?_eq_getElem known⟩
  have stored := kept (bar, given) (List.mem_of_getElem? found)
  have same : w.bars.set target (bar, given) = w.bars := by
    obtain ⟨_, here⟩ := List.getElem?_eq_some_iff.mp found
    rw [← here, List.set_getElem_self]
  rw [World.extend, found]
  simp only [Option.bind_eq_bind, Option.bind_some, append_nothing stored nothing, List.append_nil, same]

/-- What a call leaves of the `Bar` it is made on, in a world that is good
after it. -/
theorem extend_good {target : Nat} {call : Heap Cell → Bar → Option (Heap Cell × Bar)}
    (kept : Kept w) (extended : w.extend target more call = some later) (good : Good later) :
    target < w.bars.length ∧ ∃ bar given after next, Stored w.heap bar given ∧
      call w.heap bar = some (after, next) ∧ Holds after next (given ++ more) := by
  obtain ⟨⟨bar, given⟩, found, extended⟩ := Option.bind_eq_some_iff.mp extended
  obtain ⟨⟨after, next⟩, called, extended⟩ := Option.bind_eq_some_iff.mp extended
  cases extended
  obtain ⟨known, -⟩ := List.getElem?_eq_some_iff.mp found
  have stored := kept (bar, given) (List.mem_of_getElem? found)
  exact ⟨known, bar, given, after, next, stored, called,
    good (next, given ++ more) (List.mem_set known _)⟩

/-- An append that leaves the `Bar` right has appended nothing. -/
theorem nothing_of_good {target : Nat} {str : Source} {len : Nat} (kept : Kept w)
    (extended : w.extend target more (fun heap bar => append heap bar str len) = some later)
    (good : Good later) : target < w.bars.length ∧ more = [] := by
  obtain ⟨known, bar, given, after, next, stored, called, held⟩ := extend_good kept extended good
  have size := held.size
  rw [append_len called, stored.size, List.length_append] at size
  exact ⟨known, List.length_eq_zero_iff.mp (by omega)⟩

theorem text_initial (str : CString) : str.text <+: str.memory :=
  List.takeWhile_prefix _

theorem take_strlen (str : CString) : str.memory.take (strlen str) = str.text :=
  (List.prefix_iff_eq_take.mp (text_initial str)).symm

theorem strlen_le (str : CString) : strlen str ≤ str.memory.length :=
  (text_initial str).length_le

theorem read_nothing (heap : Heap Cell) (bytes : List UInt8) :
    Source.read heap 0 (.memory bytes) = some [] := by
  simp [Source.read, load]

theorem kept_step {op : Op} (kept : Kept w) (suited : Suits w op) :
    ∃ later, step w op = some later ∧ Kept later := by
  cases op with
  | ofBytes str =>
    have built := ofBytes_spec w.heap (Nat.le_refl str.bytes.length) str.sized
    rw [List.take_length] at built
    exact construct_kept kept built
  | ofCString str =>
    have inside := strlen_le str
    have sized := str.sized
    have built := ofBytes_spec w.heap inside (by omega)
    rw [take_strlen] at built
    exact construct_kept kept built
  | ofCapacity capacity sized =>
    exact construct_kept kept ⟨_, _, rfl, ofCapacity_spec w.heap sized⟩
  | appendChar target c => exact absurd suited id
  | append target str =>
    obtain ⟨known, empty⟩ := suited
    refine ⟨w, ?_, kept⟩
    rw [step, empty]
    exact extend_nothing kept known (read_nothing _ _)
  | appendCString target str =>
    obtain ⟨known, empty⟩ := suited
    refine ⟨w, ?_, kept⟩
    rw [step, strlen, empty]
    exact extend_nothing kept known (read_nothing _ _)
  | appendBar target other =>
    obtain ⟨known, ⟨source, given⟩, found, empty⟩ := suited
    have stored := kept (source, given) (List.mem_of_getElem? found)
    have none : given = [] := List.length_eq_zero_iff.mp (stored.size ▸ empty)
    have nothing : Source.read w.heap 0 (.block source.data) = some [] := by
      rw [Source.read, Heap.read_eq stored.block (Nat.zero_le _), window_zero]
    refine ⟨w, ?_, kept⟩
    dsimp only at empty
    rw [step, found, Option.bind_eq_bind, Option.bind_some]
    dsimp only
    rw [empty, none]
    exact extend_nothing kept known nothing
  | appendString target str =>
    obtain ⟨known, empty⟩ := suited
    refine ⟨w, ?_, kept⟩
    rw [step, empty]
    exact extend_nothing kept known (read_nothing _ _)

theorem suits_of_good {op : Op} (kept : Kept w) (stepped : step w op = some later)
    (good : Good later) : Suits w op := by
  cases op with
  | ofBytes str => trivial
  | ofCString str => trivial
  | ofCapacity capacity sized => trivial
  | appendChar target c =>
    rw [step] at stepped
    obtain ⟨-, bar, given, after, next, stored, called, held⟩ := extend_good kept stepped good
    exact absurd held (not_holds_appendChar stored called)
  | append target str => exact nothing_of_good kept stepped good
  | appendCString target str => exact nothing_of_good kept stepped good
  | appendBar target other =>
    obtain ⟨⟨source, given⟩, found, stepped⟩ := Option.bind_eq_some_iff.mp stepped
    obtain ⟨known, none⟩ := nothing_of_good kept stepped good
    have stored := kept (source, given) (List.mem_of_getElem? found)
    exact ⟨known, (source, given), found, by rw [stored.size, none]; rfl⟩
  | appendString target str => exact nothing_of_good kept stepped good

/-- In every run of constructors and appends, to any number of `Bar`s, every
`Bar` is the bytes it was given exactly when it is given none after it was
built. -/
theorem bars_hold_iff (ops : List Op) :
    Throughout step Good start ops ↔ Meets step Suits start ops := by
  have begun : Kept start := by simp [Kept, start]
  refine throughout_iff_meets (fun _ _ => kept_step) (fun _ _ _ => suits_of_good) ?_ ops begun
  intro w kept entry member
  exact (kept entry member).holds

/-- One character into room for eight: it goes to the second place, the first
was never written. Three bytes: they are in place, and not counted. One
character into no room: it is written to freed memory. -/
theorem appended_bytes_missed :
    (run step start [.ofCapacity 8 (by decide), .appendChar 0 97]).map
        (fun w => (w.bars.map (fun entry => (entry.1.len, entry.2)), w.heap.read 0 0 3)) =
        some ([(1, [97])], some [none, some 97, none]) ∧
      (run step start [.ofCapacity 8 (by decide), .append 0 ⟨[97, 98, 99], by decide⟩]).map
        (fun w => (w.bars.map (fun entry => (entry.1.len, entry.2)), w.heap.read 0 0 4)) =
        some ([(0, [97, 98, 99])], some [some 97, some 98, some 99, none]) ∧
      (run step start [.ofCapacity 0 (by decide), .appendChar 0 97]).isNone ∧
      ¬ Throughout step Good start [.ofCapacity 8 (by decide), .appendChar 0 97] := by
  refine ⟨by decide, by decide, by decide, fun held => ?_⟩
  obtain ⟨-, _, built, -, _, appended, good⟩ := held
  cases built
  cases appended
  have text := (good _ (List.mem_singleton.mpr rfl)).text
  exact absurd text (by decide)

end ExNetlink.BarString
