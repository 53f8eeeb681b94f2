import Mathlib.Data.List.Forall2
import ExNetlink.ByteOrder
import ExNetlink.Runs
import ExNetlink.Traversal
import ExNetlink.Windows

/-! The directory watcher, `main` of `set/inotify/main.cpp`.

`read` on an inotify descriptor stores as many whole event records as fit into
an array that is never cleared, and a loop walks through them. The name that an
event is printed with is the C string behind its header, also when the record
ends there. The descriptor is polled edge-triggered and read once for an edge:
records that do not fit stay in the kernel's queue until another event makes
an edge.

An event here is a record that the kernel queues. It queues none for a change
that gives the record at the end of the queue once more, and one that says so in
place of those that its queue has no room for. -/
namespace ExNetlink.Inotify
open ByteOrder Runs Traversal Windows

/-- `EVENT_SIZE`. -/
def eventSize : Nat := 16

/-- `BUF_LEN`. -/
def bufLen : Nat := 1024 * (eventSize + 16)

def IN_MODIFY : BitVec 32 := 0x2#32
def IN_CLOSE : BitVec 32 := 0x8#32 ||| 0x10#32
def IN_OPEN : BitVec 32 := 0x20#32
def IN_MOVED_TO : BitVec 32 := 0x80#32
def IN_CREATE : BitVec 32 := 0x100#32
def IN_DELETE : BitVec 32 := 0x200#32
def IN_IGNORED : BitVec 32 := 0x8000#32
def IN_ISDIR : BitVec 32 := 0x40000000#32

/-- What is printed: words of the program, or the bytes of a name. -/
inductive Piece where
  | text (words : String)
  | name (bytes : List UInt8)
  deriving DecidableEq, Repr

/-- The words around the name in the line for an event, by the first bit of the
mask that is looked at and set. -/
def phrase (mask : BitVec 32) : Option (String × String) :=
  let subject := if mask &&& IN_ISDIR ≠ 0 then "The directory " else "The file "
  if mask &&& IN_CREATE ≠ 0 then some (subject, " was created.\n")
  else if mask &&& IN_DELETE ≠ 0 then some (subject, " was deleted.\n")
  else if mask &&& IN_MODIFY ≠ 0 then some (subject, " was modified.\n")
  else if mask &&& IN_IGNORED ≠ 0 then some ("The file ", " was IN_IGNORED.\n")
  else if mask &&& IN_MOVED_TO ≠ 0 then some ("The file ", " was IN_MOVED_TO.\n")
  else if mask &&& IN_OPEN ≠ 0 then some ("The file ", " was IN_MOVED_TO.\n")
  else if mask &&& IN_CLOSE ≠ 0 then some ("The file ", " was IN_MOVED_TO.\n")
  else none

/-- `%s` of a pointer, by the memory from there on to the end of the array. -/
def text (memory : List UInt8) : Option (List UInt8) :=
  if 0 ∈ memory then some (memory.takeWhile (· ≠ 0)) else none

/-- What is printed for an event. -/
def describe (len : Nat) (mask : BitVec 32) (name : List UInt8) : Option (List Piece) := do
  let front ← if len ≠ 0 then (text name).map fun shown => [.name shown] else some []
  let rest ← match phrase mask with
    | none => some []
    | some (before, after) => (text name).map fun shown => [.text before, .name shown, .text after]
  some (front ++ rest)

/-- A `uint32_t` of the header. -/
def field (buffer : List UInt8) (start : Nat) : Option Nat := (load buffer start 4).map value

/-- One turn of the loop over the events. -/
def body (buffer : List UInt8) (length : Int) (i : Nat) : Option (Turn Nat (List Piece)) :=
  if i < length then do
    let mask ← field buffer (i + 4)
    let len ← field buffer (i + 12)
    let pieces ← describe len (BitVec.ofNat 32 mask) (buffer.drop (i + eventSize))
    some (.visit pieces (i + (eventSize + len)))
  else some .stop

/-- An event as the kernel queues and writes it. A name ends in at least one zero byte; an
event on the watched directory itself has none. -/
structure Record where
  wd : Nat
  mask : BitVec 32
  cookie : Nat
  name : List UInt8
  terminated : name = [] ∨ 0 ∈ name
  sized : name.length ≤ 256

def Record.encode (r : Record) : List UInt8 :=
  littleEndian 4 r.wd ++ (littleEndian 4 r.mask.toNat ++ (littleEndian 4 r.cookie ++
    (littleEndian 4 r.name.length ++ r.name)))

/-- What is printed for events in an array, with what lies behind them there. -/
def described : List Record → List UInt8 → Option (List (List Piece))
  | [], _ => some []
  | r :: rest, behind => do
    let here ← describe r.name.length r.mask (r.name ++ (rest.flatMap Record.encode ++ behind))
    (described rest behind).map (here :: ·)

/-- The event under its own name. -/
def Record.own (r : Record) : List Piece :=
  let shown := r.name.takeWhile (· ≠ 0)
  (if r.name.length ≠ 0 then [.name shown] else []) ++
    match phrase r.mask with
    | none => []
    | some (before, after) => [.text before, .name shown, .text after]

/-- An event without a name has no line in which one would stand. -/
def Record.Plain (r : Record) : Prop := r.name = [] → phrase r.mask = none

/-! ### The loop over the events -/

variable {records : List Record}

theorem Record.encode_length (r : Record) : r.encode.length = eventSize + r.name.length := by
  simp only [encode, List.length_append, littleEndian_length]
  unfold eventSize
  omega

/-- The mask and the length of an event that is followed by anything, and what
lies from its name on. -/
theorem Record.encode_fields (r : Record) (rest : List UInt8) :
    window (r.encode ++ rest) 4 4 = littleEndian 4 r.mask.toNat ∧
      window (r.encode ++ rest) 12 4 = littleEndian 4 r.name.length ∧
      (r.encode ++ rest).drop eventSize = r.name ++ rest := by
  have skip : ∀ (number n : Nat) (bytes : List UInt8),
      (littleEndian 4 number ++ bytes).drop (n + 4) = bytes.drop n := by
    intro number n bytes
    rw [Nat.add_comm, ← List.drop_drop, List.drop_left' (littleEndian_length ..)]
  have front : ∀ (number : Nat) (bytes : List UInt8),
      (littleEndian 4 number ++ bytes).take 4 = littleEndian 4 number :=
    fun number bytes => List.take_left' (littleEndian_length ..)
  simp only [window, encode, eventSize, List.append_assoc]
  refine ⟨?_, ?_, ?_⟩
  · rw [skip _ 0, List.drop_zero, front]
  · rw [skip _ 8, skip _ 4, skip _ 0, List.drop_zero, front]
  · rw [skip _ 12, skip _ 8, skip _ 4, skip _ 0, List.drop_zero]

/-- The loop finds the event that lies at its place. -/
theorem body_record (front : List UInt8) (r : Record) (rest : List UInt8) {length : Int}
    (more : front.length < length) :
    body (front ++ (r.encode ++ rest)) length front.length =
      (describe r.name.length r.mask (r.name ++ rest)).map
        fun pieces => .visit pieces (front ++ r.encode).length := by
  have place : ∀ start count, window (front ++ (r.encode ++ rest)) (front.length + start) count =
      window (r.encode ++ rest) start count := by
    intro start count
    rw [window, ← List.drop_drop, List.drop_left' rfl, window]
  have room : (front ++ (r.encode ++ rest)).length =
      front.length + (eventSize + r.name.length) + rest.length := by
    rw [List.length_append, List.length_append, r.encode_length]
    omega
  obtain ⟨mask, len, name⟩ := r.encode_fields rest
  have maskRead : field (front ++ (r.encode ++ rest)) (front.length + 4) = some r.mask.toNat := by
    rw [field, load_eq (by unfold eventSize at room; omega), place, mask, Option.map_some,
      value_littleEndian]
    exact congrArg some (Nat.mod_eq_of_lt r.mask.isLt)
  have lenRead : field (front ++ (r.encode ++ rest)) (front.length + 12) = some r.name.length := by
    have small := r.sized
    rw [field, load_eq (by unfold eventSize at room; omega), place, len, Option.map_some,
      value_littleEndian]
    exact congrArg some (Nat.mod_eq_of_lt (by omega))
  have behind : (front ++ (r.encode ++ rest)).drop (front.length + eventSize) = r.name ++ rest := by
    rw [← List.drop_drop, List.drop_left' rfl, name]
  rw [body, if_pos more, maskRead, lenRead, behind, List.length_append, r.encode_length]
  simp only [Option.bind_eq_bind, Option.bind_some, BitVec.ofNat_toNat, BitVec.setWidth_eq]
  cases describe r.name.length r.mask (r.name ++ rest) <;> rfl

/-- The loop over received events, from any of them on. -/
theorem traverse_events (front : List UInt8) (records : List Record) (behind : List UInt8)
    {fuel : Nat} (enough : records.length < fuel) :
    Traversal.traverse (body (front ++ (records.flatMap Record.encode ++ behind))
      (front ++ records.flatMap Record.encode).length) fuel front.length =
        described records behind := by
  induction records generalizing front fuel with
  | nil =>
    obtain ⟨fuel, rfl⟩ := Nat.exists_eq_add_one_of_ne_zero (Nat.ne_of_gt enough)
    simp [Traversal.traverse, body, described]
  | cons r rest ih =>
    obtain ⟨fuel, rfl⟩ := Nat.exists_eq_add_one_of_ne_zero (Nat.ne_of_gt (Nat.zero_lt_of_lt enough))
    have later := ih (front ++ r.encode) (Nat.lt_of_succ_lt_succ enough)
    have more : (front.length : Int) < (front ++ (r :: rest).flatMap Record.encode).length := by
      rw [List.flatMap_cons, List.length_append, List.length_append, r.encode_length]
      unfold eventSize
      omega
    rw [List.append_assoc, List.append_assoc] at later
    rw [Traversal.traverse, described, List.flatMap_cons, List.append_assoc,
      body_record front r _ (by rwa [List.flatMap_cons] at more)]
    cases describe r.name.length r.mask (r.name ++ (rest.flatMap Record.encode ++ behind)) with
    | none => rfl
    | some here => exact congrArg (Option.map (here :: ·)) later

/-- A name ends before what lies behind it. -/
theorem text_append {name : List UInt8} (ended : 0 ∈ name) (behind : List UInt8) :
    text (name ++ behind) = some (name.takeWhile (· ≠ 0)) := by
  have split : ∀ bytes : List UInt8, 0 ∈ bytes →
      (bytes ++ behind).takeWhile (· ≠ 0) = bytes.takeWhile (· ≠ 0) := by
    intro bytes ended
    induction bytes with
    | nil => cases ended
    | cons byte rest ih =>
      by_cases zero : byte = 0
      · simp [zero]
      · have later : 0 ∈ rest := (List.mem_cons.mp ended).resolve_left (Ne.symm zero)
        simp only [List.cons_append, List.takeWhile_cons, ne_eq, zero, not_false_eq_true,
          decide_true, if_true, List.cons.injEq, true_and]
        exact ih later
  rw [text, if_pos (List.mem_append_left behind ended), split name ended]

theorem describe_own {r : Record} (plain : r.Plain) (behind : List UInt8) :
    describe r.name.length r.mask (r.name ++ behind) = some r.own := by
  rcases r.terminated with nameless | ended
  · rw [describe, Record.own, plain nameless, nameless]
    rfl
  · have named : r.name.length ≠ 0 := fun none => List.ne_nil_of_mem ended (List.length_eq_zero_iff.mp none)
    rw [describe, Record.own, text_append ended, if_pos named, if_pos named]
    cases phrase r.mask <;> rfl

/-- Whatever lies behind them, events are printed under their own names unless
one has a line but no name. -/
theorem described_own (plain : ∀ r ∈ records, r.Plain) (behind : List UInt8) :
    described records behind = some (records.map Record.own) := by
  induction records with
  | nil => rfl
  | cons r rest ih =>
    rw [described, describe_own (plain r (by simp)), ih fun r member => plain r (by simp [member])]
    rfl

/-! ### Edges -/

/-- The records at the front of the queue that fit into `n` bytes. -/
def fitting : Nat → List Record → List Record
  | _, [] => []
  | n, r :: rest => if r.encode.length ≤ n then r :: fitting (n - r.encode.length) rest else []

/-- The watcher and what the kernel keeps for it. -/
structure Watch where
  /-- The records that have not been read. -/
  queue : List Record
  /-- An event came in since `epoll_wait` last reported one. -/
  edge : Bool
  /-- `epoll_wait` has returned and `read` comes next. -/
  reading : Bool
  buffer : List UInt8
  /-- What has been printed, for each event. -/
  output : List (List Piece)
  /-- All records that were ever queued. -/
  occurred : List Record

inductive Event where
  /-- The kernel queues a record. -/
  | occur (r : Record)
  /-- `epoll_wait` returns the descriptor. -/
  | wake
  /-- `epoll_wait` finds the queue empty after all. -/
  | lapse
  /-- `epoll_wait` times out. -/
  | timeout
  /-- `read`, and the loop over what it has stored. -/
  | read

/-- The state after an event, for an event that can happen. -/
def step (s : Watch) : Event → Option Watch
  | .occur r => some { s with
      queue := s.queue ++ [r]
      edge := true
      occurred := s.occurred ++ [r] }
  | .wake =>
    if s.reading = false ∧ s.edge = true ∧ s.queue ≠ [] then
      some { s with edge := false, reading := true }
    else none
  | .lapse =>
    if s.reading = false ∧ s.edge = true ∧ s.queue = [] then some { s with edge := false } else none
  | .timeout => if s.reading = false ∧ s.edge = false then some s else none
  | .read =>
    if s.reading = true then do
      let batch := fitting bufLen s.queue
      let data := batch.flatMap Record.encode
      let buffer := overwrite s.buffer 0 data
      let lines ← Traversal.traverse (body buffer data.length) (data.length + 1) 0
      some { s with
        queue := s.queue.drop batch.length
        reading := false
        buffer := buffer
        output := s.output ++ lines }
    else none

/-- The array has whatever it had. -/
def start (buffer : List UInt8) : Watch where
  queue := []
  edge := false
  reading := false
  buffer := buffer
  output := []
  occurred := []

/-- The watcher waits although there are events to read. -/
def Stalled (s : Watch) : Prop := s.reading = false ∧ s.edge = false ∧ s.queue ≠ []

/-- What is read is all there is, unless an edge has come since. -/
def Suits (s : Watch) : Event → Prop
  | .read => s.edge = true ∨ (s.queue.flatMap Record.encode).length ≤ bufLen
  | _ => True

variable {s next : Watch}

theorem fitting_length_le (n : Nat) (queue : List Record) :
    ((fitting n queue).flatMap Record.encode).length ≤ n := by
  fun_induction fitting n queue with
  | case1 n => exact Nat.zero_le _
  | case2 n r rest fits ih =>
    rw [List.flatMap_cons, List.length_append]
    omega
  | case3 n r rest big => exact Nat.zero_le _

/-- They are the front of the queue. -/
theorem fitting_append (n : Nat) (queue : List Record) :
    fitting n queue ++ queue.drop (fitting n queue).length = queue := by
  fun_induction fitting n queue with
  | case1 n => rfl
  | case2 n r rest fits ih => exact congrArg (r :: ·) ih
  | case3 n r rest big => rfl

/-- Everything is read exactly when everything fits. -/
theorem drop_fitting_eq_nil_iff (n : Nat) (queue : List Record) :
    queue.drop (fitting n queue).length = [] ↔ (queue.flatMap Record.encode).length ≤ n := by
  fun_induction fitting n queue with
  | case1 n => simp
  | case2 n r rest fits ih =>
    rw [List.length_cons, List.drop_succ_cons, ih, List.flatMap_cons, List.length_append]
    omega
  | case3 n r rest big =>
    rw [List.flatMap_cons, List.length_append]
    simp only [List.length_nil, List.drop_zero, reduceCtorEq, false_iff]
    omega

theorem length_le_encoded (records : List Record) :
    records.length ≤ (records.flatMap Record.encode).length := by
  induction records with
  | nil => exact Nat.le_refl _
  | cons r rest ih =>
    rw [List.length_cons, List.flatMap_cons, List.length_append, r.encode_length]
    unfold eventSize
    omega

/-- The array after a batch was read into it. -/
def overlay (buffer : List UInt8) (batch : List Record) : List UInt8 :=
  overwrite buffer 0 (batch.flatMap Record.encode)

/-- What is printed for one batch after the other, with what lies behind each in
the array that all are read into. -/
def printed : List UInt8 → List (List Record) → Option (List (List Piece))
  | _, [] => some []
  | buffer, batch :: later => do
    let lines ← described batch (buffer.drop (batch.flatMap Record.encode).length)
    (printed (overlay buffer batch) later).map (lines ++ ·)

theorem printed_append (buffer : List UInt8) (batches : List (List Record)) (batch : List Record) :
    printed buffer (batches ++ [batch]) = (printed buffer batches).bind fun shown =>
      (described batch ((batches.foldl overlay buffer).drop (batch.flatMap Record.encode).length)).map
        (shown ++ ·) := by
  induction batches generalizing buffer with
  | nil =>
    rw [List.nil_append, printed, printed, List.foldl_nil]
    cases described batch (buffer.drop (batch.flatMap Record.encode).length) with
    | none => rfl
    | some lines => exact congrArg some (List.append_nil lines)
  | cons first later ih =>
    rw [List.cons_append, printed, printed, ih, List.foldl_cons]
    cases described first (buffer.drop (first.flatMap Record.encode).length) with
    | none => rfl
    | some lines =>
      cases printed (overlay buffer first) later with
      | none => rfl
      | some shown =>
        cases described batch ((later.foldl overlay (overlay buffer first)).drop
            (batch.flatMap Record.encode).length) with
        | none => rfl
        | some last => exact congrArg some (List.append_assoc lines shown last).symm

/-- One entry for each event; under its own name where it has one or no line. -/
def Shown (r : Record) (pieces : List Piece) : Prop :=
  (∃ behind, describe r.name.length r.mask (r.name ++ behind) = some pieces) ∧
    (r.Plain → pieces = r.own)

theorem described_shown {behind : List UInt8} {lines : List (List Piece)}
    (shown : described records behind = some lines) : List.Forall₂ Shown records lines := by
  induction records generalizing lines with
  | nil =>
    cases shown
    exact .nil
  | cons r rest ih =>
    obtain ⟨here, first, shown⟩ := Option.bind_eq_some_iff.mp shown
    obtain ⟨others, later, rfl⟩ := Option.map_eq_some_iff.mp shown
    refine .cons ⟨⟨_, first⟩, fun plain => ?_⟩ (ih later)
    rw [describe_own plain] at first
    exact (Option.some.inj first).symm

theorem printed_shown {buffer : List UInt8} {batches : List (List Record)} {lines : List (List Piece)}
    (shown : printed buffer batches = some lines) : List.Forall₂ Shown batches.flatten lines := by
  induction batches generalizing buffer lines with
  | nil =>
    cases shown
    exact .nil
  | cons batch later ih =>
    obtain ⟨here, first, shown⟩ := Option.bind_eq_some_iff.mp shown
    obtain ⟨others, rest, rfl⟩ := Option.map_eq_some_iff.mp shown
    exact List.rel_append (described_shown first) (ih rest)

/-- The loop over a batch that lies at the front of the array. -/
theorem traverse_batch (batch : List Record) (buffer : List UInt8) :
    Traversal.traverse (body (overwrite buffer 0 (batch.flatMap Record.encode))
      (batch.flatMap Record.encode).length) ((batch.flatMap Record.encode).length + 1) 0 =
        described batch (buffer.drop (batch.flatMap Record.encode).length) := by
  have few := length_le_encoded batch
  have laid : overwrite buffer 0 (batch.flatMap Record.encode) =
      batch.flatMap Record.encode ++ buffer.drop (batch.flatMap Record.encode).length := by
    simp [overwrite]
  rw [laid]
  exact traverse_events [] batch _ (Nat.lt_succ_of_le few)

/-- What a read does: the front of the queue is printed, over what the array
held before. -/
theorem step_read (whole : s.buffer.length = bufLen) (stepped : step s .read = some next) :
    s.reading = true ∧ ∃ lines, described (fitting bufLen s.queue)
        (s.buffer.drop ((fitting bufLen s.queue).flatMap Record.encode).length) = some lines ∧
      next = { s with
        queue := s.queue.drop (fitting bufLen s.queue).length
        reading := false
        buffer := overlay s.buffer (fitting bufLen s.queue)
        output := s.output ++ lines } ∧ next.buffer.length = bufLen := by
  have most := fitting_length_le bufLen s.queue
  by_cases reading : s.reading = true
  · rw [step, if_pos reading] at stepped
    dsimp only at stepped
    rw [traverse_batch] at stepped
    obtain ⟨lines, known, made⟩ := Option.bind_eq_some_iff.mp stepped
    obtain rfl := Option.some.inj made
    refine ⟨reading, lines, known, rfl, ?_⟩
    dsimp only
    rw [overwrite_length (by omega), whole]
  · rw [step, if_neg reading] at stepped
    contradiction

/-- A read of events that have their names comes to its end. -/
theorem step_read_plain (reading : s.reading = true)
    (plain : ∀ r ∈ fitting bufLen s.queue, r.Plain) : ∃ next, step s .read = some next := by
  rw [step, if_pos reading]
  dsimp only
  rw [traverse_batch, described_own plain]
  exact ⟨_, rfl⟩

/-- What carries the run. -/
structure Kept (initial : List UInt8) (s : Watch) : Prop where
  whole : s.buffer.length = bufLen
  order : ∃ batches, s.occurred = batches.flatten ++ s.queue ∧
    printed initial batches = some s.output ∧ s.buffer = batches.foldl overlay initial

theorem kept_start {initial : List UInt8} (whole : initial.length = bufLen) :
    Kept initial (start initial) := ⟨whole, [], rfl, rfl, rfl⟩

theorem kept_step {initial : List UInt8} (event : Event) (kept : Kept initial s)
    (stepped : step s event = some next) : Kept initial next := by
  obtain ⟨batches, order, shown, laid⟩ := kept.order
  cases event with
  | occur r =>
    cases stepped
    exact ⟨kept.whole, batches, by rw [order, List.append_assoc], shown, laid⟩
  | wake =>
    obtain ⟨-, rfl⟩ := guarded_eq_some.mp stepped
    exact ⟨kept.whole, kept.order⟩
  | lapse =>
    obtain ⟨-, rfl⟩ := guarded_eq_some.mp stepped
    exact ⟨kept.whole, kept.order⟩
  | timeout =>
    obtain ⟨-, rfl⟩ := guarded_eq_some.mp stepped
    exact kept
  | read =>
    obtain ⟨-, lines, known, rfl, whole⟩ := step_read kept.whole stepped
    refine ⟨whole, batches ++ [fitting bufLen s.queue], ?_, ?_, ?_⟩
    · rw [List.flatten_append, List.flatten_singleton, List.append_assoc, fitting_append, order]
    · rw [printed_append, shown, Option.bind_some, ← laid, known, Option.map_some]
    · rw [List.foldl_append, ← laid]
      rfl

/-- In every run the records that the kernel has queued are printed in its
order, each once, and the others are still in the queue. What is printed is what
the loop makes of one batch after the other, each read over the ones before it;
so there is one entry for each record, and it has the record's own name unless
it has a line and no name. -/
theorem events_printed_in_order {buffer : List UInt8} (whole : buffer.length = bufLen)
    {events : List Event} {final : Watch} (ran : run step (start buffer) events = some final) :
    ∃ batches, final.occurred = batches.flatten ++ final.queue ∧
      printed buffer batches = some final.output ∧
      List.Forall₂ Shown batches.flatten final.output := by
  obtain ⟨batches, order, shown, -⟩ :=
    (run_keeps (fun s event next held stepped => kept_step event held stepped)
      (kept_start whole) ran).order
  exact ⟨batches, order, shown, printed_shown shown⟩

/-- A step stalls the watcher only when it reads and does not suit. -/
theorem stalled_step_iff {initial : List UInt8} (event : Event) (kept : Kept initial s) (going : ¬ Stalled s)
    (stepped : step s event = some next) : ¬ Stalled next ↔ Suits s event := by
  cases event with
  | occur r =>
    cases stepped
    simp [Stalled, Suits]
  | wake =>
    obtain ⟨-, rfl⟩ := guarded_eq_some.mp stepped
    simp [Stalled, Suits]
  | lapse =>
    obtain ⟨⟨-, -, empty⟩, rfl⟩ := guarded_eq_some.mp stepped
    simp [Stalled, Suits, empty]
  | timeout =>
    obtain ⟨-, rfl⟩ := guarded_eq_some.mp stepped
    exact iff_of_true going trivial
  | read =>
    obtain ⟨-, lines, -, rfl, -⟩ := step_read kept.whole stepped
    rw [Suits, ← drop_fitting_eq_nil_iff, Stalled]
    cases s.edge <;> simp

/-- In every run the watcher never sleeps over an unread event exactly when
every read takes all that is in the queue or comes after a newer edge. -/
theorem never_stalls_iff {buffer : List UInt8} (whole : buffer.length = bufLen)
    {events : List Event} {final : Watch} (ran : run step (start buffer) events = some final) :
    Throughout step (fun s => ¬ Stalled s) (start buffer) events ↔
      Meets step Suits (start buffer) events := by
  have begun : Kept buffer (start buffer) ∧ ¬ Stalled (start buffer) :=
    ⟨kept_start whole, by simp [Stalled, start]⟩
  have kept : ∀ s event next, (Kept buffer s ∧ ¬ Stalled s) → Suits s event →
      step s event = some next → Kept buffer next ∧ ¬ Stalled next := by
    rintro s event next ⟨kept, going⟩ suited stepped
    exact ⟨kept_step event kept stepped, (stalled_step_iff event kept going stepped).mpr suited⟩
  refine throughout_iff_meets_of_run kept ?_ (fun _ held => held.2) begun ran
  rintro s event next ⟨held, going⟩ stepped fine
  exact (stalled_step_iff event held going stepped).mp fine

/-- A file `f` is created. -/
def created : Record where
  wd := 1
  mask := IN_CREATE
  cookie := 0
  name := 102 :: List.replicate 15 0
  terminated := by decide
  sized := by decide

/-- The event comes in, and is read before another one does. -/
def createdEvents : List Event := [.timeout, .occur created, .wake, .read]

theorem created_runs :
    ∃ final, run step (start (List.replicate bufLen 0)) createdEvents = some final ∧
      final.occurred = [created] ∧ final.queue = [] := by
  have fits : created.encode.length ≤ bufLen := by decide
  have alone : fitting bufLen [created] = [created] := by
    rw [fitting, if_pos fits]
    rfl
  have plain : ∀ r ∈ fitting bufLen [created], r.Plain := by
    rw [alone]
    intro r member
    obtain rfl := List.mem_singleton.mp member
    exact fun none => by cases none
  have whole : (List.replicate bufLen (0 : UInt8)).length = bufLen := List.length_replicate
  obtain ⟨next, read⟩ := step_read_plain
    (s := ⟨[created], false, true, List.replicate bufLen 0, [], [created]⟩) rfl plain
  refine ⟨next, run_cons_some.mpr ⟨_, rfl, run_cons_some.mpr ⟨_, rfl, run_cons_some.mpr ⟨_, rfl, ?_⟩⟩⟩, ?_⟩
  · exact run_cons_some.mpr ⟨next, read, rfl⟩
  · obtain ⟨-, lines, -, rfl, -⟩ := step_read whole read
    dsimp only
    rw [alone]
    exact ⟨rfl, rfl⟩

/-- The name is printed on its own first. -/
theorem created_printed_in_order :
    ∃ final, run step (start (List.replicate bufLen 0)) createdEvents = some final ∧
      final.output = [[.name [102], .text "The file ", .name [102], .text " was created.\n"]] := by
  obtain ⟨final, ran, occurred, read⟩ := created_runs
  obtain ⟨batches, order, -, shown⟩ := events_printed_in_order List.length_replicate ran
  rw [occurred, read, List.append_nil] at order
  rw [← order] at shown
  obtain ⟨pieces, others, first, rest, output⟩ := List.forall₂_cons_left_iff.mp shown
  obtain rfl := List.forall₂_nil_left_iff.mp rest
  have plain : created.Plain := fun nameless => by cases nameless
  have own : created.own = [.name [102], .text "The file ", .name [102], .text " was created.\n"] := by
    decide
  exact ⟨final, ran, by rw [output, first.2 plain, own]⟩

theorem created_never_stalls :
    Throughout step (fun s => ¬ Stalled s) (start (List.replicate bufLen 0)) createdEvents := by
  obtain ⟨final, ran, -⟩ := created_runs
  refine (never_stalls_iff (List.length_replicate ..) ran).mpr ?_
  refine ⟨trivial, fun _ same => ?_⟩
  obtain rfl := Option.some.inj same
  refine ⟨trivial, fun _ same => ?_⟩
  obtain rfl := Option.some.inj same
  refine ⟨trivial, fun _ same => ?_⟩
  obtain rfl := Option.some.inj same
  exact ⟨.inr (by decide), fun _ _ => trivial⟩

end ExNetlink.Inotify
