import Mathlib.Tactic.IntervalCases
import ExNetlink.ByteOrder
import ExNetlink.Runs
import ExNetlink.Traversal
import ExNetlink.Windows

/-! The netlink monitor, `main` of `main.cpp`.

A datagram is received into an array that is never cleared, and a loop walks
through the messages in it with the macros of `linux/netlink.h`. Of a message
it reads the length and the type. `messages` says what a datagram holds without
an array and without an index: the loop finds exactly that, whatever an earlier
datagram has left behind the end of this one. -/
namespace ExNetlink.Netlink
open ByteOrder Runs Traversal Windows

/-- `sizeof(struct nlmsghdr)`. -/
def headerSize : Nat := 16

/-- `NLMSG_ALIGN`, on the `__u32` of the header. -/
def NLMSG_ALIGN (len : BitVec 32) : BitVec 32 := (len + 4#32 - 1#32) &&& ~~~(4#32 - 1#32)

/-- The variables of the walk. The remaining length is signed: the last message
may lack its padding. -/
structure Cursor where
  nlh : Nat
  readSize : Int
  deriving DecidableEq, Repr

/-- `nlh->nlmsg_len`. -/
def nlmsgLen (buffer : List UInt8) (nlh : Nat) : Option (BitVec 32) :=
  (load buffer nlh 4).map fun bytes => BitVec.ofNat 32 (value bytes)

/-- `nlh->nlmsg_type`. -/
def nlmsgType (buffer : List UInt8) (nlh : Nat) : Option Nat := (load buffer (nlh + 4) 2).map value

/-- `NLMSG_OK`. -/
def NLMSG_OK (buffer : List UInt8) (c : Cursor) : Option Bool :=
  if c.readSize < headerSize then some false
  else do
    let len ← nlmsgLen buffer c.nlh
    some (headerSize ≤ len.toNat ∧ len.toNat ≤ c.readSize)

/-- `NLMSG_NEXT`. -/
def NLMSG_NEXT (buffer : List UInt8) (c : Cursor) : Option Cursor := do
  let len ← nlmsgLen buffer c.nlh
  let size := (NLMSG_ALIGN len).toNat
  some { nlh := c.nlh + size, readSize := c.readSize - size }

/-- One turn of the loop over the messages: the type is what it switches on. -/
def body (buffer : List UInt8) (c : Cursor) : Option (Turn Cursor Nat) := do
  if ← NLMSG_OK buffer c then
    let type ← nlmsgType buffer c.nlh
    let next ← NLMSG_NEXT buffer c
    some (.visit type next)
  else some .stop

def NLMSG_ERROR : Nat := 2
def NLMSG_DONE : Nat := 3
def RTM_NEWLINK : Nat := 16
def RTM_DELLINK : Nat := 17
def RTM_NEWADDR : Nat := 20
def RTM_DELADDR : Nat := 21

/-- The line that is printed for a type. The `break` for the types that end a
dump leaves the `switch`, not the loop. -/
def line (type : Nat) : Option String :=
  if type = NLMSG_DONE ∨ type = NLMSG_ERROR then none
  else if type = RTM_NEWLINK ∨ type = RTM_DELLINK then some "RTM_NEWLINK or RTM_DELLINK"
  else if type = RTM_NEWADDR ∨ type = RTM_DELADDR then some "RTM_NEWLINK or RTM_DELLINK"
  else none

/-- `sizeof(buffer)`. -/
def bufferSize : Nat := 1048

/-- What a round of the outer loop gets from the system. -/
inductive Round where
  /-- `select` times out or fails. -/
  | idle
  | recvFails
  /-- A datagram, of which `recv` stores what the array holds. -/
  | received (datagram : List UInt8)
  deriving DecidableEq, Repr

structure Monitor where
  buffer : List UInt8
  output : List String
  deriving DecidableEq, Repr

def start : Monitor where
  buffer := List.replicate bufferSize 0
  output := []

/-- One round of the outer loop. -/
def step (s : Monitor) : Round → Option Monitor
  | .idle => some s
  | .recvFails => some { s with output := s.output ++ ["fail to recv."] }
  | .received datagram =>
    let data := datagram.take bufferSize
    let s := { s with buffer := overwrite s.buffer 0 data }
    if data.length = 0 then some { s with output := s.output ++ ["read 0 bytes"] }
    else do
      let types ← Traversal.traverse (body s.buffer) (data.length + 1)
        { nlh := 0, readSize := data.length }
      some { s with output := s.output ++ types.filterMap line }

/-- The same round with the walk confined to what `recv` has just stored: a read
behind that, or of what an earlier datagram has left there, has no result. -/
def confined (s : Monitor) : Round → Option Monitor
  | .received datagram =>
    let data := datagram.take bufferSize
    if data.length = 0 then step s (.received datagram)
    else do
      let types ← Traversal.traverse (body data) (data.length + 1)
        { nlh := 0, readSize := data.length }
      some { buffer := overwrite s.buffer 0 data, output := s.output ++ types.filterMap line }
  | .idle => step s .idle
  | .recvFails => step s .recvFails

/-! ### What a datagram holds -/

/-- A length rounded up to the next message. -/
def aligned (len : Nat) : Nat := (len + 3) / 4 * 4

/-- The length that the first header gives. -/
def length (bytes : List UInt8) : Nat := value (window bytes 0 4)

/-- The datagram begins with a message that lies in it. -/
def Begins (bytes : List UInt8) : Prop :=
  headerSize ≤ bytes.length ∧ headerSize ≤ length bytes ∧ length bytes ≤ bytes.length

instance : DecidablePred Begins := fun bytes =>
  inferInstanceAs (Decidable (headerSize ≤ bytes.length ∧ _))

theorem aligned_ge (len : Nat) : len ≤ aligned len := by
  unfold aligned
  omega

/-- The types of the messages in a datagram, up to the first that is cut or is
not one. -/
def messages (bytes : List UInt8) : List Nat :=
  if _begins : Begins bytes then
    value (window bytes 4 2) :: messages (bytes.drop (aligned (length bytes)))
  else []
termination_by bytes.length
decreasing_by
  have upward := aligned_ge (length bytes)
  obtain ⟨-, least, most⟩ := _begins
  unfold headerSize at least
  rw [List.length_drop]
  omega

/-- What a round prints. -/
def report : Round → List String
  | .idle => []
  | .recvFails => ["fail to recv."]
  | .received [] => ["read 0 bytes"]
  | .received datagram => (messages (datagram.take bufferSize)).filterMap line

/-! ### The loop finds it -/

variable {buffer : List UInt8} {received : Nat}

/-- Clearing two bits rounds down to a multiple of four. -/
theorem toNat_and_align (word : BitVec 32) :
    (word &&& ~~~(4#32 - 1#32)).toNat = word.toNat / 4 * 4 := by
  have shifted : word &&& ~~~(4#32 - 1#32) = (word >>> 2) <<< 2 := by
    apply BitVec.eq_of_getLsbD_eq
    intro bit inside
    interval_cases bit <;> simp
  have bound := word.isLt
  rw [shifted]
  simp only [BitVec.toNat_shiftLeft, BitVec.toNat_ushiftRight, Nat.shiftLeft_eq,
    Nat.shiftRight_eq_div_pow]
  omega

theorem toNat_NLMSG_ALIGN {len : BitVec 32} (small : len.toNat + 3 < 2 ^ 32) :
    (NLMSG_ALIGN len).toNat = aligned len.toNat := by
  have sum : (len + 4#32 - 1#32).toNat = len.toNat + 3 := by bv_omega
  rw [NLMSG_ALIGN, toNat_and_align, sum, aligned]

/-- Inside what was received, `nlmsg_len` is the length the bytes there begin with. -/
theorem nlmsgLen_eq (inside : received ≤ buffer.length) (nlh : Nat)
    (header : nlh + headerSize ≤ received) :
    ∃ len, nlmsgLen buffer nlh = some len ∧
      len.toNat = length (window buffer nlh (received - nlh)) := by
  unfold headerSize at header
  refine ⟨_, by rw [nlmsgLen, load_eq (by omega), Option.map_some], ?_⟩
  have four : (window buffer nlh 4).length = 4 := window_length (by omega)
  have bound := value_lt (window buffer nlh 4)
  rw [four] at bound
  rw [length, window_window (by omega), Nat.add_zero, BitVec.toNat_ofNat]
  exact Nat.mod_eq_of_lt bound

theorem nlmsgType_eq (inside : received ≤ buffer.length) (nlh : Nat)
    (header : nlh + headerSize ≤ received) :
    nlmsgType buffer nlh = some (value (window (window buffer nlh (received - nlh)) 4 2)) := by
  unfold headerSize at header
  rw [nlmsgType, load_eq (by omega), Option.map_some, window_window (by omega)]

/-- The loop goes on exactly where a message begins. -/
theorem NLMSG_OK_eq (inside : received ≤ buffer.length) (nlh : Nat) :
    NLMSG_OK buffer ⟨nlh, received - nlh⟩ =
      some (decide (Begins (window buffer nlh (received - nlh)))) := by
  rw [NLMSG_OK]
  by_cases short : (received : Int) - nlh < headerSize
  · have few : (window buffer nlh (received - nlh)).length < headerSize := by
      simp only [window, List.length_take, List.length_drop]
      unfold headerSize at short ⊢
      omega
    have stops : ¬ Begins (window buffer nlh (received - nlh)) := by
      rintro ⟨header, -⟩
      omega
    rw [if_pos short, decide_eq_false stops]
  · have header : nlh + headerSize ≤ received := by omega
    have size : (window buffer nlh (received - nlh)).length = received - nlh :=
      window_length (by omega)
    obtain ⟨len, read, known⟩ := nlmsgLen_eq inside nlh header
    rw [if_neg short]
    dsimp only
    rw [read, Option.bind_eq_bind, Option.bind_some, known]
    refine congrArg some (decide_eq_decide.mpr ?_)
    rw [Begins, size]
    omega

/-- The loop visits the messages of what was received, from any place on. -/
theorem visits_messages (inside : received ≤ buffer.length) (small : received + 3 < 2 ^ 32)
    (nlh : Nat) :
    Visits (body buffer) ⟨nlh, received - nlh⟩ (messages (window buffer nlh (received - nlh))) := by
  generalize measured : received - nlh = remaining
  induction remaining using Nat.strong_induction_on generalizing nlh with
  | _ remaining ih =>
    subst measured
    have ok := NLMSG_OK_eq inside nlh
    rw [messages]
    split
    · rename_i begins
      rw [decide_eq_true begins] at ok
      obtain ⟨header, least, most⟩ := begins
      have size : (window buffer nlh (received - nlh)).length ≤ received - nlh := by
        simp only [window, List.length_take]
        omega
      unfold headerSize at header least
      obtain ⟨len, read, known⟩ := nlmsgLen_eq inside nlh (by unfold headerSize; omega)
      have upward := aligned_ge len.toNat
      have moved : NLMSG_NEXT buffer ⟨nlh, received - nlh⟩ =
          some ⟨nlh + aligned len.toNat, received - (nlh + aligned len.toNat : Nat)⟩ := by
        rw [NLMSG_NEXT, read, Option.bind_eq_bind, Option.bind_some,
          toNat_NLMSG_ALIGN (by omega)]
        simp only [Option.some.injEq, Cursor.mk.injEq, true_and]
        omega
      have turned : body buffer ⟨nlh, received - nlh⟩ = some (.visit
          (value (window (window buffer nlh (received - nlh)) 4 2))
          ⟨nlh + aligned len.toNat, received - (nlh + aligned len.toNat : Nat)⟩) := by
        rw [body, ok]
        dsimp only [Option.bind_eq_bind, Option.bind_some]
        rw [nlmsgType_eq inside nlh (by unfold headerSize; omega), moved]
        rfl
      refine .visit turned ?_
      rw [← known, window_drop, Nat.sub_sub]
      exact ih _ (by omega) _ rfl
    · rename_i stops
      rw [decide_eq_false stops] at ok
      refine .stop ?_
      rw [body, ok]
      rfl

theorem messages_length_le (bytes : List UInt8) : (messages bytes).length ≤ bytes.length := by
  fun_induction messages bytes with
  | case1 bytes begins ih =>
    have upward := aligned_ge (length bytes)
    obtain ⟨header, least, -⟩ := begins
    unfold headerSize at header least
    rw [List.length_drop] at ih
    rw [List.length_cons]
    omega
  | case2 bytes stops => exact Nat.zero_le _

/-- The whole walk, where the received bytes lie at the front of the array. -/
theorem traverse_front {data : List UInt8} (inside : data.length ≤ buffer.length)
    (front : window buffer 0 data.length = data) (small : data.length + 3 < 2 ^ 32) :
    Traversal.traverse (body buffer) (data.length + 1) ⟨0, data.length⟩ = some (messages data) := by
  have visited := visits_messages inside small 0
  rw [Nat.sub_zero, front] at visited
  have few := messages_length_le data
  simpa using visited.traverse (show _ < data.length + 1 by omega)

/-- What lies in the array behind the received bytes plays no part. -/
theorem traverse_received (buffer data : List UInt8) (fits : data.length ≤ buffer.length)
    (small : data.length + 3 < 2 ^ 32) :
    Traversal.traverse (body (overwrite buffer 0 data)) (data.length + 1) ⟨0, data.length⟩ =
      some (messages data) := by
  have laid : (overwrite buffer 0 data).length = buffer.length := overwrite_length (by omega)
  exact traverse_front (laid ▸ fits) (window_overwrite_self (by omega)) small

/-- The walk keeps to the received bytes. -/
theorem traverse_confined (data : List UInt8) (small : data.length + 3 < 2 ^ 32) :
    Traversal.traverse (body data) (data.length + 1) ⟨0, data.length⟩ = some (messages data) :=
  traverse_front (Nat.le_refl data.length) (window_all data) small

theorem report_received {datagram : List UInt8} (some_bytes : (datagram.take bufferSize).length ≠ 0) :
    report (.received datagram) = (messages (datagram.take bufferSize)).filterMap line := by
  cases datagram with
  | nil => exact absurd rfl some_bytes
  | cons byte rest => rfl

/-- A round ends, reads nothing but what it has received, and prints its own
report. -/
theorem step_report {s : Monitor} (whole : s.buffer.length = bufferSize) (round : Round) :
    ∃ next, step s round = some next ∧ confined s round = some next ∧
      next.buffer.length = bufferSize ∧ next.output = s.output ++ report round := by
  cases round with
  | idle => exact ⟨s, rfl, rfl, whole, (List.append_nil _).symm⟩
  | recvFails => exact ⟨_, rfl, rfl, whole, rfl⟩
  | received datagram =>
    have most : (datagram.take bufferSize).length ≤ bufferSize := List.length_take_le ..
    have laid : (overwrite s.buffer 0 (datagram.take bufferSize)).length = bufferSize :=
      (overwrite_length (by omega)).trans whole
    by_cases nothing : (datagram.take bufferSize).length = 0
    · obtain rfl : datagram = [] := by
        rw [List.length_take] at nothing
        exact List.length_eq_zero_iff.mp (by unfold bufferSize at nothing; omega)
      exact ⟨_, rfl, rfl, laid, rfl⟩
    · have small : (datagram.take bufferSize).length + 3 < 2 ^ 32 := by
        unfold bufferSize at most ⊢
        omega
      have found := traverse_received s.buffer (datagram.take bufferSize) (by omega) small
      refine ⟨⟨overwrite s.buffer 0 (datagram.take bufferSize), s.output ++
        (messages (datagram.take bufferSize)).filterMap line⟩, ?_, ?_, laid, ?_⟩
      · simp only [step, if_neg nothing, found]
        rfl
      · simp only [confined, if_neg nothing, traverse_confined _ small]
        rfl
      · rw [report_received nothing]

theorem run_report (rounds : List Round) {s : Monitor} (whole : s.buffer.length = bufferSize) :
    ∃ final, run step s rounds = some final ∧ run confined s rounds = some final ∧
      final.output = s.output ++ rounds.flatMap report := by
  induction rounds generalizing s with
  | nil => exact ⟨s, rfl, rfl, (List.append_nil _).symm⟩
  | cons round rest ih =>
    obtain ⟨next, stepped, within, kept, printed⟩ := step_report whole round
    obtain ⟨final, ran, followed, later⟩ := ih kept
    refine ⟨final, run_cons_some.mpr ⟨next, stepped, ran⟩,
      run_cons_some.mpr ⟨next, within, followed⟩, ?_⟩
    rw [later, printed, List.flatMap_cons, List.append_assoc]

/-- In every run every round comes to its end, reads nothing but what it has
received, so that confined to these bytes it does the same, and prints what its
own datagram holds. -/
theorem monitor_reports (rounds : List Round) :
    ∃ final, run step start rounds = some final ∧ run confined start rounds = some final ∧
      final.output = rounds.flatMap report :=
  run_report rounds (List.length_replicate ..)

/-! ### Messages back from a datagram -/

/-- A message as the kernel writes it, with the padding in front of the next. -/
structure Message where
  type : Nat
  flags : Nat
  seq : Nat
  pid : Nat
  payload : List UInt8
  padding : List UInt8
  typed : type < 256 ^ 2
  sized : headerSize + payload.length < 256 ^ 4
  padded : headerSize + payload.length + padding.length = aligned (headerSize + payload.length)

/-- What `nlmsg_len` counts. -/
def Message.size (m : Message) : Nat := headerSize + m.payload.length

def Message.encode (m : Message) : List UInt8 :=
  littleEndian 4 m.size ++ (littleEndian 2 m.type ++ (littleEndian 2 m.flags ++
    (littleEndian 4 m.seq ++ (littleEndian 4 m.pid ++ (m.payload ++ m.padding)))))

/-- The messages that lie in the first `n` bytes, the padding of the last one
aside. -/
def complete : Nat → List Message → List Message
  | _, [] => []
  | n, m :: rest => if m.size ≤ n then m :: complete (n - aligned m.size) rest else []

theorem Message.encode_length (m : Message) : m.encode.length = aligned m.size := by
  have padded := m.padded
  simp only [encode, size, List.length_append, littleEndian_length]
  unfold headerSize at padded ⊢
  omega

/-- The length and the type of a message that is followed by anything. -/
theorem Message.encode_fields (m : Message) (rest : List UInt8) :
    value (window (m.encode ++ rest) 0 4) = m.size ∧
      value (window (m.encode ++ rest) 4 2) = m.type := by
  have front : window (m.encode ++ rest) 0 4 = littleEndian 4 m.size := by
    rw [window, List.drop_zero, encode, List.append_assoc]
    exact List.take_left' (littleEndian_length ..)
  have second : window (m.encode ++ rest) 4 2 = littleEndian 2 m.type := by
    rw [window, encode, List.append_assoc, List.drop_left' (littleEndian_length ..),
      List.append_assoc]
    exact List.take_left' (littleEndian_length ..)
  rw [front, second, value_littleEndian, value_littleEndian]
  exact ⟨Nat.mod_eq_of_lt m.sized, Nat.mod_eq_of_lt m.typed⟩

theorem window_of_take {cells : List UInt8} {start count n : Nat} (within : start + count ≤ n) :
    window (cells.take n) start count = window cells start count := by
  have whole := window_window within cells 0
  rwa [Nat.zero_add, show window cells 0 n = cells.take n from rfl] at whole

/-- Cutting a message short is noticed: a datagram begins with a message that
was put there first exactly when all of that message is left. -/
theorem begins_iff (m : Message) (rest : List UInt8) (n : Nat) :
    Begins ((m.encode ++ rest).take n) ↔ m.size ≤ n := by
  have upward := aligned_ge m.size
  have least : headerSize ≤ m.size := Nat.le_add_right ..
  have count : ((m.encode ++ rest).take n).length = min n (aligned m.size + rest.length) := by
    rw [List.length_take, List.length_append, m.encode_length]
  by_cases header : headerSize ≤ n
  · have known : length ((m.encode ++ rest).take n) = m.size := by
      rw [length, window_of_take (by unfold headerSize at header; omega)]
      exact (m.encode_fields rest).1
    rw [Begins, known, count]
    omega
  · rw [Begins, count]
    omega

/-- Of messages put one after another, and cut off anywhere, the ones that are
whole are found, in order and no others. -/
theorem messages_encoded (all : List Message) (n : Nat) :
    messages ((all.flatMap Message.encode).take n) = (complete n all).map Message.type := by
  induction all generalizing n with
  | nil =>
    have nothing : ¬ Begins (([] : List UInt8).take n) := by simp [Begins, headerSize]
    rw [List.flatMap_nil, messages, dif_neg nothing]
    rfl
  | cons m rest ih =>
    rw [List.flatMap_cons, messages, complete]
    by_cases whole : m.size ≤ n
    · have header : headerSize ≤ n := Nat.le_trans (Nat.le_add_right ..) whole
      unfold headerSize at header
      obtain ⟨size, type⟩ := m.encode_fields (rest.flatMap Message.encode)
      have skipped : ((m.encode ++ rest.flatMap Message.encode).take n).drop (aligned m.size) =
          (rest.flatMap Message.encode).take (n - aligned m.size) := by
        rw [List.drop_take, List.drop_left' m.encode_length]
      rw [dif_pos ((begins_iff m _ n).mpr whole), if_pos whole, List.map_cons, length,
        window_of_take (by omega), window_of_take (by omega), size, type, skipped, ih]
    · rw [dif_neg (mt (begins_iff m _ n).mp whole), if_neg whole]
      rfl

/-- What is printed for messages that come in one datagram. -/
def reportOf : List Message → List String
  | [] => ["read 0 bytes"]
  | all => (complete bufferSize all).filterMap fun m => line m.type

theorem report_encoded (all : List Message) :
    report (.received (all.flatMap Message.encode)) = reportOf all := by
  cases all with
  | nil => rfl
  | cons m rest =>
    have some_bytes : (((m :: rest).flatMap Message.encode).take bufferSize).length ≠ 0 := by
      have upward := aligned_ge m.size
      have least : headerSize ≤ m.size := Nat.le_add_right ..
      rw [List.length_take, List.flatMap_cons, List.length_append, m.encode_length]
      unfold headerSize at least
      unfold bufferSize
      omega
    rw [report_received some_bytes, messages_encoded, List.filterMap_map]
    rfl

/-- A link comes up: a message of 17 bytes and its padding. -/
def link : Message where
  type := RTM_NEWLINK
  flags := 0
  seq := 0
  pid := 0
  payload := [1]
  padding := [0, 0, 0]
  typed := by decide
  sized := by decide
  padded := by decide

/-- Two links come up, and then only the header of the message about a third is
received, over the rest of the first. -/
theorem monitor_reports_cut :
    let rounds : List Round := [.received ([link, link].flatMap Message.encode), .idle,
      .received (([link].flatMap Message.encode).take 16)]
    ∃ final, run step start rounds = some final ∧ run confined start rounds = some final ∧
      final.output = ["RTM_NEWLINK or RTM_DELLINK", "RTM_NEWLINK or RTM_DELLINK"] := by
  intro rounds
  obtain ⟨final, ran, within, output⟩ := monitor_reports rounds
  have whole : report (.received ([link, link].flatMap Message.encode)) =
      ["RTM_NEWLINK or RTM_DELLINK", "RTM_NEWLINK or RTM_DELLINK"] := by
    rw [report_encoded]
    decide
  have short : report (.received (([link].flatMap Message.encode).take 16)) = [] := by
    rw [report_received (by decide), List.take_take, messages_encoded]
    decide
  refine ⟨final, ran, within, output.trans ?_⟩
  change report _ ++ (report .idle ++ (report _ ++ [])) = _
  rw [whole, short]
  rfl

/-- In every run in which datagrams of any messages are received, each one's
messages as far as the array holds them whole are reported, in order and no
others. -/
theorem whole_messages_reported (datagrams : List (List Message)) :
    ∃ final, run step start (datagrams.map fun all => .received (all.flatMap Message.encode)) =
        some final ∧ final.output = datagrams.flatMap reportOf := by
  obtain ⟨final, ran, -, printed⟩ := run_report
    (datagrams.map fun all => Round.received (all.flatMap Message.encode))
    (show start.buffer.length = bufferSize from List.length_replicate ..)
  refine ⟨final, ran, printed.trans ?_⟩
  rw [List.flatMap_map]
  simp only [report_encoded]
  rfl

end ExNetlink.Netlink
