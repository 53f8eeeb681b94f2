import Mathlib.Data.List.ReduceOption
import ExNetlink.RttServer
import ExNetlink.BufferIndexRuns

/-! Requests on one connection of the RTT server, whatever reads they arrive
in, while the socket takes every answer whole.

The read ring has room for three packages less the padding, and the server
takes requests out of it in words of eight bytes. As long as fewer than two
requests are queued the ring neither grows nor wraps into its padding, so a
complete request is answered with the client's own word at the read that
completes it. -/
namespace ExNetlink.RttFraming
open Windows SizeArith ByteOrder Runs CirculationBuffer BufferIndexRuns BufferPeek RttServer

/-- One read of 1 to 1024 bytes whose answer, if there is one, the socket takes
whole. -/
structure Delivery where
  bytes : List UInt8
  nonempty : bytes ≠ []
  single : bytes.length ≤ 1024
  recvTime : Timeval
  sendTime : Timeval
  limit : Nat
  whole : packageSize ≤ limit
  beyond : List UInt8
  fresh : Nat → UInt8

/-- What the POLLIN branch sees of it. -/
def Delivery.io (d : Delivery) : Readable where
  received := some d.bytes
  recvTime := d.recvTime
  sendTime := d.sendTime
  write := { accepts := some d.limit }
  beyond := d.beyond
  fresh := d.fresh

/-- A connection, all bytes received on it and, read by read, its answers. -/
structure Session where
  conn : Connection := {}
  received : List UInt8 := []
  answers : List (Option RttPackage) := []

def serve (s : Session) (d : Delivery) : Option Session :=
  (pollin s.conn d.io).map fun (conn, answer) =>
    { conn := conn, received := s.received ++ d.bytes, answers := s.answers ++ [answer] }

/-- The read ring with the bytes it holds: its indices are in order, it has not
grown, and requests have been taken from it in words of eight bytes. -/
structure Framed (b : CirculationBuffer) (queue : List UInt8) : Prop extends Indexed b where
  sized : b.length = 3 * packageSize
  aligned : b.readindex % 8 = 4
  holds : b.contents = queue

variable {b : CirculationBuffer} {queue data : List UInt8}

theorem make_framed : Framed (make (3 * packageSize)) [] where
  allocated := List.length_replicate
  bounded := by decide
  readInside := by decide
  writeInside := by decide
  guarded := Nat.le_refl _
  gap := .inl (Nat.le_refl _)
  started := fun wrapped => absurd wrapped (Nat.lt_irrefl _)
  sized := rfl
  aligned := rfl
  holds := by decide

theorem Framed.readedSize_eq (framed : Framed b queue) : b.readedSize = queue.length := by
  rw [← contents_length framed.toSound, framed.holds]

/-- With the read index at the padding there is no room to wrap into. -/
theorem Framed.straight (framed : Framed b queue) (front : b.readindex = padding) :
    b.readindex ≤ b.writeindex := by
  by_contra wrapped
  have gap := framed.gap
  have started := framed.started (by omega)
  omega

theorem append_framed (framed : Framed b queue) (room : queue.length + data.length ≤ 68)
    (fresh : Nat → UInt8) :
    ∃ after, b.append data data.length fresh = some after ∧ Framed after (queue ++ data) ∧
      after.readindex = b.readindex := by
  have accounted := framed.toIndexed.repInv.accounted
  have pad : padding = 4 := rfl
  rw [framed.readedSize_eq, framed.sized, packageSize] at accounted
  have free : data.length ≤ b.writedSize := by omega
  have size : data.length < 2 ^ 64 := by omega
  obtain ⟨after, appended, kept, length, read, queued⟩ :=
    append_indexed framed.toIndexed size free fresh
  exact ⟨after, appended, ⟨kept, length.trans framed.sized, read ▸ framed.aligned,
    by rw [queued, framed.holds]⟩, read⟩

/-- Skipping a word leaves the read index on the same residue: at the end of the
array it comes around to exactly the padding. -/
theorem skip_framed (framed : Framed b queue) (word : 8 ≤ queue.length) :
    ∃ after, b.skip 8 = some after ∧ Framed after (queue.drop 8) ∧
      (queue.length = 8 → after = b.retrieveAll) := by
  have sound := framed.toSound
  have count := framed.readedSize_eq
  have sized : b.length = 72 := framed.sized
  have aligned := framed.aligned
  have readInside := sound.readInside
  have pad : padding = 4 := rfl
  obtain ⟨after, skipped, kept⟩ := skip_indexed framed.toIndexed (show 8 ≤ b.readedSize by omega)
    (by rintro ⟨-, -, past, short⟩; omega)
  obtain ⟨same, skippedSame, -, length, contents⟩ :=
    skip_contents sound (show 8 ≤ b.readedSize by omega)
  obtain rfl : after = same := Option.some.inj (skipped.symm.trans skippedSame)
  have aligned' : after.readindex % 8 = 4 := by
    rcases Nat.lt_or_eq_of_le word with more | last
    · by_cases wrapped : b.writeindex < b.readindex
      · by_cases within : b.readindex + 8 < b.length
        · rw [skip_tail sound wrapped within] at skipped
          rw [← Option.some.inj skipped]
          dsimp only
          omega
        · rw [skip_around sound wrapped (by omega) (by omega)] at skipped
          rw [← Option.some.inj skipped]
          dsimp only
          omega
      · rw [skip_straight sound (by omega) (by omega)] at skipped
        rw [← Option.some.inj skipped]
        dsimp only
        omega
    · rw [show 8 = b.readedSize by omega, skip_all] at skipped
      rw [← Option.some.inj skipped]
      rfl
  refine ⟨after, skipped, ⟨kept, length.trans framed.sized, aligned', ?_⟩, fun last => ?_⟩
  · rw [contents, framed.holds]
  · rw [show 8 = b.readedSize by omega, skip_all] at skipped
    exact (Option.some.inj skipped).symm

/-- A queued request is taken out whole, and its first word is read in network
order. The last bytes of the queue leave the ring at its start. -/
theorem takeRequest_framed (framed : Framed b queue) (complete : packageSize ≤ queue.length) :
    ∃ after request, takeRequest b = some (after, request) ∧
      Framed after (queue.drop packageSize) ∧ request.cSendTs = bigEndian (queue.take 8) ∧
      (queue.length = packageSize → after.readindex = padding ∧ after.writeindex = padding) := by
  have size : packageSize = 24 := rfl
  obtain ⟨first, skip1, framed1, -⟩ := skip_framed framed (by omega)
  obtain ⟨second, skip2, framed2, -⟩ := skip_framed framed1 (by rw [List.length_drop]; omega)
  obtain ⟨third, skip3, framed3, last⟩ := skip_framed framed2
    (by rw [List.length_drop, List.length_drop]; omega)
  have peek1 := peek_eq framed.toSound .uint64 (by rw [framed.readedSize_eq, Width.sizeof]; omega)
  have peek2 := peek_eq framed1.toSound .uint64
    (by rw [framed1.readedSize_eq, Width.sizeof, List.length_drop]; omega)
  have peek3 := peek_eq framed2.toSound .uint64
    (by rw [framed2.readedSize_eq, Width.sizeof, List.length_drop, List.length_drop]; omega)
  rw [framed.holds] at peek1
  have taken : takeRequest b = some (third, {
      cSendTs := bigEndian (queue.take 8)
      sRecvTs := bigEndian (first.contents.take 8)
      sSendTs := bigEndian (second.contents.take 8) }) := by
    rw [takeRequest, peek1, skip1]
    simp only [Option.bind_eq_bind, Option.bind_some, peek2, skip2, peek3, skip3]
    rfl
  refine ⟨third, _, taken, ?_, rfl, fun only => ?_⟩
  · rw [List.drop_drop, List.drop_drop] at framed3
    exact framed3
  · rw [last (by rw [List.length_drop, List.length_drop]; omega)]
    exact ⟨rfl, rfl⟩

theorem bytes_length (pkg : RttPackage) : pkg.bytes.length = packageSize := by
  simp [RttPackage.bytes, packageSize]

/-- An answer the socket takes whole goes to the wire and nowhere else. -/
theorem writeResponse_whole {socket : SocketWrite} {limit : Nat}
    (takes : socket.accepts = some limit) (whole : packageSize ≤ limit) (c : Connection)
    (pkg : RttPackage) (beyond : List UInt8) (fresh : Nat → UInt8) :
    writeResponse c pkg socket beyond fresh = some { c with wire := c.wire ++ pkg.bytes } := by
  have size : packageSize = 24 := rfl
  have taken : min limit pkg.bytes.length = 24 := by rw [bytes_length]; omega
  have all : pkg.bytes.take limit = pkg.bytes := List.take_of_length_le (by rw [bytes_length]; omega)
  have count : asSize ((24 : Nat) : Int) = 24 := by decide
  have positive : ¬ ((24 : Nat) : Int) ≤ 0 := by decide
  simp only [writeResponse, SocketWrite.write, takes, taken, all, if_neg positive, count, size,
    Option.bind_eq_bind, Option.bind_some, Nat.lt_irrefl, if_false]

/-- The first word of an answer is the client's, byte for byte. -/
theorem respond_echoes (request : RttPackage) (recvTime sendTime : Timeval) (word : List UInt8)
    (width : word.length = 8) (sent : request.cSendTs = bigEndian word) :
    (respond request recvTime sendTime).bytes.take 8 = word := by
  rw [RttPackage.bytes, List.append_assoc, List.take_append_of_le_length (by simp),
    List.take_of_length_le (by simp), respond, sent, littleEndian_host2network word width]

/-! ### One read -/

variable {s : Session} {d : Delivery}

theorem receive_delivery (c : Connection) (d : Delivery) :
    receive c d.io = (c.translation.rbuffer.append d.bytes d.bytes.length d.fresh).bind fun rbuffer =>
      if rbuffer.readedSize < packageSize then
        some ({ c.setRbuffer rbuffer with events := c.events ||| Reactor.POLLIN }, none)
      else (takeRequest rbuffer).bind fun (rbuffer, request) =>
        some (c.setRbuffer rbuffer, some (respond request d.recvTime d.sendTime)) := by
  have positive : 0 < d.bytes.length := List.length_pos_iff.mpr d.nonempty
  have single := d.single
  have count : asSize (d.bytes.length : Int) = d.bytes.length := asSize_ofNat (by omega)
  have arrived : ¬ ((d.bytes.length : Int) ≤ 0 ∧ (d.bytes.length : Int) ≠ EAGAIN) := by omega
  simp only [receive, Readable.rs, Delivery.io, if_neg arrived, Option.getD_some, count]
  rfl

/-- A read that leaves the request incomplete is queued without an answer. -/
theorem serve_incomplete (framed : Framed s.conn.translation.rbuffer queue)
    (short : queue.length + d.bytes.length < packageSize) :
    ∃ next, serve s d = some next ∧
      Framed next.conn.translation.rbuffer (queue ++ d.bytes) ∧
      next.conn.translation.rbuffer.readindex = s.conn.translation.rbuffer.readindex ∧
      next.received = s.received ++ d.bytes ∧ next.answers = s.answers ++ [none] := by
  have size : packageSize = 24 := rfl
  obtain ⟨after, appended, kept, read⟩ :=
    append_framed framed (show queue.length + d.bytes.length ≤ 68 by omega) d.fresh
  have few : after.readedSize < packageSize := by
    rw [kept.readedSize_eq, List.length_append]
    exact short
  have handled : pollin s.conn d.io =
      some ({ s.conn.setRbuffer after with events := s.conn.events ||| Reactor.POLLIN }, none) := by
    rw [pollin, receive_delivery, appended]
    simp only [Option.bind_eq_bind, Option.bind_some, if_pos few]
  exact ⟨_, by rw [serve, handled]; rfl, kept, read, rfl, rfl⟩

/-- A read that completes a request is answered with the request's own first
word, and the ring keeps what follows the request. -/
theorem serve_complete (framed : Framed s.conn.translation.rbuffer queue)
    (complete : packageSize ≤ queue.length + d.bytes.length)
    (room : queue.length + d.bytes.length ≤ 68) :
    ∃ next answer, serve s d = some next ∧
      Framed next.conn.translation.rbuffer ((queue ++ d.bytes).drop packageSize) ∧
      next.received = s.received ++ d.bytes ∧ next.answers = s.answers ++ [some answer] ∧
      answer.bytes.take 8 = (queue ++ d.bytes).take 8 ∧
      (queue.length + d.bytes.length = packageSize →
        next.conn.translation.rbuffer.readindex = padding ∧
        next.conn.translation.rbuffer.writeindex = padding) := by
  have size : packageSize = 24 := rfl
  obtain ⟨after, appended, kept, -⟩ := append_framed framed room d.fresh
  have enough : ¬ after.readedSize < packageSize := by
    rw [kept.readedSize_eq, List.length_append]
    omega
  obtain ⟨rest, request, taken, left, first, reset⟩ :=
    takeRequest_framed kept (by rw [List.length_append]; exact complete)
  have handled : pollin s.conn d.io = some ({ s.conn.setRbuffer rest with
      wire := s.conn.wire ++ (respond request d.recvTime d.sendTime).bytes },
      some (respond request d.recvTime d.sendTime)) := by
    rw [pollin, receive_delivery, appended]
    simp only [Option.bind_eq_bind, Option.bind_some, if_neg enough, taken]
    rw [writeResponse_whole (show d.io.write.accepts = some d.limit from rfl) d.whole]
    rfl
  refine ⟨_, respond request d.recvTime d.sendTime, by rw [serve, handled]; rfl, left, rfl, rfl, ?_,
    fun only => reset (by rw [List.length_append]; exact only)⟩
  apply respond_echoes _ _ _ _ _ first
  rw [List.length_take, List.length_append]
  omega

/-! ### The wire -/

/-- Up to its `write` the branch sends nothing. -/
theorem receive_wire {c after : Connection} {io : Readable} {answer : Option RttPackage}
    (received : receive c io = some (after, answer)) : after.wire = c.wire := by
  unfold receive at received
  split at received
  · obtain ⟨rfl, -⟩ := Prod.mk.inj (Option.some.inj received)
    rfl
  · obtain ⟨rbuffer, -, received⟩ := Option.bind_eq_some_iff.mp received
    split at received
    · obtain ⟨rfl, -⟩ := Prod.mk.inj (Option.some.inj received)
      rfl
    · obtain ⟨⟨rest, request⟩, -, received⟩ := Option.bind_eq_some_iff.mp received
      obtain ⟨rfl, -⟩ := Prod.mk.inj (Option.some.inj received)
      rfl

/-- A read puts its answer on the wire, whole, and nothing else. -/
theorem serve_written {s next : Session} {d : Delivery} (served : serve s d = some next) :
    ∃ answer, next.answers = s.answers ++ [answer] ∧
      next.conn.wire = s.conn.wire ++ [answer].reduceOption.flatMap RttPackage.bytes := by
  obtain ⟨⟨conn, answer⟩, handled, rfl⟩ := Option.map_eq_some_iff.mp served
  obtain ⟨⟨after, pkg⟩, received, handled⟩ := Option.bind_eq_some_iff.mp handled
  have silent := receive_wire received
  refine ⟨answer, rfl, ?_⟩
  cases pkg with
  | none =>
    obtain ⟨rfl, rfl⟩ := Prod.mk.inj (Option.some.inj handled)
    exact silent.trans (List.append_nil _).symm
  | some pkg =>
    obtain ⟨written, wrote, handled⟩ := Option.bind_eq_some_iff.mp handled
    obtain ⟨rfl, rfl⟩ := Prod.mk.inj (Option.some.inj handled)
    rw [writeResponse_whole (show d.io.write.accepts = some d.limit from rfl) d.whole] at wrote
    obtain rfl := Option.some.inj wrote
    change after.wire ++ pkg.bytes = s.conn.wire ++ (pkg.bytes ++ [])
    rw [silent, List.append_nil]

/-- After any reads the socket has taken the answers, one after the other. -/
theorem run_written {s final : Session} {ds : List Delivery}
    (sent : s.conn.wire = s.answers.reduceOption.flatMap RttPackage.bytes)
    (ran : run serve s ds = some final) :
    final.conn.wire = final.answers.reduceOption.flatMap RttPackage.bytes := by
  have kept : ∀ (s : Session) d next, s.conn.wire = s.answers.reduceOption.flatMap RttPackage.bytes →
      serve s d = some next →
      next.conn.wire = next.answers.reduceOption.flatMap RttPackage.bytes := by
    intro s d next sent served
    obtain ⟨answer, answers, wire⟩ := serve_written served
    rw [wire, answers, List.reduceOption_append, List.flatMap_append, sent]
  exact run_keeps kept sent ran

/-! ### Closed-loop requests -/

/-- One request of 24 bytes, cut into reads. The client sends it after the
previous answer, so no read carries bytes of two requests. -/
structure Request where
  reads : List Delivery
  complete : (reads.flatMap Delivery.bytes).length = packageSize

def Request.bytes (request : Request) : List UInt8 := request.reads.flatMap Delivery.bytes

/-- Which reads of a request are answered: the last one. -/
def Request.answered (request : Request) : List Bool :=
  List.replicate (request.reads.length - 1) false ++ [true]

/-- The session between reads: a ring at its start that holds the bytes of an
unfinished request. -/
private structure Waiting (s : Session) (queue : List UInt8) : Prop where
  framed : Framed s.conn.translation.rbuffer queue
  front : s.conn.translation.rbuffer.readindex = padding

private theorem serve_part (s : Session) (queue : List UInt8) (waiting : Waiting s queue)
    (part : List Delivery)
    (short : queue.length + (part.flatMap Delivery.bytes).length < packageSize) :
    ∃ next, run serve s part = some next ∧ Waiting next (queue ++ part.flatMap Delivery.bytes) ∧
      next.answers = s.answers ++ List.replicate part.length none := by
  induction part generalizing s queue with
  | nil => exact ⟨s, rfl, by simpa using waiting, by simp⟩
  | cons d rest ih =>
    rw [List.flatMap_cons, List.length_append] at short
    obtain ⟨middle, served, framed, read, -, answers⟩ :=
      serve_incomplete (d := d) waiting.framed (by omega)
    obtain ⟨next, ran, final, later⟩ := ih middle (queue ++ d.bytes)
      ⟨framed, read.trans waiting.front⟩ (by rw [List.length_append]; omega)
    refine ⟨next, run_cons_some.mpr ⟨middle, served, ran⟩, ?_, ?_⟩
    · rwa [List.flatMap_cons, ← List.append_assoc]
    · rw [later, answers, List.length_cons, List.replicate_succ, List.append_assoc]
      rfl

private theorem serve_request (s : Session) (waiting : Waiting s []) (request : Request) :
    ∃ next answer, run serve s request.reads = some next ∧ Waiting next [] ∧
      next.answers = s.answers ++ (List.replicate (request.reads.length - 1) none ++ [some answer]) ∧
      answer.bytes.take 8 = request.bytes.take 8 := by
  have size : packageSize = 24 := rfl
  have complete := request.complete
  rcases List.eq_nil_or_concat request.reads with none | ⟨front, last, shape⟩
  · rw [none] at complete
    cases complete
  rw [List.concat_eq_append] at shape
  have bytes : request.bytes = front.flatMap Delivery.bytes ++ last.bytes := by
    rw [Request.bytes, shape, List.flatMap_append, List.flatMap_singleton]
  have total : (front.flatMap Delivery.bytes).length + last.bytes.length = packageSize := by
    rw [← List.length_append, ← bytes]
    exact complete
  have positive : 0 < last.bytes.length := List.length_pos_iff.mpr last.nonempty
  obtain ⟨middle, ran, between, unanswered⟩ := serve_part s [] waiting front
    (by rw [List.length_nil]; omega)
  rw [List.nil_append] at between
  obtain ⟨next, answer, served, framed, -, answers, echoed, reset⟩ :=
    serve_complete (d := last) between.framed (by omega) (by omega)
  have empty : (front.flatMap Delivery.bytes ++ last.bytes).drop packageSize = [] :=
    List.drop_eq_nil_of_le (by rw [List.length_append]; omega)
  refine ⟨next, answer, ?_, ⟨empty ▸ framed, (reset total).1⟩, ?_, bytes ▸ echoed⟩
  · rw [shape, run_append, ran, Option.bind_some, run_cons, served]
    rfl
  · rw [answers, unanswered, shape, List.length_append, List.length_singleton, Nat.add_sub_cancel,
      List.append_assoc]

private theorem serve_requests (s : Session) (waiting : Waiting s []) (requests : List Request) :
    ∃ next answers, run serve s (requests.flatMap Request.reads) = some next ∧ Waiting next [] ∧
      next.answers = s.answers ++ answers ∧
      answers.map Option.isSome = requests.flatMap Request.answered ∧
      answers.reduceOption.map (fun pkg => pkg.bytes.take 8) =
        requests.map fun request => request.bytes.take 8 := by
  induction requests generalizing s with
  | nil => exact ⟨s, [], rfl, waiting, by simp, rfl, rfl⟩
  | cons request rest ih =>
    obtain ⟨middle, answer, ran, between, first, echoed⟩ := serve_request s waiting request
    obtain ⟨next, answers, ranRest, final, later, marks, words⟩ := ih middle between
    refine ⟨next, List.replicate (request.reads.length - 1) none ++ [some answer] ++ answers,
      ?_, final, ?_, ?_, ?_⟩
    · rw [List.flatMap_cons, run_append, ran, Option.bind_some, ranRest]
    · rw [later, first, List.append_assoc]
    · rw [List.map_append, marks, List.flatMap_cons, Request.answered, List.map_append,
        List.map_replicate]
      rfl
    · rw [List.reduceOption_append, List.reduceOption_append, List.reduceOption_replicate_none,
        List.map_append, words, List.map_cons, ← echoed]
      rfl

/-- **Framing and echo under any fragmentation.** After any closed-loop
requests and any part of a further one, the reads that completed a request are
exactly the answered ones, the answers carry the requests' first words in
order and are all that is on the wire, and the read ring stands at its start, as
long as it was made, holding just the unfinished part. -/
theorem answers_follow_requests (requests : List Request) (part : List Delivery)
    (unfinished : (part.flatMap Delivery.bytes).length < packageSize) :
    ∃ s, run serve {} (requests.flatMap Request.reads ++ part) = some s ∧
      s.answers.map Option.isSome =
        requests.flatMap Request.answered ++ List.replicate part.length false ∧
      s.answers.reduceOption.map (fun pkg => pkg.bytes.take 8) =
        requests.map (fun request => request.bytes.take 8) ∧
      s.conn.wire = s.answers.reduceOption.flatMap RttPackage.bytes ∧
      s.conn.translation.rbuffer.length = 72 ∧
      s.conn.translation.rbuffer.readindex = padding ∧
      s.conn.translation.rbuffer.writeindex =
        padding + (part.flatMap Delivery.bytes).length := by
  obtain ⟨middle, answers, ran, between, first, marks, words⟩ :=
    serve_requests {} ⟨make_framed, rfl⟩ requests
  obtain ⟨s, ranPart, waiting, later⟩ := serve_part middle [] between part
    (by rw [List.length_nil]; omega)
  rw [List.nil_append] at waiting
  have framed := waiting.framed
  have straight := framed.straight waiting.front
  have count := framed.readedSize_eq
  rw [readedSize_straight framed.toSound straight, waiting.front] at count
  have front := waiting.front
  have whole : run serve {} (requests.flatMap Request.reads ++ part) = some s := by
    rw [run_append, ran, Option.bind_some, ranPart]
  refine ⟨s, whole, ?_, ?_, run_written rfl whole, framed.sized, front, by omega⟩
  · rw [later, first, List.map_append, List.map_append, marks, List.map_replicate]
    rfl
  · rw [later, first, List.reduceOption_append, List.reduceOption_append,
      List.reduceOption_replicate_none, List.append_nil]
    exact words

/-- A read of the given bytes, with both clocks at zero. -/
def Delivery.of (bytes : List UInt8) (nonempty : bytes ≠ []) (single : bytes.length ≤ 1024) :
    Delivery where
  bytes := bytes
  nonempty := nonempty
  single := single
  recvTime := ⟨0, 0⟩
  sendTime := ⟨0, 0⟩
  limit := packageSize
  whole := Nat.le_refl _
  beyond := []
  fresh := fun _ => 0

/-- A request cut into reads of ten and fourteen bytes, and three bytes of the
next one. -/
theorem answers_follow_requests_cut :
    let request : Request := ⟨[.of (List.replicate 10 7) (by decide) (by decide),
      .of (List.replicate 14 9) (by decide) (by decide)], by decide⟩
    let part := [Delivery.of [1, 2, 3] (by decide) (by decide)]
    ∃ s, run serve {} (request.reads ++ part) = some s ∧
      s.answers.map Option.isSome = [false, true, false] ∧
      s.answers.reduceOption.map (fun pkg => pkg.bytes.take 8) = [[7, 7, 7, 7, 7, 7, 7, 7]] ∧
      s.conn.wire = s.answers.reduceOption.flatMap RttPackage.bytes ∧
      s.conn.translation.rbuffer.writeindex = 7 := by
  intro request part
  obtain ⟨s, ran, marks, words, wire, -, -, write⟩ :=
    answers_follow_requests [request] part (by decide)
  exact ⟨s, ran, marks, words, wire, write⟩

end ExNetlink.RttFraming
