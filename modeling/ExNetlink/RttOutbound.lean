import ExNetlink.RttFraming

/-! The outbound bytes of the RTT server under back-pressure.

An answer is written once; what the socket does not take is queued in the
write ring and flushed by POLLOUT rounds. The bytes on the wire followed by
the queued ones are the answer, unless the first `write` fails with `EAGAIN`:
its result `-1` then enters an unsigned subtraction and one byte beyond the
package is queued behind it. -/
namespace ExNetlink.RttOutbound
open Windows SizeArith Runs CirculationBuffer RttServer RttFraming

/-- The bytes still in the write ring; a disposed connection has none. -/
def pending (c : Connection) : List UInt8 :=
  if c.disposed then [] else c.translation.wbuffer.contents

/-- A POLLOUT round with a partial, full or blocked `write`. -/
structure Round where
  socket : SocketWrite
  mild : socket.accepts ≠ none ∨ socket.errno = EAGAIN

def flush (c : Connection) (round : Round) : Option Connection := pollout c round.socket

/-- A write ring in use: a straight ring, with room for its padding. -/
structure Flushing (c : Connection) : Prop where
  sound : Sound c.translation.wbuffer
  room : padding ≤ c.translation.wbuffer.length
  ordered : c.translation.wbuffer.readindex ≤ c.translation.wbuffer.writeindex

variable {c next : Connection} {round : Round}

private theorem load_contents (held : Flushing c) :
    load c.translation.wbuffer.buf c.translation.wbuffer.readindex
      c.translation.wbuffer.readedSize = some c.translation.wbuffer.contents := by
  have count := readedSize_straight held.sound held.ordered
  have ordered := held.ordered
  have inside := held.sound.writeInside
  rw [contents_straight held.ordered, count, load_eq (by rw [held.sound.allocated]; omega)]

private theorem flush_blocked (held : Flushing c) (live : ¬ c.disposed)
    (blocked : round.socket.accepts = none) : flush c round = some c.awaitWritable := by
  have again : round.socket.errno = EAGAIN := round.mild.resolve_left (by simp [blocked])
  simp only [flush, pollout, if_neg live, load_contents held, Option.bind_eq_bind, Option.bind_some,
    SocketWrite.write, blocked, again, ne_eq, not_true_eq_false, if_false, List.append_nil]
  rw [if_pos (by decide)]

private theorem flush_whole (held : Flushing c) (live : ¬ c.disposed)
    (takes : round.socket.accepts = some limit)
    (all : c.translation.wbuffer.contents.length ≤ limit) :
    flush c round =
      some { c with wire := c.wire ++ c.translation.wbuffer.contents }.dispose := by
  have length := contents_length held.sound
  have inside := held.sound.writeInside
  have bound := held.sound.bounded
  have count := readedSize_straight held.sound held.ordered
  have whole : min limit c.translation.wbuffer.contents.length =
      c.translation.wbuffer.readedSize := by omega
  have size : asSize (c.translation.wbuffer.readedSize : Int) =
      c.translation.wbuffer.readedSize := asSize_ofNat (by omega)
  simp only [flush, pollout, if_neg live, load_contents held, Option.bind_eq_bind,
    Option.bind_some, SocketWrite.write, takes, whole, size, List.take_of_length_le all]
  rw [if_neg (by omega), if_pos trivial]

private theorem flush_partial (held : Flushing c) (live : ¬ c.disposed)
    (takes : round.socket.accepts = some limit)
    (fewer : limit < c.translation.wbuffer.contents.length)
    (skipped : c.translation.wbuffer.skip limit = some after) :
    flush c round = some ({ c with
      wire := c.wire ++ c.translation.wbuffer.contents.take limit }.setWbuffer after).awaitWritable := by
  have length := contents_length held.sound
  have inside := held.sound.writeInside
  have bound := held.sound.bounded
  have count := readedSize_straight held.sound held.ordered
  have few : min limit c.translation.wbuffer.contents.length = limit := by omega
  have size : asSize (limit : Int) = limit := asSize_ofNat (by omega)
  simp only [flush, pollout, if_neg live, load_contents held, Option.bind_eq_bind,
    Option.bind_some, SocketWrite.write, takes, few, size]
  rw [if_neg (by omega), if_neg (by omega), skipped]
  rfl

/-- A round moves bytes from the ring to the wire and changes nothing else. -/
theorem flush_conserves (c : Connection) (round : Round) (held : Flushing c) :
    ∃ next, flush c round = some next ∧ Flushing next ∧
      next.wire ++ pending next = c.wire ++ pending c := by
  by_cases gone : c.disposed
  · exact ⟨c, by rw [flush, pollout, if_pos gone], held, rfl⟩
  have queued : pending c = c.translation.wbuffer.contents := if_neg gone
  cases outcome : round.socket.accepts with
  | none =>
    exact ⟨_, flush_blocked held gone outcome, ⟨held.sound, held.room, held.ordered⟩, rfl⟩
  | some limit =>
    by_cases all : c.translation.wbuffer.contents.length ≤ limit
    · refine ⟨_, flush_whole held gone outcome all, ⟨held.sound, held.room, held.ordered⟩, ?_⟩
      rw [queued]
      simp [pending, Connection.dispose]
    · have fewer : limit < c.translation.wbuffer.readedSize := by
        rw [← contents_length held.sound]
        omega
      have skipped := skip_straight held.sound held.ordered fewer
      obtain ⟨after, sameSkip, -, -, contents⟩ := skip_contents held.sound (Nat.le_of_lt fewer)
      obtain rfl := Option.some.inj (skipped.symm.trans sameSkip)
      refine ⟨_, flush_partial held gone outcome (by omega) skipped,
        ⟨skip_sound held.sound held.room skipped, held.room, ?_⟩, ?_⟩
      · have count := readedSize_straight held.sound held.ordered
        dsimp only [Connection.setWbuffer, Connection.awaitWritable]
        omega
      · have remaining : pending ({ c with
            wire := c.wire ++ c.translation.wbuffer.contents.take limit }.setWbuffer
              { c.translation.wbuffer with
                readindex := c.translation.wbuffer.readindex + limit }).awaitWritable =
            c.translation.wbuffer.contents.drop limit := by
          rw [← contents]
          exact if_neg gone
        rw [remaining, queued]
        dsimp only [Connection.setWbuffer, Connection.awaitWritable]
        rw [List.append_assoc, List.take_append_drop]

/-- Bytes queued in a new write ring. -/
theorem append_new (data : List UInt8) (len : Nat) (held : len ≤ data.length) (room : len ≤ 68)
    (fresh : Nat → UInt8) :
    ∃ after, (make (3 * packageSize)).append data len fresh = some after ∧ Sound after ∧
      padding ≤ after.length ∧ after.readindex ≤ after.writeindex ∧
      after.contents = data.take len := by
  have sound : Sound (make (3 * packageSize)) := make_framed.toSound
  have free : (make (3 * packageSize)).writedSize = 68 := by decide
  have write : (make (3 * packageSize)).writeindex = 4 := rfl
  have length : (make (3 * packageSize)).length = 72 := rfl
  have taken : (data.take len).length = len := by rw [List.length_take]; omega
  have same : (make (3 * packageSize)).append data len fresh =
      (make (3 * packageSize)).append (data.take len) (data.take len).length fresh := by
    rw [append_block sound held (by omega) (by omega), taken,
      append_block sound (by omega) (by omega) (by omega), List.take_take, Nat.min_self]
  obtain ⟨after, appended, framed, front⟩ :=
    append_framed make_framed (show [].length + (data.take len).length ≤ 68 by
      rw [taken, List.length_nil]; omega) fresh
  exact ⟨after, same.trans appended, framed.toSound, framed.sized ▸ by decide,
    framed.straight front, framed.holds⟩

/-! ### The first write -/

variable {pkg : RttPackage} {socket : SocketWrite} {beyond : List UInt8} {fresh : Nat → UInt8}

/-- A connection whose write ring is as it was made. -/
structure Idle (c : Connection) : Prop where
  made : c.translation.wbuffer = make (3 * packageSize)
  live : c.disposed = false

/-- A short write queues exactly the rest of the package. -/
theorem writeResponse_short (idle : Idle c) (takes : socket.accepts = some ws) (some_ : 1 ≤ ws)
    (short : ws < packageSize) :
    ∃ next, writeResponse c pkg socket beyond fresh = some next ∧ Flushing next ∧
      next.wire ++ pending next = c.wire ++ pkg.bytes := by
  have size : packageSize = 24 := rfl
  have length := bytes_length pkg
  have few : min ws pkg.bytes.length = ws := by omega
  have count : asSize (ws : Int) = ws := asSize_ofNat (by omega)
  have left : wsub packageSize ws = packageSize - ws := wsub_eq (by omega) (by decide)
  have rest : ((pkg.bytes ++ beyond).drop ws).take (packageSize - ws) = pkg.bytes.drop ws := by
    rw [List.drop_append_of_le_length (by omega), List.take_append_of_le_length
      (by rw [List.length_drop]; omega), List.take_of_length_le (by rw [List.length_drop]; omega)]
  obtain ⟨after, appended, sound, room, ordered, contents⟩ :=
    append_new ((pkg.bytes ++ beyond).drop ws) (packageSize - ws)
      (by rw [List.length_drop, List.length_append]; omega) (by omega) fresh
  refine ⟨({ c with wire := c.wire ++ pkg.bytes.take ws }.setWbuffer after).awaitWritable, ?_,
    ⟨sound, room, ordered⟩, ?_⟩
  · simp only [writeResponse, SocketWrite.write, takes, few, count, left]
    rw [if_neg (by omega), Option.bind_eq_bind, Option.bind_some, if_pos short]
    dsimp only
    rw [idle.made, appended]
    rfl
  · have queued : pending ({ c with wire := c.wire ++ pkg.bytes.take ws }.setWbuffer
        after).awaitWritable = pkg.bytes.drop ws := by
      rw [← rest, ← contents]
      exact if_neg (by simp [Connection.setWbuffer, Connection.awaitWritable, idle.live])
    rw [queued]
    dsimp only [Connection.setWbuffer, Connection.awaitWritable]
    rw [List.append_assoc, List.take_append_drop]

/-- A full write leaves the ring empty. -/
theorem writeResponse_full (idle : Idle c) (takes : socket.accepts = some ws)
    (full : packageSize ≤ ws) :
    ∃ next, writeResponse c pkg socket beyond fresh = some next ∧ Flushing next ∧
      next.wire ++ pending next = c.wire ++ pkg.bytes := by
  refine ⟨_, writeResponse_whole takes full c pkg beyond fresh, ⟨?_, ?_, ?_⟩, ?_⟩
  · exact idle.made ▸ make_framed.toSound
  · exact idle.made ▸ by decide
  · exact idle.made ▸ Nat.le_refl _
  · have empty : pending { c with wire := c.wire ++ pkg.bytes } = [] :=
      (if_neg (by simp [idle.live])).trans (idle.made ▸ make_framed.holds)
    rw [empty, List.append_nil]

private theorem writeResponse_again (blocked : socket.accepts = none)
    (again : socket.errno = EAGAIN) :
    writeResponse c pkg socket beyond fresh =
      (c.translation.wbuffer.append (pkg.bytes ++ beyond) (packageSize + 1) fresh).map
        fun wbuffer => (c.setWbuffer wbuffer).awaitWritable := by
  have excess : wsub packageSize (2 ^ 64 - 1) = packageSize + 1 := by decide
  have unsent : ¬ 2 ^ 64 - 1 < packageSize := by decide
  have failed : (-1 : Int) ≤ 0 := by decide
  simp only [writeResponse, SocketWrite.write, blocked, asSize_neg_one, excess, if_pos again,
    if_pos failed, if_neg unsent, List.append_nil]
  cases c.translation.wbuffer.append (pkg.bytes ++ beyond) (packageSize + 1) fresh <;> rfl

/-- A blocked write queues one byte more than the package has. -/
theorem writeResponse_blocked (idle : Idle c) (blocked : socket.accepts = none)
    (again : socket.errno = EAGAIN)
    (written : writeResponse c pkg socket beyond fresh = some next) :
    next.wire = c.wire ∧ (pending next).length = packageSize + 1 := by
  rw [writeResponse_again blocked again, idle.made, Option.map_eq_some_iff] at written
  obtain ⟨after, appended, rfl⟩ := written
  by_cases held : packageSize + 1 ≤ (pkg.bytes ++ beyond).length
  · obtain ⟨ring, same, -, -, -, contents⟩ :=
      append_new (pkg.bytes ++ beyond) (packageSize + 1) held (by decide) fresh
    obtain rfl : after = ring := Option.some.inj (appended.symm.trans same)
    have queued : pending (c.setWbuffer after).awaitWritable = after.contents :=
      if_neg (by simp [Connection.setWbuffer, Connection.awaitWritable, idle.live])
    refine ⟨rfl, ?_⟩
    rw [queued, contents, List.length_take]
    omega
  · -- nothing lies behind the package: the copy leaves its array
    rw [append_unreadable make_framed.toSound (Nat.lt_of_not_le held) (by decide) (by decide)
      (by decide)] at appended
    cases appended

/-! ### Every answer -/

theorem receive_frame {io : Readable} {answer : Option RttPackage}
    (received : receive c io = some (next, answer)) :
    next.translation.wbuffer = c.translation.wbuffer ∧ next.wire = c.wire ∧
      (0 < io.rs ∨ answer ≠ none → next.disposed = c.disposed) := by
  rw [receive] at received
  split at received
  · rename_i failed
    cases received
    refine ⟨rfl, rfl, fun arrived => ?_⟩
    rcases arrived with positive | answered
    · omega
    · exact absurd rfl answered
  · obtain ⟨rbuffer, -, received⟩ := Option.bind_eq_some_iff.mp received
    split at received
    · cases received
      exact ⟨rfl, rfl, fun _ => rfl⟩
    · obtain ⟨⟨rest, request⟩, -, received⟩ := Option.bind_eq_some_iff.mp received
      cases received
      exact ⟨rfl, rfl, fun _ => rfl⟩

/-- Reads whose answers the socket takes whole leave the write ring as it was
made. -/
theorem serve_idle (s : Session) (d : Delivery) (after : Session) (idle : Idle s.conn)
    (served : serve s d = some after) : Idle after.conn := by
  have positive : 0 < d.io.rs := Int.natCast_pos.mpr (List.length_pos_iff.mpr d.nonempty)
  obtain ⟨⟨conn, answer⟩, handled, rfl⟩ := Option.map_eq_some_iff.mp served
  obtain ⟨⟨middle, reply⟩, received, handled⟩ := Option.bind_eq_some_iff.mp handled
  obtain ⟨ring, -, live⟩ := receive_frame received
  have between : Idle middle := ⟨ring.trans idle.made, (live (.inl positive)).trans idle.live⟩
  cases reply with
  | none =>
    cases handled
    exact between
  | some pkg =>
    dsimp only at handled
    rw [writeResponse_whole (show d.io.write.accepts = some d.limit from rfl) d.whole] at handled
    cases handled
    exact ⟨between.made, between.live⟩

/-- **Outbound bytes are exactly the answers.** For every answer the server
builds on a connection it has kept up with so far, and every first `write` that
takes some bytes or fails with `EAGAIN`: through all POLLOUT rounds the wire
followed by the write ring is the answer, exactly when that first `write` does
not fail. -/
theorem outbound_exact_iff (ds : List Delivery) (s : Session) (reached : run serve {} ds = some s)
    (io : Readable) (built : receive s.conn io = some (c, some pkg))
    (first : (io.write.accepts = none ∧ io.write.errno = EAGAIN) ∨
      ∃ ws, 1 ≤ ws ∧ io.write.accepts = some ws) :
    (∃ sent, writeResponse c pkg io.write io.beyond io.fresh = some sent ∧
        ∀ rounds, Throughout flush (fun c' => c'.wire ++ pending c' = s.conn.wire ++ pkg.bytes)
          sent rounds) ↔
      io.write.accepts ≠ none := by
  have begun : Idle s.conn := run_keeps serve_idle ⟨rfl, rfl⟩ reached
  obtain ⟨ring, wire, live⟩ := receive_frame built
  have idle : Idle c := ⟨ring.trans begun.made, (live (.inr (by simp))).trans begun.live⟩
  rw [← wire]
  constructor
  · rintro ⟨sent, written, exact_⟩ blocked
    have again : io.write.errno = EAGAIN := by
      rcases first with ⟨-, again⟩ | ⟨ws, -, takes⟩
      · exact again
      · rw [blocked] at takes
        cases takes
    obtain ⟨same, longer⟩ := writeResponse_blocked idle blocked again written
    have total := congrArg List.length (exact_ []).start
    rw [same, List.length_append, List.length_append, longer, bytes_length] at total
    omega
  · intro taken
    obtain ⟨ws, positive, takes⟩ := first.resolve_left fun failed => taken failed.1
    have started : ∃ sent, writeResponse c pkg io.write io.beyond io.fresh = some sent ∧
        Flushing sent ∧ sent.wire ++ pending sent = c.wire ++ pkg.bytes := by
      by_cases short : ws < packageSize
      · exact writeResponse_short idle takes positive short
      · exact writeResponse_full idle takes (by omega)
    obtain ⟨sent, written, flushing, whole⟩ := started
    refine ⟨sent, written, fun rounds => ?_⟩
    have held : Throughout flush
        (fun c' => Flushing c' ∧ c'.wire ++ pending c' = c.wire ++ pkg.bytes) sent rounds := by
      refine throughout_of_total ?_ rounds ⟨flushing, whole⟩
      rintro c' round ⟨held, same⟩
      obtain ⟨after, flushed, still, conserved⟩ := flush_conserves c' round held
      exact ⟨after, flushed, still, conserved.trans same⟩
    exact held.mono fun _ held => held.2

/-- A whole request arrives in one read; `socket` is what the answer's first
`write` meets. -/
def requestThen (socket : SocketWrite) : Readable where
  received := some (List.replicate 24 1)
  recvTime := ⟨2, 3⟩
  sendTime := ⟨4, 5⟩
  write := socket
  beyond := [170]
  fresh := fun _ => 0

/-- The socket takes ten bytes at first. -/
theorem outbound_exact_short_write :
    ∃ c pkg, receive {} (requestThen { accepts := some 10 }) = some (c, some pkg) ∧
      ∃ sent, writeResponse c pkg { accepts := some 10 } [170] (fun _ => 0) = some sent ∧
        ∀ rounds, Throughout flush (fun c' => c'.wire ++ pending c' = pkg.bytes) sent rounds := by
  have answered : ((receive {} (requestThen { accepts := some 10 })).bind (·.2)).isSome := by
    decide +kernel
  obtain ⟨pkg, found⟩ := Option.isSome_iff_exists.mp answered
  obtain ⟨⟨c, answer⟩, built, rfl⟩ := Option.bind_eq_some_iff.mp found
  exact ⟨c, pkg, built, (outbound_exact_iff [] {} rfl (requestThen { accepts := some 10 }) built
    (.inr ⟨10, by decide, rfl⟩)).mpr (by decide)⟩

/-- The first `write` fails with `EAGAIN`: the ring holds the package and the
byte behind it. -/
theorem outbound_overrun :
    ((receive {} (requestThen { accepts := none, errno := EAGAIN })).bind fun (c, answer) =>
      answer.bind fun pkg => (writeResponse c pkg { accepts := none, errno := EAGAIN } [170]
        (fun _ => 0)).map fun sent => (sent.wire, pending sent == pkg.bytes ++ [170],
          decide (sent.wire ++ pending sent = pkg.bytes))) = some ([], true, false) := by
  decide +kernel

end ExNetlink.RttOutbound
