import ExNetlink.CStrings
import ExNetlink.TimeServer

/-! The time client, `main` of `set/time/client.cpp`.

The client reads into one array, again and again, and prints the array as a
string after each read. It does not clear the array in between, and what was
read need not have a terminator: then the string goes on with what an earlier
read has left. The server sends its line with zeros behind it, but the line may
arrive in pieces. -/
namespace ExNetlink.TimeClient
open CStrings Runs TimeServer

structure Client where
  buf : List UInt8 := List.replicate buffSize 0
  /-- The strings that have been printed. -/
  printed : List (List UInt8) := []
  /-- The loop is over. -/
  returned : Bool := false
  deriving DecidableEq, Repr

/-- The result of `read`. -/
inductive Read where
  | bytes (data : List UInt8)
  | ended
  | failed
  deriving DecidableEq, Repr

/-- One turn of the loop. A `printf` that finds no terminator in the array
reads behind it, and the program has no defined behaviour. -/
def step (s : Client) : Read → Option Client
  | .bytes data =>
    if s.returned = false ∧ data ≠ [] ∧ data.length ≤ buffSize then
      let buf := data ++ s.buf.drop data.length
      if 0 ∈ buf then some { s with buf := buf, printed := s.printed ++ [cString buf] } else none
    else none
  | .ended | .failed => if s.returned = false then some { s with returned := true } else none

variable {s next : Client} {data text : List UInt8} {extent : Nat}

/-- The array holds so many bytes of text, and zeros behind them. -/
structure Filled (extent : Nat) (s : Client) : Prop where
  running : s.returned = false
  room : extent ≤ 26
  text : ∃ front, 0 ∉ front ∧ front.length = extent ∧
    s.buf = front ++ List.replicate (buffSize - extent) 0

/-- A piece that has a terminator is printed as it is. -/
theorem step_ended (running : s.returned = false) (fits : data.length ≤ buffSize) (ended : 0 ∈ data) :
    step s (.bytes data) = some { s with
      buf := data ++ s.buf.drop data.length, printed := s.printed ++ [cString data] } := by
  have some : data ≠ [] := List.ne_nil_of_mem ended
  rw [step, if_pos ⟨running, some, fits⟩]
  dsimp only
  rw [if_pos (List.mem_append_left _ ended), cString_front ended]

/-- A piece of the line is printed as it is when it covers all the text in the
array. -/
theorem step_piece (filled : Filled extent s) (some : data ≠ []) (clean : 0 ∉ data)
    (short : data.length ≤ 26) :
    ∃ next, step s (.bytes data) = Option.some next ∧ Filled (max extent data.length) next ∧
      ∃ line, next.printed = s.printed ++ [line] ∧ (line = data ↔ extent ≤ data.length) := by
  have size : buffSize = 256 := rfl
  have bound := filled.room
  obtain ⟨front, nonzero, measured, buffer⟩ := filled.text
  have dropped : s.buf.drop data.length =
      front.drop data.length ++ List.replicate (buffSize - max extent data.length) 0 := by
    rw [buffer, List.drop_append, List.drop_replicate, measured]
    congr 2
    omega
  have stays : 0 ∉ data ++ front.drop data.length := by
    rw [List.mem_append]
    rintro (first | later)
    · exact clean first
    · exact nonzero (List.mem_of_mem_drop later)
  have after : data ++ s.buf.drop data.length = (data ++ front.drop data.length) ++
      List.replicate (buffSize - max extent data.length) 0 := by
    rw [dropped, List.append_assoc]
  have ended : 0 ∈ data ++ s.buf.drop data.length := by
    rw [after]
    exact List.mem_append_right _ (List.mem_replicate.mpr ⟨by omega, rfl⟩)
  have line : cString (data ++ s.buf.drop data.length) = data ++ front.drop data.length := by
    have terminated : cString ((data ++ front.drop data.length) ++
        List.replicate (buffSize - max extent data.length) 0 ++ []) = _ :=
      cString_terminated stays (by omega)
    rwa [List.append_nil, ← after] at terminated
  refine ⟨_, by rw [step, if_pos ⟨filled.running, some, by omega⟩]; exact if_pos ended, ?_,
    cString (data ++ s.buf.drop data.length), rfl, ?_⟩
  · refine ⟨filled.running, by omega, data ++ front.drop data.length, stays, ?_, after⟩
    rw [List.length_append, List.length_drop, measured]
    omega
  · rw [line, List.append_right_eq_self, List.drop_eq_nil_iff, measured]

/-- Pieces that each have a terminator are printed as they are. -/
theorem run_ended (pieces : List (List UInt8)) (running : s.returned = false)
    (ended : ∀ piece ∈ pieces, 0 ∈ piece ∧ piece.length ≤ buffSize) :
    ∃ final, run step s (pieces.map .bytes) = some final ∧
      final.printed = s.printed ++ pieces.map cString := by
  induction pieces generalizing s with
  | nil => exact ⟨s, rfl, (List.append_nil _).symm⟩
  | cons piece rest ih =>
    obtain ⟨⟨zero, fits⟩, later⟩ := List.forall_mem_cons.mp ended
    have stepped := step_ended running fits zero
    obtain ⟨final, ran, printed⟩ := ih (show Client.returned { s with
      buf := piece ++ s.buf.drop piece.length
      printed := s.printed ++ [cString piece] } = false from running) later
    refine ⟨final, run_cons_some.mpr ⟨_, stepped, ran⟩, ?_⟩
    rw [printed, List.append_assoc]
    rfl

/-- A first piece lies in the line, or reaches into the zeros behind it. -/
theorem piece_cases {piece behind : List UInt8} {zeros : Nat} (clean : 0 ∉ text)
    (whole : piece ++ behind = text ++ List.replicate zeros 0) :
    (0 ∉ piece ∧ ∃ remains, text = piece ++ remains ∧ behind = remains ++ List.replicate zeros 0) ∨
      (0 ∈ piece ∧ ∀ byte ∈ behind, byte = 0) := by
  rcases List.append_eq_append_iff.mp whole with ⟨remains, rfl, rest⟩ | ⟨more, rfl, rest⟩
  · exact .inl ⟨fun zero => clean (List.mem_append_left remains zero), remains, rfl, rest⟩
  · have only : ∀ byte ∈ more ++ behind, byte = 0 := by
      rw [← rest]
      exact fun byte member => (List.mem_replicate.mp member).2
    cases more with
    | nil =>
      rw [List.append_nil, List.nil_append] at *
      exact .inl ⟨clean, [], (List.append_nil text).symm, rest.symm⟩
    | cons byte more =>
      have zero : byte = 0 := only byte (List.mem_append_left behind List.mem_cons_self)
      refine .inr ⟨?_, fun other member => only other (List.mem_append_right _ member)⟩
      rw [zero]
      exact List.mem_append_right text List.mem_cons_self

/-- What carries the induction over the pieces of a line with zeros behind
it. -/
theorem run_pieces (pieces : List (List UInt8)) {zeros : Nat} (filled : Filled extent s)
    (clean : 0 ∉ text) (short : text.length ≤ 26) (fits : text.length + zeros ≤ buffSize)
    (whole : pieces.flatten = text ++ List.replicate zeros 0) (nonempty : ∀ piece ∈ pieces, piece ≠ []) :
    ∃ final lines, run step s (pieces.map .bytes) = some final ∧ final.printed = s.printed ++ lines ∧
      (lines = pieces.map cString ↔ (∀ piece ∈ pieces.filter (0 ∉ ·), extent ≤ piece.length) ∧
        (pieces.filter (0 ∉ ·)).Pairwise (·.length ≤ ·.length)) := by
  induction pieces generalizing s text extent with
  | nil => exact ⟨s, [], rfl, (List.append_nil _).symm, by simp⟩
  | cons piece rest ih =>
    obtain ⟨some, later⟩ := List.forall_mem_cons.mp nonempty
    have total := congrArg List.length whole
    rw [List.length_append, List.length_replicate] at total
    rw [List.flatten_cons] at whole
    rcases piece_cases clean whole with ⟨inside, remains, rfl, behind⟩ | ⟨zero, zeros⟩
    · rw [List.length_append] at short fits
      obtain ⟨next, stepped, refilled, line, printed, exactly⟩ :=
        step_piece filled some inside (by omega)
      obtain ⟨final, lines, ran, output, rests⟩ := ih refilled
        (fun zero => clean (List.mem_append_right piece zero)) (by omega) (by omega) behind later
      refine ⟨final, line :: lines, run_cons_some.mpr ⟨next, stepped, ran⟩, ?_, ?_⟩
      · rw [output, printed, List.append_assoc]
        rfl
      · have kept : (piece :: rest).filter (0 ∉ ·) = piece :: rest.filter (0 ∉ ·) :=
          List.filter_cons_of_pos (decide_eq_true inside)
        rw [kept, List.map_cons, List.cons_eq_cons, cString_whole inside, exactly, rests,
          List.pairwise_cons, List.forall_mem_cons]
        constructor
        · rintro ⟨first, longer, ordered⟩
          exact ⟨⟨first, fun p member => (Nat.max_le.mp (longer p member)).1⟩,
            fun p member => (Nat.max_le.mp (longer p member)).2, ordered⟩
        · rintro ⟨⟨first, longer⟩, grown, ordered⟩
          exact ⟨first, fun p member => Nat.max_le.mpr ⟨longer p member, grown p member⟩, ordered⟩
    · -- from here on there are only zeros
      have ended : ∀ p ∈ piece :: rest, 0 ∈ p ∧ p.length ≤ buffSize := by
        intro p member
        have within := (List.sublist_flatten_of_mem member).length_le
        refine ⟨?_, by omega⟩
        rcases List.mem_cons.mp member with rfl | there
        · exact zero
        · obtain ⟨byte, tail, rfl⟩ := List.exists_cons_of_ne_nil (later p there)
          have nothing := zeros byte (List.mem_flatten.mpr ⟨_, there, List.mem_cons_self⟩)
          exact nothing ▸ List.mem_cons_self
      obtain ⟨final, ran, printed⟩ := run_ended (piece :: rest) filled.running ended
      refine ⟨final, _, ran, printed, iff_of_true rfl ?_⟩
      have none : (piece :: rest).filter (0 ∉ ·) = [] := by
        apply List.filter_eq_nil_iff.mpr
        intro p member
        simpa using (ended p member).1
      rw [none]
      exact ⟨fun p member => (by cases member), List.Pairwise.nil⟩

/-- The client goes on until a `read` gives no bytes. -/
theorem running_pieces {pieces : List (List UInt8)} (running : s.returned = false)
    (ran : run step s (pieces.map .bytes) = some next) : next.returned = false := by
  have kept : ∀ s, ∀ read ∈ pieces.map Read.bytes, ∀ next, s.returned = false →
      step s read = some next → next.returned = false := by
    intro s read member next running stepped
    obtain ⟨data, -, rfl⟩ := List.mem_map.mp member
    rw [step] at stepped
    split at stepped
    · obtain ⟨-, rfl⟩ := guarded_eq_some.mp stepped
      exact running
    · cases stepped
  exact run_keeps_of_mem kept running ran

/-- The client at work with the server: when the server has shut a connection
down, a client that reads all there is on it, in whatever pieces, comes to its
end without reading behind its array, and it has printed each piece as it is
exactly when no piece of the line was shorter than one before it. -/
theorem pieces_printed_iff {acts : List Act} {server : Server} {cd : Nat}
    (ran : run TimeServer.step {} acts = some server) (shut : server.shut cd = true)
    (clean : 0 ∉ (server.sent cd).flatten.take 26) {pieces : List (List UInt8)}
    (whole : pieces.flatten = (server.sent cd).flatten) (nonempty : ∀ piece ∈ pieces, piece ≠ []) :
    ∃ final, run step {} (pieces.map .bytes ++ [.ended]) = some final ∧ final.returned = true ∧
      (final.printed = pieces.map cString ↔
        (pieces.filter (0 ∉ ·)).Pairwise (·.length ≤ ·.length)) := by
  have size : buffSize = 256 := rfl
  obtain ⟨ctime, dated, sent⟩ := (run_keeps step_kept kept_start ran).whole cd shut
  have length := timeLine_length dated
  have start : Filled 0 {} := ⟨rfl, Nat.zero_le _, [], List.not_mem_nil, rfl, rfl⟩
  rw [sent, List.flatten_singleton] at whole clean
  rw [message, List.take_left' length] at clean
  obtain ⟨last, lines, read, printed, same⟩ :=
    run_pieces pieces start clean (by omega) (by omega) whole nonempty
  have running := running_pieces rfl read
  refine ⟨{ last with returned := true }, ?_, rfl, ?_⟩
  · rw [run_append, read, Option.bind_some, run_cons, step, if_pos running]
    rfl
  · rw [printed, List.nil_append, same]
    exact and_iff_right fun piece _ => Nat.zero_le _

/-- A line that arrives as ten bytes and the rest. -/
theorem pieces_printed_two :
    ∃ server final, run TimeServer.step {} handed = some server ∧
      run step {} [.bytes (List.replicate 10 65),
        .bytes (List.replicate 14 65 ++ [13, 10] ++ List.replicate 230 0), .ended] = some final ∧
      final.printed = [List.replicate 10 65, List.replicate 14 65 ++ [13, 10]] := by
  have shown : (run TimeServer.step {} handed).map (fun s => (s.shut 0, s.sent 0)) =
      some (true, [message (List.replicate 25 65)]) := by decide +kernel
  obtain ⟨server, ran, same⟩ := Option.map_eq_some_iff.mp shown
  obtain ⟨shut, sent⟩ := Prod.mk.inj same
  have clean : 0 ∉ (server.sent 0).flatten.take 26 := by
    rw [sent]
    decide +kernel
  have whole : [List.replicate 10 65, List.replicate 14 65 ++ [13, 10] ++ List.replicate 230 0].flatten =
      (server.sent 0).flatten := by
    rw [sent]
    decide +kernel
  obtain ⟨final, read, -, printed⟩ := pieces_printed_iff ran shut clean whole (by simp)
  exact ⟨server, final, ran, read, (printed.mpr (by decide +kernel)).trans (by decide +kernel)⟩

/-- The second of three pieces is shorter than the first: what is left of the
first is printed again. -/
example : (run step {} [.bytes [84, 104, 117], .bytes [32], .bytes [65, 0]]).map Client.printed =
    some [[84, 104, 117], [32, 104, 117], [65]] := by decide +kernel

end ExNetlink.TimeClient
