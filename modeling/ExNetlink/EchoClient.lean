import ExNetlink.CStrings
import ExNetlink.EchoStreams

/-! The echo client, `main` of `set/echo/echo.client.cpp`, at work with the echo
server.

The client waits for its input and its socket. What `fgets` gives it goes to
the socket up to the first zero byte; what it reads from the socket goes to the
output in the same way, from an array of 1024 bytes that a full `read` leaves
without a terminator. At the end of its input it shuts its side of the
connection down and goes on reading, so the server closes only after the last
byte has been sent back. A line that starts with `q` drops the connection and
makes a new one. When the server exits the client finds the end of the stream as
well, and takes it for that: it exits with 0, whatever it has not had back. -/
namespace ExNetlink.EchoClient
open CStrings EchoServer EchoStreams Reactor Runs

inductive Stage where
  /-- At the label `reconnect`. -/
  | connecting
  | selecting
  /-- The input is ready, and perhaps the socket. -/
  | typing (sock : Bool)
  | receiving
  /-- After `exit(0)`. -/
  | done
  /-- After `exit(-1)`. -/
  | failed
  deriving DecidableEq, Repr

/-- The client has a connection, or has seen it through. -/
def Stage.connected : Stage → Bool
  | .selecting | .typing _ | .receiving | .done => true
  | .connecting | .failed => false

structure Client where
  stage : Stage := .connecting
  /-- Its connection. -/
  slot : Nat := 0
  standIdFlag : Bool := false
  /-- What its input still gives, and what it gave in all on this connection. -/
  text : List UInt8 := []
  given : List UInt8 := []
  /-- What `fgets` has given, and what `fputs` has put out. -/
  typed : List UInt8 := []
  printed : List UInt8 := []
  deriving DecidableEq, Repr

/-- The client, and the server with all connections. -/
structure State where
  client : Client := {}
  streams : System

inductive Act where
  /-- The server, or another client. -/
  | other (a : EchoStreams.Act)
  /-- The client gets this connection, and its input gives this text. -/
  | connect (slot : Nat) (text : List UInt8)
  | refused
  /-- `select` returns, with the input's bit and the socket's. -/
  | select (input sock : Bool)
  /-- The branch of the input; a `write` in it succeeds or not. -/
  | type (wrote : Bool)
  /-- `read` gives so many bytes. `beyond` lies behind the array. -/
  | receive (count : Nat) (beyond : List UInt8)
  /-- `read` finds the end of the stream. -/
  | hangup
  | fail

/-- `sizeof(read_buf)`. -/
def bufSize : Nat := 1024

/-- What `fgets` takes when there is room for so many bytes: up to the end of
the line, or of the room. -/
def fgets : Nat → List UInt8 → List UInt8
  | 0, _ => []
  | _, [] => []
  | room + 1, byte :: rest => if byte = 10 then [byte] else byte :: fgets room rest

/-- Nobody has used connection `i`. -/
def Fresh (s : System) (i : Nat) : Prop :=
  s.accepts ≤ i ∧ s.forth i = [] ∧ s.back i = [] ∧ s.written i = [] ∧ s.taken i = [] ∧
    s.cut i = [] ∧ s.ended i = false ∧ s.gone i = false

instance (s : System) (i : Nat) : Decidable (Fresh s i) := inferInstanceAs (Decidable (_ ∧ _))

/-- The act leaves the client's side of connection `slot` alone. -/
def Foreign (slot : Nat) : EchoStreams.Act → Prop
  | .serve _ _ | .reset _ _ => True
  | .write i _ | .finish i | .leave i | .take i _ => i ≠ slot

instance (slot : Nat) : DecidablePred (Foreign slot)
  | .serve _ _ | .reset _ _ => isTrue trivial
  | .write i _ | .finish i | .leave i | .take i _ => inferInstanceAs (Decidable (i ≠ slot))

/-- Connection `i` has come to its end on the server's side. -/
def Over (s : System) (i : Nat) : Prop := Closed s.server i ∨ s.server.stage = .exited

instance (s : System) (i : Nat) : Decidable (Over s i) := inferInstanceAs (Decidable (_ ∨ _))

/-- The state after an act, for an act that can happen. -/
def step (s : State) : Act → Option State
  | .other a =>
    if Foreign s.client.slot a then
      (EchoStreams.step s.streams a).map fun streams => { s with streams := streams }
    else none
  | .connect slot text =>
    if s.client.stage = .connecting ∧ 0 < slot ∧ Fresh s.streams slot ∧
        s.streams.server.stage ≠ .exited then
      some { s with client := {
        stage := .selecting, slot := slot, text := text, given := text } }
    else none
  | .refused =>
    if s.client.stage = .connecting then
      some { s with client := { s.client with stage := .failed } }
    else none
  | .select input sock =>
    -- the bit of the input is cleared for good when the flag is set
    if s.client.stage = .selecting ∧ (input = true → s.client.standIdFlag = false) then
      some { s with client := { s.client with
        stage := if input then .typing sock else if sock then .receiving else .selecting } }
    else none
  | .type wrote =>
    match s.client.stage with
    | .typing sock => do
      let readBuf := fgets (bufSize - 1) s.client.text
      let client := { s.client with text := s.client.text.drop readBuf.length }
      if readBuf = [] then
        let streams ← EchoStreams.step s.streams (.finish client.slot)
        some { streams, client := { client with standIdFlag := true, stage := .selecting } }
      else if readBuf.head? = some 113 then
        let streams ← EchoStreams.step s.streams (.leave client.slot)
        some { streams, client := { client with stage := .connecting } }
      else
        let streams ← if wrote then
            EchoStreams.step s.streams (.write client.slot (cString readBuf))
          else some s.streams
        some { streams, client := { client with
          typed := client.typed ++ readBuf
          stage := if sock then .receiving else .selecting } }
    | _ => none
  | .receive count beyond =>
    if s.client.stage = .receiving ∧ 0 < count ∧ count ≤ bufSize then do
      let readBuf := (s.streams.back s.client.slot).take count
      let streams ← EchoStreams.step s.streams (.take s.client.slot count)
      some { streams, client := { s.client with
        printed := s.client.printed ++
          cString (readBuf ++ List.replicate (bufSize - count) 0 ++ beyond)
        stage := .selecting } }
    else none
  | .hangup =>
    if s.client.stage = .receiving ∧ Over s.streams s.client.slot ∧
        s.streams.back s.client.slot = [] then
      -- the server's end is closed, so nobody sees that the client closes its own
      some { s with client := { s.client with stage := .done } }
    else none
  | .fail =>
    if s.client.stage = .receiving then do
      let streams ← EchoStreams.step s.streams (.leave s.client.slot)
      some { streams, client := { s.client with stage := .failed } }
    else none

def start (sockFd : Int) : State where
  streams := EchoStreams.start sockFd

/-- Every `send` of the server takes all it is given, the input has no zero
byte, no `write` fails, and no `read` fills the array. -/
def Suits (s : State) : Act → Prop
  | .other a => EchoStreams.Suits s.streams a
  | .connect _ text => 0 ∉ text
  | .type wrote => wrote = true
  | .receive count _ => count < bufSize
  | _ => True

instance (s : State) : DecidablePred (Suits s)
  | .other a => inferInstanceAs (Decidable (EchoStreams.Suits s.streams a))
  | .connect _ text => inferInstanceAs (Decidable (0 ∉ text))
  | .type wrote => inferInstanceAs (Decidable (wrote = true))
  | .receive count _ => inferInstanceAs (Decidable (count < bufSize))
  | .refused | .select _ _ | .hangup | .fail => isTrue trivial

/-- On its connection, what the client has typed is what it has printed, what is
under way and what the server's exit has cut off; and once it is done, it has
printed all that its input gave, or the server has exited with the connection
open. -/
structure Echoes (s : State) : Prop where
  typed : s.client.stage.connected → s.client.typed =
    s.client.printed ++ (s.streams.back s.client.slot ++
      (s.streams.forth s.client.slot ++ s.streams.cut s.client.slot))
  cut : s.streams.server.stage ≠ .exited → s.streams.cut s.client.slot = []
  whole : s.client.stage = .done → s.client.printed = s.client.given ∨
    s.streams.server.stage = .exited ∧ ¬ Closed s.streams.server s.client.slot

/-! ### The streams -/

section Streams
variable {s next : System} {a : EchoStreams.Act} {slot : Nat}

/-- What others do to the client's connection: the server passes bytes back,
and may close it or exit. -/
structure Apart (slot : Nat) (s next : System) : Prop where
  written : next.written slot = s.written slot
  taken : next.taken slot = s.taken slot
  ended : next.ended slot = s.ended slot
  gone : next.gone slot = s.gone slot
  past : Over s slot → Over next slot
  back : s.forth slot = [] → s.back slot = [] → next.back slot = []

theorem foreign_apart (routed : Routed s) (foreign : Foreign slot a)
    (stepped : EchoStreams.step s a = some next) : Apart slot s next := by
  cases a with
  | serve e accepted =>
    obtain ⟨after, t, served, performed, rfl⟩ := step_serve routed stepped
    obtain ⟨written, taken, ended, gone⟩ := performed.clients
    have past : Over s slot → Closed after slot := fun past =>
      past.elim performed.closed_kept fun exited => absurd exited (running_of_step served)
    split
    · exact ⟨congrFun written slot, congrFun taken slot, congrFun ended slot, congrFun gone slot,
        fun ends => .inl (past ends), fun empty none => (performed.quiet empty).2.1.trans none⟩
    · exact ⟨congrFun written slot, congrFun taken slot, congrFun ended slot, congrFun gone slot,
        fun ends => .inl (past ends), fun empty none => (performed.quiet empty).2.1.trans none⟩
  | write i bytes =>
    obtain ⟨-, made⟩ := guarded_eq_some.mp stepped
    split at made
    · subst made
      exact ⟨Function.update_of_ne (Ne.symm foreign) _ _, rfl, rfl, rfl, id, fun _ => id⟩
    · subst made
      exact ⟨Function.update_of_ne (Ne.symm foreign) _ _, rfl, rfl, rfl, id, fun _ => id⟩
  | finish i =>
    obtain rfl := Option.some.inj stepped
    exact ⟨rfl, rfl, Function.update_of_ne (Ne.symm foreign) _ _, rfl, id, fun _ => id⟩
  | leave i =>
    obtain rfl := Option.some.inj stepped
    exact ⟨rfl, rfl, Function.update_of_ne (Ne.symm foreign) _ _,
      Function.update_of_ne (Ne.symm foreign) _ _, id, fun _ => id⟩
  | take i count =>
    obtain ⟨-, rfl⟩ := guarded_eq_some.mp stepped
    exact ⟨rfl, Function.update_of_ne (Ne.symm foreign) _ _, rfl, rfl, id,
      fun _ none => (Function.update_of_ne (Ne.symm foreign) _ _).trans none⟩
  | reset i kept =>
    obtain ⟨-, rfl⟩ := guarded_eq_some.mp stepped
    refine ⟨rfl, rfl, rfl, rfl, id, fun _ none => ?_⟩
    dsimp only
    by_cases this : slot = i
    · subst this
      rw [Function.update_self, none, List.take_nil]
    · rw [Function.update_of_ne this, none]

/-- A write of the client on its connection. -/
theorem write_clients {i : Nat} {bytes : List UInt8}
    (moved : EchoStreams.step s (.write i bytes) = some next) :
    next.written i = s.written i ++ bytes ∧ next.taken = s.taken ∧ next.ended = s.ended ∧
      next.gone = s.gone := by
  obtain ⟨-, made⟩ := guarded_eq_some.mp moved
  split at made
  · subst made
    exact ⟨Function.update_self _ _ _, rfl, rfl, rfl⟩
  · subst made
    exact ⟨Function.update_self _ _ _, rfl, rfl, rfl⟩

end Streams

/-! ### The client -/

variable {s next : State}

theorem fgets_front (room : Nat) (text : List UInt8) : fgets room text <+: text := by
  induction room generalizing text with
  | zero => exact List.nil_prefix
  | succ room ih =>
    cases text with
    | nil => exact List.nil_prefix
    | cons byte rest =>
      rw [fgets]
      split
      · exact (List.prefix_cons_inj byte).mpr List.nil_prefix
      · exact (List.prefix_cons_inj byte).mpr (ih rest)

theorem fgets_nil {room : Nat} {text : List UInt8} (none : fgets (room + 1) text = []) :
    text = [] := by
  cases text with
  | nil => rfl
  | cons byte rest =>
    rw [fgets] at none
    split at none <;> cases none

/-- A client with a connection: what it has done with its text, and what the
streams know of it. -/
structure Connected (c : Client) (streams : System) : Prop where
  positive : 0 < c.slot
  clean : 0 ∉ c.given
  given : c.given = c.typed ++ c.text
  written : streams.written c.slot = c.typed
  taken : streams.taken c.slot = c.printed
  ended : streams.ended c.slot = c.standIdFlag
  present : streams.gone c.slot = false
  flagged : c.standIdFlag = true → c.text = []
  typing : ∀ sock, c.stage = .typing sock → c.standIdFlag = false
  done : c.stage = .done → Over streams c.slot ∧ streams.back c.slot = []

/-- What carries the induction. -/
structure Kept (s : State) : Prop where
  routed : Routed s.streams
  exact : Exact s.streams
  settled : Settled s.streams
  connected : s.client.stage.connected → Connected s.client s.streams

/-- Past the end of a connection nothing is on the way to the server. -/
theorem Kept.empty (held : Kept s) {slot : Nat} (positive : 0 < slot)
    (present : s.streams.gone slot = false) (past : Over s.streams slot) :
    s.streams.forth slot = [] :=
  past.elim (fun closed => (held.settled slot positive present closed).1)
    fun exited => held.exact.spent exited slot

/-- Once the server has closed the connection, nothing is under way to it, and
the client has ended it at the end of its text. -/
theorem Kept.echoes (held : Kept s) : Echoes s := by
  refine ⟨fun connected => ?_, fun running => held.exact.whole running _, fun done => ?_⟩
  · have client := held.connected connected
    have under := held.exact.streams s.client.slot client.present
    rw [client.written, client.taken] at under
    exact under
  · have client := held.connected (by rw [done]; rfl)
    have under := held.exact.streams s.client.slot client.present
    obtain ⟨past, empty⟩ := client.done done
    by_cases closed : Closed s.streams.server s.client.slot
    · obtain ⟨none, cut, ended⟩ := held.settled _ client.positive client.present closed
      have text := client.flagged (client.ended ▸ ended)
      rw [client.written, client.taken, empty, none, cut, List.append_nil, List.append_nil,
        List.append_nil] at under
      exact .inl (by rw [client.given, text, List.append_nil, under])
    · exact .inr ⟨past.resolve_left closed, closed⟩

theorem kept_start (sockFd : Int) : Kept (start sockFd) where
  routed := routed_start sockFd
  exact := ⟨fun _ _ => rfl, fun _ _ => rfl, fun _ _ => rfl⟩
  settled := settled_start sockFd
  connected absent := by cases absent

/-- The streams after an act on them that suits. -/
theorem Kept.moved {streams : System} {a : EchoStreams.Act} (held : Kept s)
    (moved : EchoStreams.step s.streams a = some streams) (suited : EchoStreams.Suits s.streams a) :
    Routed streams ∧ Exact streams ∧ Settled streams :=
  ⟨routed_step held.routed moved,
    (exact_step_iff held.exact (EchoStreams.step_change held.routed moved)).mpr suited,
    settled_step held.routed held.exact held.settled moved⟩

/-- Where the client has no connection any more, its streams are all that counts. -/
theorem Kept.without {client : Client} {streams : System} {a : EchoStreams.Act} (held : Kept s)
    (moved : EchoStreams.step s.streams a = some streams) (suited : EchoStreams.Suits s.streams a)
    (absent : client.stage.connected = false) : Kept { client, streams } := by
  obtain ⟨routed, exact, settled⟩ := held.moved moved suited
  refine ⟨routed, exact, settled, fun connected => ?_⟩
  rw [absent] at connected
  contradiction

theorem other_kept {a : EchoStreams.Act} (held : Kept s) (suited : Suits s (.other a))
    (stepped : step s (.other a) = some next) : Kept next := by
  rw [step] at stepped
  split at stepped
  · rename_i foreign
    obtain ⟨streams, moved, rfl⟩ := Option.map_eq_some_iff.mp stepped
    obtain ⟨routed, exact, settled⟩ := held.moved moved suited
    refine ⟨routed, exact, settled, fun connected => ?_⟩
    have client := held.connected connected
    have apart := foreign_apart held.routed foreign moved
    refine { client with
      written := apart.written.trans client.written
      taken := apart.taken.trans client.taken
      ended := apart.ended.trans client.ended
      present := apart.gone.trans client.present
      done := fun done => ?_ }
    obtain ⟨past, empty⟩ := client.done done
    exact ⟨apart.past past, apart.back (held.empty client.positive client.present past) empty⟩
  · cases stepped

theorem connect_kept {slot : Nat} {text : List UInt8} (held : Kept s)
    (suited : Suits s (.connect slot text)) (stepped : step s (.connect slot text) = some next) :
    Kept next := by
  obtain ⟨⟨-, positive, ⟨-, -, -, written, taken, -, ended, present⟩, -⟩, rfl⟩ := guarded_eq_some.mp stepped
  refine ⟨held.routed, held.exact, held.settled, fun _ => ?_⟩
  exact {
    positive := positive
    clean := suited
    given := rfl
    written := written
    taken := taken
    ended := ended
    present := present
    flagged := fun flag => by cases flag
    typing := fun _ _ => rfl
    done := fun done => by cases done }

/-- The client moves on without touching its streams or its text. -/
theorem Kept.turn {stage : Stage} (held : Kept s) (connected : s.client.stage.connected)
    (typing : ∀ sock, stage = .typing sock → s.client.standIdFlag = false)
    (done : stage = .done → Over s.streams s.client.slot ∧ s.streams.back s.client.slot = []) :
    Kept { s with client := { s.client with stage := stage } } where
  routed := held.routed
  exact := held.exact
  settled := held.settled
  connected _ := { held.connected connected with typing := typing, done := done }

theorem select_kept {input sock : Bool} (held : Kept s)
    (stepped : step s (.select input sock) = some next) : Kept next := by
  obtain ⟨⟨here, ready⟩, rfl⟩ := guarded_eq_some.mp stepped
  refine held.turn (by rw [here]; rfl) (fun _ typing => ?_) (fun done => ?_)
  · cases input with
    | true => exact ready rfl
    | false => cases sock <;> cases typing
  · cases input <;> cases sock <;> cases done

/-- At the end of the text the client ends its connection. -/
theorem ended_kept {sock : Bool} {streams : System} (held : Kept s)
    (here : s.client.stage = .typing sock) (none : s.client.text = [])
    (moved : EchoStreams.step s.streams (.finish s.client.slot) = some streams) :
    Kept { streams, client := { s.client with standIdFlag := true, stage := .selecting } } := by
  obtain ⟨routed, exact, settled⟩ := held.moved moved trivial
  refine ⟨routed, exact, settled, fun _ => ?_⟩
  have client := held.connected (by rw [here]; rfl)
  obtain rfl := Option.some.inj moved
  exact { client with
    ended := Function.update_self _ _ _
    flagged := fun _ => none
    typing := fun _ typing => by cases typing
    done := fun done => by cases done }

/-- What the client types goes out whole. -/
theorem typed_kept {stage : Stage} {streams : System} {readBuf : List UInt8} {sock : Bool}
    (held : Kept s) (here : s.client.stage = .typing sock) (front : readBuf <+: s.client.text)
    (awake : ∀ sock, stage ≠ .typing sock) (undone : stage ≠ .done)
    (moved : EchoStreams.step s.streams (.write s.client.slot (cString readBuf)) = some streams) :
    Kept { streams, client := { s.client with
      text := s.client.text.drop readBuf.length
      typed := s.client.typed ++ readBuf
      stage := stage } } := by
  obtain ⟨routed, exact, settled⟩ := held.moved moved trivial
  refine ⟨routed, exact, settled, fun _ => ?_⟩
  have client := held.connected (by rw [here]; rfl)
  obtain ⟨rest, shape⟩ := front
  have clean : 0 ∉ readBuf := by
    intro member
    apply client.clean
    rw [client.given, ← shape]
    exact List.mem_append_right _ (List.mem_append_left _ member)
  have open' := client.typing sock here
  obtain ⟨written, taken, ended, gone⟩ := write_clients moved
  exact { client with
    given := by
      dsimp only
      rw [client.given, ← shape, List.drop_left, List.append_assoc]
    written := by
      dsimp only
      rw [written, client.written, cString_whole clean]
    taken := (congrFun taken _).trans client.taken
    ended := (congrFun ended _).trans client.ended
    present := (congrFun gone _).trans client.present
    flagged := fun flag => by
      dsimp only at flag
      rw [open'] at flag
      cases flag
    typing := fun sock typing => absurd typing (awake sock)
    done := fun done => absurd done undone }

theorem type_kept {wrote : Bool} (held : Kept s) (suited : Suits s (.type wrote))
    (stepped : step s (.type wrote) = some next) : Kept next := by
  obtain rfl : wrote = true := suited
  unfold step at stepped
  dsimp only at stepped
  split at stepped
  · rename_i sock here
    split at stepped
    · rename_i none
      obtain ⟨streams, moved, made⟩ := Option.bind_eq_some_iff.mp stepped
      obtain rfl := Option.some.inj made
      have empty := fgets_nil none
      rw [none, List.length_nil, List.drop_zero]
      exact ended_kept held here empty moved
    · split at stepped
      · obtain ⟨streams, moved, made⟩ := Option.bind_eq_some_iff.mp stepped
        obtain rfl := Option.some.inj made
        exact held.without moved trivial rfl
      · obtain ⟨streams, moved, made⟩ := Option.bind_eq_some_iff.mp stepped
        obtain rfl := Option.some.inj made
        apply typed_kept held here (fgets_front _ _) _ _ moved
        · cases sock <;> simp
        · cases sock <;> simp
  · cases stepped

/-- What the client prints is what it has read. -/
theorem receive_kept {count : Nat} {beyond : List UInt8} (held : Kept s)
    (suited : Suits s (.receive count beyond)) (stepped : step s (.receive count beyond) = some next) :
    Kept next := by
  unfold step at stepped
  dsimp only at stepped
  split at stepped
  · rename_i here
    obtain ⟨streams, moved, made⟩ := Option.bind_eq_some_iff.mp stepped
    obtain rfl := Option.some.inj made
    obtain ⟨routed, exact, settled⟩ := held.moved moved trivial
    refine ⟨routed, exact, settled, fun _ => ?_⟩
    have client := held.connected (by rw [here.1]; rfl)
    have clean : 0 ∉ (s.streams.back s.client.slot).take count := by
      intro member
      apply client.clean
      have under := held.exact.streams s.client.slot client.present
      rw [client.written] at under
      rw [client.given, under]
      exact List.mem_append_left _ (List.mem_append_right _ (List.mem_append_left _
        (List.mem_of_mem_take member)))
    have short : count < bufSize := suited
    obtain ⟨-, rfl⟩ := guarded_eq_some.mp moved
    exact { client with
      taken := by
        dsimp only
        rw [Function.update_self, client.taken, cString_terminated clean (by omega)]
      typing := fun _ typing => by cases typing
      done := fun done => by cases done }
  · cases stepped

theorem step_kept (s : State) (a : Act) (next : State) (held : Kept s) (suited : Suits s a)
    (stepped : step s a = some next) : Kept next := by
  cases a with
  | other a => exact other_kept held suited stepped
  | connect slot text => exact connect_kept held suited stepped
  | refused =>
    obtain ⟨-, rfl⟩ := guarded_eq_some.mp stepped
    exact ⟨held.routed, held.exact, held.settled, fun absent => by cases absent⟩
  | select input sock => exact select_kept held stepped
  | type wrote => exact type_kept held suited stepped
  | receive count beyond => exact receive_kept held suited stepped
  | hangup =>
    obtain ⟨⟨here, past, empty⟩, rfl⟩ := guarded_eq_some.mp stepped
    exact held.turn (by rw [here]; rfl) (fun _ typing => by cases typing) fun _ => ⟨past, empty⟩
  | fail =>
    rw [step] at stepped
    split at stepped
    · obtain ⟨streams, moved, made⟩ := Option.bind_eq_some_iff.mp stepped
      obtain rfl := Option.some.inj made
      exact held.without moved trivial rfl
    · cases stepped

/-- For every run of the client with the server and any number of other
clients in which no `send` or `write` falls short, no `read` of the client
fills its array and no zero byte is typed: the client has always printed what
it has typed, less what is under way and what the server's exit has cut off, and
when it exits with 0 it has printed all that its input gave on the connection,
unless the server has exited without closing it. -/
theorem client_prints_all {sockFd : Int} {acts : List Act} {final : State}
    (ran : run step (start sockFd) acts = some final) (met : Meets step Suits (start sockFd) acts) :
    Throughout step Echoes (start sockFd) acts :=
  (throughout_of_run step_kept (kept_start sockFd) ran met).mono fun _ => Kept.echoes

/-- The client types `hi`, ends its input and is done when the server has sent
it back and closed the connection. -/
def greeted : List Act :=
  [.connect 1 [104, 105], .select true false, .type true,
    .other (.serve (.poll [POLLRDNORM]) 0), .other (.serve (.accept 5 0) 0),
    .select true false, .type true,
    .other (.serve (.scan none) 0), .other (.serve (.scan none) 0),
    .other (.serve (.poll [0, POLLRDNORM]) 0), .other (.serve .pass 0),
    .other (.serve (.scan (some [104, 105])) 2), .other (.serve (.scan none) 0),
    .select false true, .receive 2 [],
    .other (.serve (.poll [0, POLLRDNORM]) 0), .other (.serve .pass 0),
    .other (.serve (.scan (some [])) 0), .select false true, .hangup]

/-- Here `poll` fails while `hi` is under way. -/
def abandoned : List Act :=
  [.connect 1 [104, 105], .select true false, .type true, .other (.serve (.poll [POLLRDNORM]) 0),
    .other (.serve (.accept 5 0) 0), .other (.serve (.scan none) 0), .other (.serve (.scan none) 0),
    .other (.serve .pollFails 0), .select false true, .hangup]

theorem client_prints_all_greeted :
    (∃ final, run step (start 3) greeted = some final ∧ final.client.stage = .done ∧
      final.client.printed = [104, 105]) ∧
    ∃ final, run step (start 3) abandoned = some final ∧ final.client.stage = .done ∧
      final.client.typed = [104, 105] ∧ final.client.printed ++ final.streams.cut 1 = [104, 105] := by
  constructor
  · obtain ⟨final, ran⟩ := Option.isSome_iff_exists.mp (show (run step (start 3) greeted).isSome by decide)
    have ends : (run step (start 3) greeted).map (fun s => (s.client.stage, s.client.given,
        s.streams.server.stage)) = some (.done, [104, 105], .scanning 2) := by decide
    rw [ran] at ends
    simp only [Option.map_some, Option.some.injEq, Prod.mk.injEq] at ends
    obtain ⟨done, given, running⟩ := ends
    obtain ⟨last, reached, echoes⟩ := (client_prints_all ran (by decide)).final
    obtain rfl := Option.some.inj (ran.symm.trans reached)
    have whole := (echoes.whole done).resolve_right fun gone => by simp [running] at gone
    exact ⟨final, ran, done, whole.trans given⟩
  · obtain ⟨final, ran⟩ := Option.isSome_iff_exists.mp (show (run step (start 3) abandoned).isSome by decide)
    have ends : (run step (start 3) abandoned).map (fun s => (s.client.stage, s.client.slot,
        s.client.typed, s.streams.back 1, s.streams.forth 1)) = some (.done, 1, [104, 105], [], []) := by
      decide
    rw [ran] at ends
    simp only [Option.map_some, Option.some.injEq, Prod.mk.injEq] at ends
    obtain ⟨done, slot, typed, back, forth⟩ := ends
    obtain ⟨last, reached, echoes⟩ := (client_prints_all ran (by decide)).final
    obtain rfl := Option.some.inj (ran.symm.trans reached)
    have under := echoes.typed (by rw [done]; rfl)
    rw [slot, typed, back, forth] at under
    exact ⟨final, ran, done, typed, under.symm⟩

end ExNetlink.EchoClient
