import Mathlib.Logic.Function.Basic
import ExNetlink.EchoServer

/-! The echo server with its clients and the byte streams between them.

Connections are numbered from 1 in the order in which they are accepted. The
server knows them by descriptors only: `accept` gives it one that is not in use,
and `read`, `send` and `close` find the connection in the table that the system
keeps for the process. The clients write and read whenever they like, and leave when they like. `send`
takes all it is given, or fewer bytes, and the server does not ask.

When `poll` or `accept` fails the server exits. Then all its descriptors are
closed: what it has not read is cut off, and the clients find the end of the
stream, or a reset that takes what they have not read as well. -/
namespace ExNetlink.EchoStreams
open EchoServer Reactor Runs

/-- The server, and of each connection the bytes under way to and from it and
those that its client has written and read. -/
structure System where
  server : Server
  /-- The connection that a descriptor of the server is of. -/
  table : Int → Option Nat
  /-- The number of the next connection to be accepted. -/
  accepts : Nat
  forth : Nat → List UInt8
  back : Nat → List UInt8
  written : Nat → List UInt8
  taken : Nat → List UInt8
  /-- What the server's exit has cut off. -/
  cut : Nat → List UInt8
  /-- The client writes no more. -/
  ended : Nat → Bool
  /-- The client has closed its socket. -/
  gone : Nat → Bool

inductive Act where
  /-- The server takes a step; a `send` in it takes so many bytes. -/
  | serve (e : EchoServer.Event) (accepted : Nat)
  | write (i : Nat) (bytes : List UInt8)
  | finish (i : Nat)
  | leave (i : Nat)
  | take (i : Nat) (count : Nat)
  /-- A connection that the server's exit has closed is reset: all but so many of
  the bytes to the client go. -/
  | reset (i : Nat) (kept : Nat)
  deriving DecidableEq, Repr

/-- The server has closed the connection in slot `i`. -/
def Closed (s : Server) (i : Nat) : Prop := (s.clientFds.map PollFd.fd)[i]? = some (-1)

instance (s : Server) (i : Nat) : Decidable (Closed s i) :=
  inferInstanceAs (Decidable (_ = _))

/-- What a `read` in the step gives. -/
def received : EchoServer.Event → Option (List UInt8)
  | .scan received => received
  | .poll _ | .pollFails | .accept _ _ | .pass => none

/-- `read` gives what is there, at most what the array holds; end of file comes
after the last byte, or sooner when the client has closed its socket and so
perhaps reset the connection. -/
def Readable (s : System) (i : Nat) : Option (List UInt8) → Prop
  | none => True
  | some [] => s.gone i = true ∨ s.forth i = [] ∧ s.ended i = true
  | some buf => buf <+: s.forth i ∧ buf.length ≤ 1024

instance (s : System) (i : Nat) : DecidablePred (Readable s i)
  | none => isTrue trivial
  | some [] => inferInstanceAs (Decidable (s.gone i = true ∨ s.forth i = [] ∧ s.ended i = true))
  | some (byte :: rest) =>
    inferInstanceAs (Decidable ((byte :: rest) <+: s.forth i ∧ (byte :: rest).length ≤ 1024))

/-- A system call of the server, on the descriptor it is made with. One that is
of no connection fails. -/
def perform (received : Option (List UInt8)) (accepted : Nat) (s : System) : Call → Option System
  | .accept fd =>
    if s.table fd = none then some { s with
      table := Function.update s.table fd (some s.accepts), accepts := s.accepts + 1 }
    else none
  | .read _ fd _ =>
    match s.table fd with
    | some i =>
      if Readable s i received then some { s with
        forth := Function.update s.forth i ((s.forth i).drop (received.getD []).length) }
      else none
    | none => if received = none then some s else none
  | .send fd buf =>
    match s.table fd with
    | some i => some { s with back := Function.update s.back i (s.back i ++ buf.take accepted) }
    | none => some s
  | .close fd => some { s with table := Function.update s.table fd none }

/-- The end of the server's process. -/
def System.exit (s : System) : System :=
  { s with
    table := fun _ => none
    forth := fun _ => []
    cut := fun i => s.forth i ++ s.cut i }

/-- The system after an act, for an act that can happen. -/
def step (s : System) : Act → Option System
  | .serve e accepted => do
    let next ← EchoServer.step s.server e
    let t ← (next.calls.drop s.server.calls.length).foldlM (perform (received e) accepted) s
    some { if next.stage = .exited then t.exit else t with server := next }
  | .write i bytes =>
    if s.ended i = false then
      some (if s.server.stage = .exited then { s with
          cut := Function.update s.cut i (s.cut i ++ bytes)
          written := Function.update s.written i (s.written i ++ bytes) }
        else { s with
          forth := Function.update s.forth i (s.forth i ++ bytes)
          written := Function.update s.written i (s.written i ++ bytes) })
    else none
  | .finish i => some { s with ended := Function.update s.ended i true }
  | .leave i => some { s with
      ended := Function.update s.ended i true
      gone := Function.update s.gone i true }
  | .take i count =>
    if s.gone i = false ∧ count ≤ (s.back i).length then
      some { s with
        back := Function.update s.back i ((s.back i).drop count)
        taken := Function.update s.taken i (s.taken i ++ (s.back i).take count) }
    else none
  | .reset i kept =>
    if s.server.stage = .exited ∧ ¬ Closed s.server i then
      some { s with
        back := Function.update s.back i ((s.back i).take kept)
        cut := Function.update s.cut i ((s.back i).drop kept ++ s.cut i) }
    else none

def start (sockFd : Int) : System where
  server := EchoServer.start sockFd
  table := Function.update (fun _ => none) sockFd (some 0)
  accepts := 1
  forth := fun _ => []
  back := fun _ => []
  written := fun _ => []
  taken := fun _ => []
  cut := fun _ => []
  ended := fun _ => false
  gone := fun _ => false

/-- What a client with an open socket has written is what it has read back, what
is under way, and, once the server has exited, what that has cut off. -/
structure Exact (s : System) : Prop where
  streams : ∀ i, s.gone i = false → s.written i = s.taken i ++ (s.back i ++ (s.forth i ++ s.cut i))
  whole : s.server.stage ≠ .exited → ∀ i, s.cut i = []
  spent : s.server.stage = .exited → ∀ i, s.forth i = []

/-- The connection that the next iteration of the scan reads. -/
def reads (s : Server) : Option Nat :=
  match s.stage with
  | .scanning i =>
    match s.clientFds[i]? with
    | some f => if f.fd ≠ -1 ∧ f.revents &&& wanted ≠ 0 then some i else none
    | none => none
  | _ => none

/-- A `send` takes all that was read, if its client has not closed the socket. -/
def Suits (s : System) : Act → Prop
  | .serve (.scan (some buf)) accepted =>
    ∀ i ∈ reads s.server, s.gone i = false → buf.length ≤ accepted
  | _ => True

instance (s : System) : DecidablePred (Suits s)
  | .serve (.scan (some buf)) accepted =>
    inferInstanceAs (Decidable (∀ i ∈ reads s.server, s.gone i = false → buf.length ≤ accepted))
  | .serve (.scan none) _ | .serve (.poll _) _ | .serve .pollFails _ | .serve (.accept _ _) _
  | .serve .pass _ | .write _ _ | .finish _ | .leave _ | .take _ _ | .reset _ _ => isTrue trivial

/-! ### The calls of a step -/

variable {s t next : System} {a : Act} {after : Server} {accepted : Nat}

theorem reads_eq_some {server : Server} {i : Nat} (reading : reads server = some i) :
    server.stage = .scanning i ∧ ∃ f, server.clientFds[i]? = some f ∧
      f.fd ≠ -1 ∧ f.revents &&& wanted ≠ 0 := by
  unfold reads at reading
  split at reading
  · rename_i j here
    split at reading
    · rename_i f found
      rw [Option.ite_none_right_eq_some, Option.some_inj] at reading
      obtain ⟨ready, rfl⟩ := reading
      exact ⟨here, f, found, ready⟩
    · contradiction
  · contradiction

/-- The descriptor of a slot is of the connection that was accepted into it. -/
structure Routed (s : System) : Prop where
  slots : s.server.stage ≠ .exited → ∀ (i : Nat) (fd : Int),
    (s.server.clientFds.map PollFd.fd)[i]? = some fd → fd ≠ -1 → s.table fd = some i
  accepts : s.accepts = s.server.clientFds.length

theorem routed_start (sockFd : Int) : Routed (start sockFd) where
  slots _ i fd found _ := by
    obtain ⟨inside, rfl⟩ := List.getElem?_eq_some_iff.mp found
    obtain rfl : i = 0 := Nat.lt_one_iff.mp inside
    exact Function.update_self sockFd (some 0) fun _ => none
  accepts := rfl

theorem Routed.slot {i : Nat} {f : PollFd} (routed : Routed s) (running : s.server.stage ≠ .exited)
    (found : s.server.clientFds[i]? = some f) (opened : f.fd ≠ -1) : s.table f.fd = some i :=
  routed.slots running i f.fd (by rw [List.getElem?_map, found]; rfl) opened

/-- What a step of the server does to the system: nothing, or the calls of an
`accept` or of a `read`. -/
inductive Performed (s : System) (e : EchoServer.Event) (accepted : Nat) (after : Server) :
    System → Prop
  | silent (quiet : ∀ buf, e = .scan buf → reads s.server = none)
      (kept : after.clientFds.map PollFd.fd = s.server.clientFds.map PollFd.fd) :
      Performed s e accepted after s
  | accept (fd : Int) (valid : 0 ≤ fd) (unused : s.table fd = none)
      (longer : after.clientFds.map PollFd.fd = s.server.clientFds.map PollFd.fd ++ [fd])
      (quiet : ∀ buf, e ≠ .scan buf) : Performed s e accepted after { s with
        table := Function.update s.table fd (some s.accepts), accepts := s.accepts + 1 }
  | read (i : Nat) (f : PollFd) (buf : Option (List UInt8)) (scan : e = .scan buf)
      (reading : reads s.server = some i) (found : s.server.clientFds[i]? = some f)
      (readable : Readable s i buf) (fds : after.clientFds.map PollFd.fd =
        if buf = some [] then (s.server.clientFds.map PollFd.fd).set i (-1)
        else s.server.clientFds.map PollFd.fd) : Performed s e accepted after { s with
        table := if buf = some [] then Function.update s.table f.fd none else s.table
        forth := Function.update s.forth i ((s.forth i).drop (buf.getD []).length)
        back := Function.update s.back i (s.back i ++ (buf.getD []).take accepted) }

theorem running_of_step {server : Server} {e : EchoServer.Event}
    (served : EchoServer.step server e = some after) : server.stage ≠ .exited := by
  intro gone
  cases e with
  | poll | pollFails | scan => simp [EchoServer.step, gone] at served
  | accept | pass =>
    rw [EchoServer.step] at served
    split at served
    · simp [gone] at served
    · cases served

/-- No calls, no change. -/
theorem perform_none {e : EchoServer.Event} (same : after.calls = s.server.calls)
    (ran : (after.calls.drop s.server.calls.length).foldlM (perform (received e) accepted) s = some t) :
    t = s := by
  rw [same, List.drop_length] at ran
  exact (Option.some.inj ran).symm

/-- The calls of an iteration that reads. -/
theorem perform_read {i : Nat} {f : PollFd} {buf : Option (List UInt8)}
    (routed : s.table f.fd = some i) (opened : f.fd ≠ -1) (ready : f.revents &&& wanted ≠ 0)
    (ran : ((serve s.server i f buf).calls.drop s.server.calls.length).foldlM
      (perform buf accepted) s = some t) :
    Readable s i buf ∧ t = { s with
      table := if buf = some [] then Function.update s.table f.fd none else s.table
      forth := Function.update s.forth i ((s.forth i).drop (buf.getD []).length)
      back := Function.update s.back i (s.back i ++ (buf.getD []).take accepted) } := by
  rw [serve, if_neg opened, if_pos ready] at ran
  by_cases readable : Readable s i buf
  · refine ⟨readable, ?_⟩
    rcases buf with _ | _ | ⟨byte, rest⟩
    · simp [perform, routed, readable] at ran
      simp [← ran]
    · simp [perform, routed, readable] at ran
      simp [← ran]
    · simp [perform, routed, readable] at ran
      simp [← ran]
  · rcases buf with _ | _ | ⟨byte, rest⟩ <;> simp [perform, routed, readable] at ran

theorem reads_idle {server : Server} (idle : ∀ i, server.stage ≠ .scanning i) : reads server = none := by
  rw [reads]
  split
  · rename_i i here
    exact absurd here (idle i)
  · rfl

/-- By the way the server's step is made up. -/
theorem step_performed {e : EchoServer.Event} (routed : Routed s)
    (served : EchoServer.step s.server e = some after)
    (ran : (after.calls.drop s.server.calls.length).foldlM (perform (received e) accepted) s = some t) :
    Performed s e accepted after t := by
  have running := running_of_step served
  cases e with
  | poll revents =>
    obtain ⟨⟨-, length⟩, rfl⟩ := guarded_eq_some.mp served
    obtain rfl := perform_none (e := .poll revents) rfl ran
    refine .silent (fun _ scan => by cases scan) (List.ext_getElem? fun i => ?_)
    simp only [List.getElem?_map, List.getElem?_zipWith]
    by_cases inside : i < t.server.clientFds.length
    · have found : i < revents.length := by omega
      simp [inside, found]
    · simp [inside]
  | pollFails =>
    obtain ⟨-, rfl⟩ := guarded_eq_some.mp served
    obtain rfl := perform_none (e := .pollFails) rfl ran
    exact .silent (fun _ scan => by cases scan) rfl
  | accept fd leftover =>
    cases EchoServer.step_change served with
    | exit =>
      obtain rfl := perform_none (e := .accept fd leftover) rfl ran
      exact .silent (fun _ scan => by cases scan) rfl
    | accept _ _ _ valid =>
      dsimp only at ran
      rw [List.drop_left, List.foldlM_cons] at ran
      obtain ⟨u, made, ran⟩ := Option.bind_eq_some_iff.mp ran
      obtain rfl := Option.some.inj ran
      obtain ⟨unused, rfl⟩ := guarded_eq_some.mp made
      exact .accept fd valid unused (by simp) fun _ scan => by cases scan
  | pass =>
    cases EchoServer.step_change served with
    | exit =>
      obtain rfl := perform_none (e := .pass) rfl ran
      exact .silent (fun _ scan => by cases scan) rfl
    | pass =>
      obtain rfl := perform_none (e := .pass) rfl ran
      exact .silent (fun _ scan => by cases scan) rfl
  | scan buf =>
    cases EchoServer.step_change served with
    | exit _ idle =>
      obtain rfl := perform_none (e := .scan buf) rfl ran
      exact .silent (fun _ _ => reads_idle idle) rfl
    | ends _ i here none =>
      obtain rfl := perform_none (e := .scan buf) rfl ran
      exact .silent (fun _ _ => by simp [reads, here, none]) rfl
    | scan _ i f here found =>
      by_cases ready : f.fd ≠ -1 ∧ f.revents &&& wanted ≠ 0
      · obtain ⟨readable, rfl⟩ :=
          perform_read (routed.slot running found ready.1) ready.1 ready.2 ran
        refine .read i f buf rfl (by simp only [reads, here, found, if_pos ready]) found readable ?_
        dsimp only
        rw [serve, if_neg ready.1, if_pos ready.2]
        rcases buf with _ | _ | ⟨byte, rest⟩
        · rfl
        · simp
        · simp
      · have same : serve s.server i f buf = s.server := by
          rw [serve]
          split
          · rfl
          · rename_i opened
            exact if_neg fun set => ready ⟨opened, set⟩
        have quiet : (serve s.server i f buf).calls = s.server.calls := congrArg Server.calls same
        obtain rfl := perform_none (e := .scan buf) quiet ran
        refine .silent (fun _ _ => by simp only [reads, here, found, if_neg ready]) ?_
        rw [same]

/-- A step of the server, with the end of its process where it exits. -/
theorem step_serve {e : EchoServer.Event} (routed : Routed s)
    (stepped : step s (.serve e accepted) = some next) :
    ∃ after t, EchoServer.step s.server e = some after ∧ Performed s e accepted after t ∧
      next = { if after.stage = .exited then t.exit else t with server := after } := by
  obtain ⟨after, served, made⟩ := Option.bind_eq_some_iff.mp stepped
  obtain ⟨t, ran, made⟩ := Option.bind_eq_some_iff.mp made
  exact ⟨after, t, served, step_performed routed served ran, (Option.some.inj made).symm⟩

/-! ### The descriptors -/

/-- The calls of a step keep each open slot with its connection: `accept` gives
an unused descriptor, and only the slot that is closed gives one up. -/
theorem Performed.routed {e : EchoServer.Event} (performed : Performed s e accepted after t)
    (held : Routed s) (running : s.server.stage ≠ .exited) :
    (∀ (i : Nat) (fd : Int), (after.clientFds.map PollFd.fd)[i]? = some fd → fd ≠ -1 →
      t.table fd = some i) ∧ t.accepts = after.clientFds.length := by
  have slots := held.slots running
  have accepts := held.accepts
  rw [← List.length_map PollFd.fd] at accepts
  rw [← List.length_map PollFd.fd]
  cases performed with
  | silent _ kept =>
    rw [kept]
    exact ⟨slots, accepts⟩
  | accept fd _ unused longer =>
    rw [longer, List.length_append, ← accepts]
    refine ⟨fun i other found opened => ?_, rfl⟩
    dsimp only
    by_cases old : i < (s.server.clientFds.map PollFd.fd).length
    · rw [List.getElem?_append_left old] at found
      have before := slots i other found opened
      rw [Function.update_of_ne, before]
      rintro rfl
      rw [unused] at before
      cases before
    · rw [List.getElem?_append_right (by omega)] at found
      obtain ⟨last, rfl⟩ := List.getElem?_eq_some_iff.mp found
      have here : i = s.accepts := by
        rw [List.length_singleton] at last
        omega
      subst here
      simp
  | read j f buf scan reading there readable fds =>
    rw [fds]
    dsimp only
    split
    · rw [List.length_set]
      refine ⟨fun i other found opened => ?_, accepts⟩
      rw [List.getElem?_set] at found
      split at found
      · split at found
        · exact absurd (Option.some.inj found).symm opened
        · cases found
      · rename_i apart
        have before := slots i other found opened
        rw [Function.update_of_ne, before]
        rintro rfl
        have same := held.slot running there opened
        rw [before] at same
        exact apart (Option.some.inj same).symm
    · exact ⟨slots, accepts⟩

theorem routed_step (held : Routed s) (stepped : step s a = some next) : Routed next := by
  cases a with
  | serve e accepted =>
    obtain ⟨after, t, served, performed, rfl⟩ := step_serve held stepped
    obtain ⟨slots, accepts⟩ := performed.routed held (running_of_step served)
    constructor
    · intro running
      rw [if_neg running]
      exact slots
    · dsimp only
      split
      · exact accepts
      · exact accepts
  | write i bytes =>
    obtain ⟨-, made⟩ := guarded_eq_some.mp stepped
    split at made
    · subst made
      exact ⟨held.slots, held.accepts⟩
    · subst made
      exact ⟨held.slots, held.accepts⟩
  | finish i =>
    obtain rfl := Option.some.inj stepped
    exact ⟨held.slots, held.accepts⟩
  | leave i =>
    obtain rfl := Option.some.inj stepped
    exact ⟨held.slots, held.accepts⟩
  | take i count =>
    obtain ⟨-, rfl⟩ := guarded_eq_some.mp stepped
    exact ⟨held.slots, held.accepts⟩
  | reset i kept =>
    obtain ⟨-, rfl⟩ := guarded_eq_some.mp stepped
    exact ⟨held.slots, held.accepts⟩

/-! ### The streams -/

theorem Readable.front {i : Nat} {received : Option (List UInt8)} (readable : Readable s i received) :
    s.forth i = received.getD [] ++ (s.forth i).drop (received.getD []).length := by
  rcases received with _ | _ | ⟨byte, rest⟩
  · simp
  · simp
  · obtain ⟨tail, front⟩ := readable.1
    rw [← front]
    simp

/-- Everything an act can do to the streams. -/
inductive Change (s : System) : Act → System → Prop
  /-- The streams stay as they are. -/
  | quiet (a : Act) (server : Server) (table : Int → Option Nat) (accepts : Nat)
      (ended gone : Nat → Bool) (stays : server.stage = .exited ↔ s.server.stage = .exited)
      (lasting : ∀ i, gone i = false → s.gone i = false) (suited : Suits s a) :
      Change s a { s with
        server := server, table := table, accepts := accepts, ended := ended, gone := gone }
  /-- The server exits. -/
  | exit (a : Act) (server : Server) (table : Int → Option Nat) (accepts : Nat)
      (running : s.server.stage ≠ .exited) (exited : server.stage = .exited) (suited : Suits s a) :
      Change s a { System.exit { s with table := table, accepts := accepts } with server := server }
  /-- The server passes `buf` back on connection `i`. -/
  | relay (a : Act) (server : Server) (table : Int → Option Nat) (i accepted : Nat)
      (buf rest : List UInt8) (running : s.server.stage ≠ .exited) (runs : server.stage ≠ .exited)
      (front : s.forth i = buf ++ rest)
      (suited : Suits s a ↔ (s.gone i = false → buf.length ≤ accepted)) :
      Change s a { s with
        server := server
        table := table
        forth := Function.update s.forth i rest
        back := Function.update s.back i (s.back i ++ buf.take accepted) }
  | write (i : Nat) (bytes : List UInt8) (running : s.server.stage ≠ .exited) :
      Change s (.write i bytes) { s with
        written := Function.update s.written i (s.written i ++ bytes)
        forth := Function.update s.forth i (s.forth i ++ bytes) }
  /-- A write that meets no reader any more. -/
  | late (i : Nat) (bytes : List UInt8) (exited : s.server.stage = .exited) :
      Change s (.write i bytes) { s with
        written := Function.update s.written i (s.written i ++ bytes)
        cut := Function.update s.cut i (s.cut i ++ bytes) }
  | take (i count : Nat) : Change s (.take i count) { s with
      back := Function.update s.back i ((s.back i).drop count)
      taken := Function.update s.taken i (s.taken i ++ (s.back i).take count) }
  | reset (i kept : Nat) (exited : s.server.stage = .exited) : Change s (.reset i kept) { s with
      back := Function.update s.back i ((s.back i).take kept)
      cut := Function.update s.cut i ((s.back i).drop kept ++ s.cut i) }

/-- Only an iteration of the scan that reads can be unsuited. -/
theorem suits_serve {e : EchoServer.Event}
    (silent : ∀ buf, e = .scan buf → reads s.server = none) : Suits s (.serve e accepted) := by
  cases e with
  | scan buf =>
    cases buf with
    | none => trivial
    | some buf => simp [Suits, silent _ rfl]
  | _ => trivial

theorem suits_scan {i : Nat} {buf : Option (List UInt8)} (reading : reads s.server = some i) :
    Suits s (.serve (.scan buf) accepted) ↔
      (s.gone i = false → (buf.getD []).length ≤ accepted) := by
  cases buf with
  | none => simp [Suits]
  | some buf => simp [Suits, reading]

/-- An iteration of the scan is no exit. -/
theorem runs_of_reads {server : Server} {i : Nat} {buf : Option (List UInt8)}
    (reading : reads server = some i) (served : EchoServer.step server (.scan buf) = some after) :
    after.stage ≠ .exited := by
  obtain ⟨here, f, found, -⟩ := reads_eq_some reading
  rw [EchoServer.step, here] at served
  dsimp only at served
  rw [found] at served
  obtain rfl := Option.some.inj served
  simp

theorem step_change (held : Routed s) (stepped : step s a = some next) : Change s a next := by
  cases a with
  | serve e accepted =>
    obtain ⟨after, t, served, performed, rfl⟩ := step_serve held stepped
    have running := running_of_step served
    cases performed with
    | silent quiet =>
      split
      · rename_i exited
        exact .exit _ after s.table s.accepts running exited (suits_serve quiet)
      · rename_i runs
        exact .quiet _ after s.table s.accepts s.ended s.gone (iff_of_false runs running)
          (fun _ => id) (suits_serve quiet)
    | accept fd _ unused longer noScan =>
      have suited : Suits s (.serve e accepted) :=
        suits_serve fun buf scan => absurd scan (noScan buf)
      split
      · rename_i exited
        exact .exit _ after _ _ running exited suited
      · rename_i runs
        exact .quiet _ after _ _ s.ended s.gone (iff_of_false runs running) (fun _ => id) suited
    | read i f buf scan reading found readable =>
      subst scan
      have runs := runs_of_reads reading served
      rw [if_neg runs]
      exact .relay _ after _ i accepted _ _ running runs readable.front (suits_scan reading)
  | write i bytes =>
    obtain ⟨-, made⟩ := guarded_eq_some.mp stepped
    split at made
    · rename_i exited
      subst made
      exact .late i bytes exited
    · rename_i running
      subst made
      exact .write i bytes running
  | finish i =>
    obtain rfl := Option.some.inj stepped
    exact .quiet _ s.server s.table s.accepts _ s.gone Iff.rfl (fun _ => id) trivial
  | leave i =>
    obtain rfl := Option.some.inj stepped
    refine .quiet _ s.server s.table s.accepts _ _ Iff.rfl (fun j present => ?_) trivial
    rw [Function.update_apply] at present
    split at present
    · cases present
    · exact present
  | take i count =>
    obtain ⟨-, rfl⟩ := guarded_eq_some.mp stepped
    exact .take i count
  | reset i kept =>
    obtain ⟨⟨exited, -⟩, rfl⟩ := guarded_eq_some.mp stepped
    exact .reset i kept exited

/-- An act keeps the streams exact when and only when it suits. -/
theorem exact_step_iff (before : Exact s) (changed : Change s a next) : Exact next ↔ Suits s a := by
  have streams := before.streams
  cases changed with
  | quiet _ server table accepts ended gone stays lasting suited =>
    refine iff_of_true ⟨fun i present => streams i (lasting i present), fun runs => before.whole ?_, fun gone => before.spent ?_⟩ suited
    · exact fun gone => runs (stays.mpr gone)
    · exact stays.mp gone
  | exit _ server table accepts running exited suited =>
    refine iff_of_true ⟨fun i present => ?_, fun runs => absurd exited runs, fun _ _ => rfl⟩ suited
    rw [System.exit]
    exact streams i present
  | relay _ server table i accepted buf rest running runs front suited =>
    rw [suited]
    constructor
    · intro held present
      have here := held.streams i present
      simp only [Function.update_self] at here
      have length := congrArg List.length ((streams i present).symm.trans here)
      simp only [front, List.length_append, List.length_take] at length
      omega
    · refine fun whole => ⟨fun j present => ?_, fun _ => before.whole running,
        fun gone => absurd gone runs⟩
      dsimp only
      by_cases this : j = i
      · subst this
        rw [streams j present, front, Function.update_self, Function.update_self,
          List.take_of_length_le (whole present)]
        simp only [List.append_assoc]
      · rw [Function.update_of_ne this, Function.update_of_ne this, streams j present]
  | write i bytes running =>
    refine iff_of_true ⟨fun j present => ?_, fun _ => before.whole running,
      fun gone => absurd gone running⟩ trivial
    dsimp only
    by_cases this : j = i
    · subst this
      rw [Function.update_self, Function.update_self, streams j present, before.whole running]
      simp only [List.append_assoc, List.append_nil]
    · rw [Function.update_of_ne this, Function.update_of_ne this, streams j present]
  | late i bytes exited =>
    refine iff_of_true ⟨fun j present => ?_, fun running => absurd exited running,
      fun _ => before.spent exited⟩ trivial
    dsimp only
    by_cases this : j = i
    · subst this
      rw [Function.update_self, Function.update_self, streams j present]
      simp only [List.append_assoc]
    · rw [Function.update_of_ne this, Function.update_of_ne this, streams j present]
  | take i count =>
    refine iff_of_true ⟨fun j present => ?_, before.whole, before.spent⟩ trivial
    dsimp only
    by_cases this : j = i
    · subst this
      rw [Function.update_self, Function.update_self, streams j present, List.append_assoc,
        ← List.append_assoc ((s.back j).take count), List.take_append_drop]
    · rw [Function.update_of_ne this, Function.update_of_ne this, streams j present]
  | reset i kept exited =>
    refine iff_of_true ⟨fun j present => ?_, fun running => absurd exited running,
      fun _ => before.spent exited⟩ trivial
    dsimp only
    by_cases this : j = i
    · subst this
      rw [Function.update_self, Function.update_self, streams j present, before.spent exited, List.nil_append,
        List.nil_append, ← List.append_assoc ((s.back j).take kept), List.take_append_drop]
    · rw [Function.update_of_ne this, Function.update_of_ne this, streams j present]

/-! ### Connections that are closed -/

section Closing
variable {e : EchoServer.Event} {i : Nat}

/-- A connection that is closed stays so. -/
theorem Performed.closed_kept (performed : Performed s e accepted after t) (closed : Closed s.server i) :
    Closed after i := by
  unfold Closed at closed ⊢
  cases performed with
  | silent _ kept => rw [kept, closed]
  | accept fd _ _ longer =>
    rw [longer, List.getElem?_append_left (List.getElem?_eq_some_iff.mp closed).1, closed]
  | read j f buf _ _ _ _ fds =>
    rw [fds]
    split
    · rw [List.getElem?_set]
      split
      · rename_i this
        subst this
        rw [if_pos (List.getElem?_eq_some_iff.mp closed).1]
      · exact closed
    · exact closed

/-- Only the end of its stream closes a connection. -/
theorem Performed.closed_new (performed : Performed s e accepted after t)
    (present : s.gone i = false) (closed : Closed after i) :
    Closed s.server i ∨ reads s.server = some i ∧ s.forth i = [] ∧ s.ended i = true := by
  unfold Closed at closed ⊢
  cases performed with
  | silent _ kept => exact .inl (by rw [← kept, closed])
  | accept fd valid _ longer =>
    rw [longer] at closed
    by_cases old : i < (s.server.clientFds.map PollFd.fd).length
    · exact .inl (by rwa [List.getElem?_append_left old] at closed)
    · rw [List.getElem?_append_right (by omega)] at closed
      have new := List.mem_singleton.mp (List.mem_of_getElem? closed)
      omega
  | read j f buf _ reading _ readable fds =>
    rw [fds] at closed
    split at closed
    · rename_i ended
      subst ended
      by_cases this : j = i
      · subst this
        exact .inr ⟨reading, readable.resolve_left fun gone => by simp [present] at gone⟩
      · exact .inl (by rwa [List.getElem?_set_ne this] at closed)
    · exact .inl closed

/-- The server's calls do nothing on the clients' side. -/
theorem Performed.clients (performed : Performed s e accepted after t) :
    t.written = s.written ∧ t.taken = s.taken ∧ t.ended = s.ended ∧ t.gone = s.gone := by
  cases performed with
  | silent | accept | read => exact ⟨rfl, rfl, rfl, rfl⟩

/-- What the calls of a step leave of the streams of a connection with nothing
on the way to the server. -/
theorem Performed.quiet (performed : Performed s e accepted after t) (empty : s.forth i = []) :
    t.forth i = [] ∧ t.back i = s.back i ∧ t.cut i = s.cut i := by
  cases performed with
  | silent => exact ⟨empty, rfl, rfl⟩
  | accept => exact ⟨empty, rfl, rfl⟩
  | read j f buf _ _ _ readable =>
    refine ⟨?_, ?_, rfl⟩
    · dsimp only
      by_cases this : i = j
      · subst this
        rw [Function.update_self, empty, List.drop_nil]
      · rw [Function.update_of_ne this, empty]
    · dsimp only
      by_cases this : i = j
      · subst this
        have nothing : buf.getD [] = [] := by
          have front := readable.front
          rw [empty] at front
          exact (List.append_eq_nil_iff.mp front.symm).1
        rw [Function.update_self, nothing, List.take_nil, List.append_nil]
      · rw [Function.update_of_ne this]

/-- While the client's socket is open, the server closes its connection only
once it has ended it and all its bytes have been read. -/
def Settled (s : System) : Prop :=
  ∀ i, 0 < i → s.gone i = false → Closed s.server i →
    s.forth i = [] ∧ s.cut i = [] ∧ s.ended i = true

theorem settled_start (sockFd : Int) : Settled (start sockFd) := by
  intro i positive _ closed
  have inside := (List.getElem?_eq_some_iff.mp closed).1
  simp [start, EchoServer.start] at inside
  omega

theorem settled_step (routed : Routed s) (exact : Exact s) (held : Settled s)
    (stepped : step s a = some next) : Settled next := by
  intro i positive present closed
  cases a with
  | serve e accepted =>
    obtain ⟨after, t, served, performed, rfl⟩ := step_serve routed stepped
    obtain ⟨-, -, ended, gone⟩ := performed.clients
    have present : s.gone i = false := by
      rw [← gone]
      split at present
      · exact present
      · exact present
    have before : s.forth i = [] ∧ s.cut i = [] ∧ s.ended i = true := by
      rcases performed.closed_new present closed with old | ⟨-, empty, ended⟩
      · exact held i positive present old
      · exact ⟨empty, exact.whole (running_of_step served) i, ended⟩
    obtain ⟨empty, -, cut⟩ := performed.quiet before.1
    dsimp only
    split
    · rw [System.exit]
      dsimp only
      rw [empty, cut, ended]
      exact ⟨rfl, before.2⟩
    · rw [cut, ended]
      exact ⟨empty, before.2⟩
  | write j bytes =>
    obtain ⟨writing, made⟩ := guarded_eq_some.mp stepped
    have other : s.gone i = false → Closed s.server i → i ≠ j := by
      rintro present closed rfl
      have ended := (held i positive present closed).2.2
      simp [ended] at writing
    split at made
    · subst made
      dsimp only
      rw [Function.update_of_ne (other present closed)]
      exact held i positive present closed
    · subst made
      dsimp only
      rw [Function.update_of_ne (other present closed)]
      exact held i positive present closed
  | finish j =>
    obtain rfl := Option.some.inj stepped
    obtain ⟨empty, cut, ended⟩ := held i positive present closed
    refine ⟨empty, cut, ?_⟩
    dsimp only
    rw [Function.update_apply, ended, ite_self]
  | leave j =>
    obtain rfl := Option.some.inj stepped
    have other : i ≠ j := by
      rintro rfl
      simp at present
    dsimp only at present ⊢
    rw [Function.update_of_ne other] at present ⊢
    exact held i positive present closed
  | take j count =>
    obtain ⟨-, rfl⟩ := guarded_eq_some.mp stepped
    exact held i positive present closed
  | reset j kept =>
    obtain ⟨⟨-, opened⟩, rfl⟩ := guarded_eq_some.mp stepped
    have other : i ≠ j := by
      rintro rfl
      exact opened closed
    dsimp only
    rw [Function.update_of_ne other]
    exact held i positive present closed

end Closing

/-! ### Every run -/

/-- For any number of clients and every interleaving with the server: until it
closes its socket, what each client has written is always what it has read back
followed by what is under way, none of it lost, doubled, reordered or mixed with
another's, up to what is cut off once the server has exited, exactly when every
`send` to such a client takes all it is given. -/
theorem streams_exact_iff {sockFd : Int} {acts : List Act} {final : System}
    (ran : run step (start sockFd) acts = some final) :
    Throughout step Exact (start sockFd) acts ↔ Meets step Suits (start sockFd) acts := by
  have begun : Routed (start sockFd) ∧ Exact (start sockFd) :=
    ⟨routed_start sockFd, fun _ _ => rfl, fun _ _ => rfl, fun _ _ => rfl⟩
  have strong : ∀ s, Routed s ∧ Exact s → Exact s := fun _ => And.right
  refine throughout_iff_meets_of_run ?_ ?_ strong begun ran
  · rintro s a next ⟨routed, exact⟩ suited stepped
    exact ⟨routed_step routed stepped, (exact_step_iff exact (step_change routed stepped)).mpr suited⟩
  · rintro s a next ⟨routed, exact⟩ stepped kept
    exact (exact_step_iff exact (step_change routed stepped)).mp kept

/-- A connection is accepted, and its client gets its two bytes back; of the
next two it gets none, since `accept` fails, and it leaves. -/
def echoed : List Act :=
  [.serve (.poll [POLLRDNORM]) 0, .write 1 [104, 105], .serve (.accept 5 0) 0, .serve (.scan none) 0,
    .serve (.scan none) 0, .serve (.poll [0, POLLRDNORM]) 0, .serve .pass 0,
    .serve (.scan (some [104, 105])) 2, .take 1 2, .serve (.scan none) 0, .write 1 [106, 107],
    .serve (.poll [POLLRDNORM, POLLRDNORM]) 0, .serve (.accept (-1) 0) 0, .leave 1]

theorem streams_exact_echoed : Throughout step Exact (start 3) echoed := by
  obtain ⟨final, ran⟩ := Option.isSome_iff_exists.mp (show (run step (start 3) echoed).isSome by decide)
  exact (streams_exact_iff ran).mpr (by decide)

end ExNetlink.EchoStreams
