import ExNetlink.Reactor
import ExNetlink.Runs

/-! The poll-based echo server, `main` of `set/echo/echo.server.cpp` and of its
copy in `set/echo_fd`.

A round polls the whole array `client_fds`, accepts at most one connection,
which goes to the end of the array, and then scans the array from its second
entry on. The new entry is built from a local `struct pollfd` whose `revents`
nobody has set, and the scan reaches it in the same round. -/
namespace ExNetlink.EchoServer
open Reactor Runs

def POLLRDNORM : BitVec 16 := 0x040#16

/-- The bits for which the scan reads a connection. -/
def wanted : BitVec 16 := POLLRDNORM ||| POLLERR

/-- A system call made in a round. -/
inductive Call where
  | accept (connectedFd : Int)
  /-- A `read` in the scan, with the array as the round's `poll` left it. -/
  | read (index : Nat) (connectedFd : Int) (polled : List PollFd)
  | send (connectedFd : Int) (buf : List UInt8)
  | close (connectedFd : Int)
  deriving DecidableEq, Repr

/-- How far a round is. -/
inductive Stage where
  | polling
  /-- At the test of the listening socket. -/
  | accepting
  /-- At entry `i` of the scan. -/
  | scanning (i : Nat)
  | exited
  deriving DecidableEq, Repr

structure Server where
  clientFds : List PollFd
  stage : Stage
  /-- `client_fds` as the last `poll` left it. -/
  polled : List PollFd
  calls : List Call
  deriving DecidableEq, Repr

inductive Event where
  /-- `poll` returns with these `revents`, all zero when it has timed out. -/
  | poll (revents : List (BitVec 16))
  | pollFails
  /-- `accept` returns, and the local `pollfd` has these `revents`. -/
  | accept (connectedFd : Int) (leftover : BitVec 16)
  /-- The listening socket is not readable. -/
  | pass
  /-- One iteration of the scan. `received` is what a `read` gives there:
  nothing at end of file, `none` for a failure. -/
  | scan (received : Option (List UInt8))
  deriving DecidableEq, Repr

/-- `client_fds` before the first round; its one element is value-initialised. -/
def start (sockFd : Int) : Server where
  clientFds := [{ fd := sockFd, events := POLLRDNORM }]
  stage := .polling
  polled := []
  calls := []

/-- The body of the scan past its test, for the entry `f` at `i`. -/
def serve (s : Server) (i : Nat) (f : PollFd) (received : Option (List UInt8)) : Server :=
  if f.fd = -1 then s
  else if f.revents &&& wanted ≠ 0 then
    let s := { s with calls := s.calls ++ [.read i f.fd s.polled] }
    match received with
    | some [] => { s with
        clientFds := s.clientFds.set i { f with fd := -1 }
        calls := s.calls ++ [.close f.fd] }
    | some buf => { s with calls := s.calls ++ [.send f.fd buf] }
    | none => s
  else s

/-- The state after an event, for an event that can happen. -/
def step (s : Server) : Event → Option Server
  | .poll revents =>
    if s.stage = .polling ∧ revents.length = s.clientFds.length then
      let fds := s.clientFds.zipWith (fun f bits => { f with revents := bits }) revents
      some { s with
        clientFds := fds
        polled := fds
        stage := if revents.countP (· ≠ 0) = 0 then .polling else .accepting }
    else none
  | .pollFails => if s.stage = .polling then some { s with stage := .exited } else none
  | .accept connectedFd leftover =>
    match s.clientFds with
    | listener :: _ =>
      if s.stage = .accepting ∧ listener.revents &&& POLLRDNORM ≠ 0 then
        if connectedFd < 0 then some { s with stage := .exited }
        else some { s with
          clientFds := s.clientFds ++ [{ fd := connectedFd, events := wanted, revents := leftover }]
          calls := s.calls ++ [.accept connectedFd]
          stage := .scanning 1 }
      else none
    | [] => none
  | .pass =>
    match s.clientFds with
    | listener :: _ =>
      if s.stage = .accepting ∧ listener.revents &&& POLLRDNORM = 0 then
        some { s with stage := .scanning 1 }
      else none
    | [] => none
  | .scan received =>
    match s.stage with
    | .scanning i =>
      match s.clientFds[i]? with
      | some f => some { serve s i f received with stage := .scanning (i + 1) }
      | none => some { s with stage := .polling }
    | _ => none

/-- A read is of an entry that was polled in its round and found readable. -/
def Call.Prompted : Call → Prop
  | .read i connectedFd polled =>
    ∃ f ∈ polled[i]?, f.fd = connectedFd ∧ f.revents &&& wanted ≠ 0
  | _ => True

/-- The server reads only when poll said so. -/
def Prompted (s : Server) : Prop := ∀ call ∈ s.calls, call.Prompted

/-- What an accepted connection finds in `revents` has none of the bits. -/
def Suits (_ : Server) : Event → Prop
  | .accept connectedFd leftover => 0 ≤ connectedFd → leftover &&& wanted = 0
  | _ => True

instance (s : Server) : DecidablePred (Suits s)
  | .accept connectedFd leftover =>
    inferInstanceAs (Decidable (0 ≤ connectedFd → leftover &&& wanted = 0))
  | .poll _ | .pollFails | .pass | .scan _ => isTrue trivial

instance : DecidablePred Call.Prompted
  | .read i connectedFd polled =>
    match found : polled[i]? with
    | some f => decidable_of_iff (f.fd = connectedFd ∧ f.revents &&& wanted ≠ 0)
        (by simp [Call.Prompted, found])
    | none => isFalse (by simp [Call.Prompted, found])
  | .accept _ | .send _ _ | .close _ => isTrue trivial

instance : DecidablePred Prompted := fun s => inferInstanceAs (Decidable (∀ call ∈ s.calls, call.Prompted))

variable {s next : Server}

/-! ### One step -/

/-- What a step of the scan adds to the calls: at most one read, of its own
entry and only for one of the bits. -/
theorem serve_calls (s : Server) (i : Nat) (f : PollFd) (received : Option (List UInt8)) :
    ∀ call ∈ (serve s i f received).calls, call ∈ s.calls ∨ call.Prompted ∨
      f.fd ≠ -1 ∧ f.revents &&& wanted ≠ 0 ∧ call = .read i f.fd s.polled := by
  intro call member
  rw [serve] at member
  split at member
  · exact .inl member
  · rename_i opened
    split at member
    · rename_i ready
      have read : ∀ rest : List Call, call ∈ s.calls ++ [.read i f.fd s.polled] ++ rest →
          (∀ other ∈ rest, other.Prompted) → call ∈ s.calls ∨ call.Prompted ∨
            f.fd ≠ -1 ∧ f.revents &&& wanted ≠ 0 ∧ call = .read i f.fd s.polled := by
        intro rest member fine
        rcases List.mem_append.mp member with front | back
        · rcases List.mem_append.mp front with old | new
          · exact .inl old
          · exact .inr (.inr ⟨opened, ready, List.mem_singleton.mp new⟩)
        · exact .inr (.inl (fine call back))
      split at member
      · exact read _ member (by simp [Call.Prompted])
      · exact read _ member (by simp [Call.Prompted])
      · exact read [] (by simpa using member) (by simp)
    · exact .inl member

/-- A step of the scan reads its entry when one of the bits is set. -/
theorem serve_reads {f : PollFd} (s : Server) (i : Nat) (received : Option (List UInt8))
    (opened : f.fd ≠ -1) (ready : f.revents &&& wanted ≠ 0) :
    .read i f.fd s.polled ∈ (serve s i f received).calls := by
  rw [serve, if_neg opened, if_pos ready]
  split <;> simp

theorem serve_polled (s : Server) (i : Nat) (f : PollFd) (received : Option (List UInt8)) :
    (serve s i f received).polled = s.polled := by
  rw [serve]
  split
  · rfl
  · split
    · split <;> rfl
    · rfl

/-- A step of the scan changes no entry but its own. -/
theorem serve_clientFds {i j : Nat} (s : Server) (f : PollFd) (received : Option (List UInt8))
    (other : i ≠ j) : (serve s i f received).clientFds[j]? = s.clientFds[j]? := by
  rw [serve]
  split
  · rfl
  · split
    · split
      · exact List.getElem?_set_ne other
      · rfl
      · rfl
    · rfl

/-! ### Runs -/

/-- The entries the scan has not reached are as `poll` left them, or `poll` has
not seen them. -/
structure Matching (s : Server) : Prop where
  accepting : s.stage = .accepting → s.clientFds = s.polled
  scanning : ∀ i, s.stage = .scanning i → ∀ j f, i ≤ j → s.clientFds[j]? = some f →
    s.polled[j]? = some f ∨ s.polled[j]? = none

theorem matching_start (sockFd : Int) : Matching (start sockFd) where
  accepting stage := by simp [start] at stage
  scanning i stage := by simp [start] at stage

/-- Everything a step can do. -/
inductive Change (s : Server) : Event → Server → Prop
  | poll (revents : List (BitVec 16)) (stage : Stage) (fds : List PollFd)
      (here : s.stage = .polling) (still : ∀ i, stage ≠ .scanning i) :
      Change s (.poll revents) { s with clientFds := fds, polled := fds, stage := stage }
  | exit (e : Event) (idle : ∀ i, s.stage ≠ .scanning i) (suited : Suits s e) : Change s e { s with stage := .exited }
  | accept (connectedFd : Int) (leftover : BitVec 16) (here : s.stage = .accepting)
      (valid : 0 ≤ connectedFd) (some : s.clientFds ≠ []) : Change s (.accept connectedFd leftover)
        { s with
          clientFds := s.clientFds ++ [{ fd := connectedFd, events := wanted, revents := leftover }]
          calls := s.calls ++ [.accept connectedFd]
          stage := .scanning 1 }
  | pass (here : s.stage = .accepting) : Change s .pass { s with stage := .scanning 1 }
  | scan (received : Option (List UInt8)) (i : Nat) (f : PollFd) (here : s.stage = .scanning i)
      (found : s.clientFds[i]? = some f) :
      Change s (.scan received) { serve s i f received with stage := .scanning (i + 1) }
  | ends (received : Option (List UInt8)) (i : Nat) (here : s.stage = .scanning i)
      (none : s.clientFds[i]? = none) : Change s (.scan received) { s with stage := .polling }

theorem step_change {e : Event} (stepped : step s e = some next) : Change s e next := by
  cases e with
  | poll revents =>
    obtain ⟨⟨here, -⟩, rfl⟩ := guarded_eq_some.mp stepped
    apply Change.poll revents _ _ here
    intro i
    split <;> simp
  | pollFails =>
    obtain ⟨here, rfl⟩ := guarded_eq_some.mp stepped
    exact .exit _ (by simp [here]) trivial
  | accept connectedFd leftover =>
    rw [step] at stepped
    split at stepped
    · rename_i listener rest shape
      split at stepped
      · rename_i here
        split at stepped
        · rename_i failed
          obtain rfl := Option.some.inj stepped
          exact .exit _ (by simp [here.1]) fun valid => absurd failed (by omega)
        · rename_i valid
          obtain rfl := Option.some.inj stepped
          exact .accept connectedFd leftover here.1 (by omega) (by simp [shape])
      · contradiction
    · contradiction
  | pass =>
    rw [step] at stepped
    split at stepped
    · obtain ⟨⟨here, -⟩, rfl⟩ := guarded_eq_some.mp stepped
      exact .pass here
    · contradiction
  | scan received =>
    rw [step] at stepped
    split at stepped
    · rename_i i here
      split at stepped
      · rename_i f found
        obtain rfl := Option.some.inj stepped
        exact .scan received i f here found
      · rename_i none
        obtain rfl := Option.some.inj stepped
        exact .ends received i here none
    · contradiction

theorem matching_step {e : Event} (held : Matching s) (changed : Change s e next) :
    Matching next := by
  cases changed with
  | poll revents stage fds _ still => exact ⟨fun _ => rfl, fun i here => absurd here (still i)⟩
  | exit => exact ⟨by simp, by simp⟩
  | accept connectedFd leftover here =>
    refine ⟨by simp, fun i _ j f _ found => ?_⟩
    rw [← held.accepting here]
    by_cases old : j < s.clientFds.length
    · exact .inl (by simpa [List.getElem?_append_left old] using found)
    · exact .inr (List.getElem?_eq_none (by omega))
  | pass here =>
    refine ⟨by simp, fun i _ j f _ found => .inl ?_⟩
    rw [← held.accepting here]
    exact found
  | scan received i f here =>
    refine ⟨by simp, fun k same j g after found => ?_⟩
    obtain rfl : i + 1 = k := by simpa using same
    dsimp only at found ⊢
    rw [serve_clientFds s f received (by omega)] at found
    rw [serve_polled]
    exact held.scanning i here j g (by omega) found
  | ends => exact ⟨by simp, by simp⟩

/-- What carries the induction: an entry that `poll` has not seen has none of
the bits. -/
structure Kept (s : Server) : Prop extends Matching s where
  quiet : ∀ i, s.stage = .scanning i → ∀ j f, i ≤ j → s.clientFds[j]? = some f →
    s.polled[j]? = none → f.revents &&& wanted = 0
  prompted : Prompted s

theorem kept_start (sockFd : Int) : Kept (start sockFd) where
  toMatching := matching_start sockFd
  quiet i stage := by simp [start] at stage
  prompted := by simp [Prompted, start]

theorem kept_step {e : Event} (held : Kept s) (suited : Suits s e) (changed : Change s e next) :
    Kept next := by
  refine ⟨matching_step held.toMatching changed, ?_, ?_⟩
  · cases changed with
    | poll revents stage fds _ still => exact fun i here => absurd here (still i)
    | exit => simp
    | accept connectedFd leftover here valid =>
      intro i _ j f _ found unseen
      rw [← held.accepting here] at unseen
      rw [List.getElem?_append_right (List.getElem?_eq_none_iff.mp unseen)] at found
      obtain rfl := List.mem_singleton.mp (List.mem_of_getElem? found)
      exact suited valid
    | pass here =>
      intro i _ j f _ found unseen
      dsimp only at found unseen
      rw [← held.accepting here, found] at unseen
      contradiction
    | scan received i f here =>
      intro k same j g after found unseen
      obtain rfl : i + 1 = k := by simpa using same
      dsimp only at found unseen
      rw [serve_clientFds s f received (by omega)] at found
      rw [serve_polled] at unseen
      exact held.quiet i here j g (by omega) found unseen
    | ends => simp
  · cases changed with
    | poll => exact held.prompted
    | exit => exact held.prompted
    | accept connectedFd =>
      intro call member
      rcases List.mem_append.mp member with old | new
      · exact held.prompted call old
      · rw [List.mem_singleton.mp new]
        trivial
    | pass => exact held.prompted
    | scan received i f here found =>
      intro call member
      rcases serve_calls s i f received call member with old | fine | ⟨-, ready, rfl⟩
      · exact held.prompted call old
      · exact fine
      · rcases held.scanning i here i f (Nat.le_refl _) found with same | unseen
        · exact ⟨f, same, rfl, ready⟩
        · exact absurd (held.quiet i here i f (Nat.le_refl _) found unseen) ready
    | ends => exact held.prompted

/-- The scan has yet to reach an entry that it will read and `poll` has not
seen. -/
def Ahead (s : Server) : Prop :=
  ∃ i j f, s.stage = .scanning i ∧ i ≤ j ∧ s.clientFds[j]? = some f ∧ s.polled[j]? = none ∧
    f.fd ≠ -1 ∧ f.revents &&& wanted ≠ 0

theorem ahead_of_not_suits {e : Event} (held : Matching s) (changed : Change s e next)
    (unsuited : ¬ Suits s e) : Ahead next := by
  cases changed with
  | exit _ _ suited => exact absurd suited unsuited
  | accept connectedFd leftover here valid some =>
    have last : s.clientFds.length ≠ 0 := by simpa using some
    refine ⟨1, s.clientFds.length, _, rfl, by omega, List.getElem?_concat_length, ?_, ?_, ?_⟩
    · rw [← held.accepting here]
      exact List.getElem?_eq_none (Nat.le_refl _)
    · dsimp only
      omega
    · intro none
      exact unsuited fun _ => none
  | poll | pass | scan | ends => exact absurd trivial unsuited

/-- The scan goes on to that entry and reads it. -/
theorem ahead_step {e : Event} (ahead : Ahead s) (changed : Change s e next)
    (prompted : Prompted next) : Ahead next := by
  obtain ⟨i, j, f, stage, after, found, unseen, opened, ready⟩ := ahead
  cases changed with
  | poll _ _ _ here => simp [stage] at here
  | exit _ idle => exact absurd stage (idle i)
  | accept _ _ here => simp [stage] at here
  | pass here => simp [stage] at here
  | scan received k g here there =>
    obtain rfl : i = k := by simpa [stage] using here
    by_cases reached : i = j
    · subst reached
      obtain rfl : f = g := Option.some.inj (found.symm.trans there)
      obtain ⟨polled, seen, -⟩ := prompted _ (serve_reads s i received opened ready)
      simp [unseen] at seen
    · refine ⟨i + 1, j, f, rfl, by omega, ?_, ?_, opened, ready⟩
      · exact (serve_clientFds s g received reached).trans found
      · dsimp only
        rw [serve_polled, unseen]
  | ends _ k here none =>
    obtain rfl : i = k := by simpa [stage] using here
    have short := List.getElem?_eq_none_iff.mp none
    have inside := (List.getElem?_eq_some_iff.mp found).1
    omega

/-- In every run of the server each read is of an entry that was polled in its
round and found readable, if no accepted connection finds one of the bits in
its `revents`. A run that does not end inside a scan has no other reads only
under that condition. -/
theorem reads_prompted {sockFd : Int} {events : List Event} {final : Server}
    (ran : run step (start sockFd) events = some final) :
    (Meets step Suits (start sockFd) events → Throughout step Prompted (start sockFd) events) ∧
    ((∀ i, final.stage ≠ .scanning i) → Throughout step Prompted (start sockFd) events →
      Meets step Suits (start sockFd) events) := by
  constructor
  · intro met
    have kept : ∀ s e next, Kept s → Suits s e → step s e = some next → Kept next :=
      fun s e next held suited stepped => kept_step held suited (step_change stepped)
    exact (throughout_of_run kept (kept_start sockFd) ran met).mono fun s held => held.prompted
  · intro settled held
    have kept : ∀ s e next, Matching s → step s e = some next → Matching next :=
      fun s e next held stepped => matching_step held (step_change stepped)
    have clear : ¬ Ahead final := by
      rintro ⟨i, _, _, stage, _⟩
      exact settled i stage
    refine meets_of_settled kept ?_ ?_ (matching_start sockFd) ran held clear
    · intro s e next held stepped unsuited _
      exact ahead_of_not_suits held (step_change stepped) unsuited
    · intro s e next _ ahead stepped prompted
      exact ahead_step ahead (step_change stepped) prompted

/-- A client is accepted, echoed and closed while a second one is accepted. -/
theorem reads_prompted_echoing :
    Throughout step Prompted (start 3) [.poll [0], .poll [POLLRDNORM], .accept 4 POLLOUT,
      .scan none, .scan none, .poll [0, POLLRDNORM], .pass, .scan (some [104, 105]), .scan none,
      .poll [POLLRDNORM, POLLRDNORM], .accept 5 0, .scan (some []), .scan none, .scan none] :=
  (reads_prompted rfl).1 (by decide)

/-- The leftover of a new connection happens to have `POLLRDNORM`: it is read
in the round that has accepted it. -/
theorem accepted_connection_read :
    (run step (start 3) [.poll [POLLRDNORM], .accept 4 POLLRDNORM, .scan (some [])]).map
        (fun s => s.calls) =
          some [.accept 4, .read 1 4 [⟨3, POLLRDNORM, POLLRDNORM⟩], .close 4] ∧
      ¬ Throughout step Prompted (start 3)
        [.poll [POLLRDNORM], .accept 4 POLLRDNORM, .scan (some [])] := by
  decide

end ExNetlink.EchoServer
