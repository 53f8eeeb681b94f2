import ExNetlink.Reactor
import ExNetlink.Runs
import ExNetlink.Slots

/-! The serving process of `set/unixsocket/main.cpp`.

`child_process` receives descriptors over a channel and serves what is on them:
it reads, answers once, and closes. It polls the channel and all connections,
and scans the connections from the front until `answer_num` is used up. A
`poll` that fails is reported, and the round goes on with the `revents` of the
round before.

Every descriptor goes through the same few phases, whatever becomes of the
others, and the scan stops early only when there is nothing left to serve, so
every round serves all that `poll` has reported. -/
namespace ExNetlink.FdServing
open Reactor Runs Slots

/-- The result of `read` on a connection. -/
inductive Read where
  /-- It fails, and not with `EINTR`. -/
  | failed
  | interrupted
  | closed
  | message (buf : List UInt8)
  deriving DecidableEq, Repr

/-- A system call on a connection. -/
inductive Call where
  /-- `recv_fd` has returned the descriptor. -/
  | received
  | read
  /-- The answer is written. -/
  | write
  | close
  deriving DecidableEq, Repr

/-- How far a round is. -/
inductive Stage where
  | polling
  /-- At the test of the channel, with `answer_num`. -/
  | receiving (answerNum : Int)
  /-- At entry `i` of the scan, with `answer_num`. -/
  | scanning (i : Nat) (answerNum : Int)
  | exited
  deriving DecidableEq, Repr

/-- `pollfds[0]`, the other entries of `pollfds`, and the calls made on the
connections. -/
structure Child where
  channel : BitVec 16
  connections : List PollFd
  stage : Stage
  calls : List (Int × Call)
  deriving DecidableEq, Repr

inductive Event where
  /-- `poll` returns with these `revents`. -/
  | poll (channel : BitVec 16) (revents : List (BitVec 16))
  | pollFails
  /-- `recv_fd`, which exits when it receives no descriptor. -/
  | recvFd (fd : Option Nat)
  /-- There is nothing on the channel. -/
  | pass
  /-- One iteration of the scan; `result` is what a `read` gives there. -/
  | scan (result : Read)
  deriving DecidableEq, Repr

/-- `fd` is closed and its entry no longer used. -/
def shut (f : PollFd) : PollFd := { f with fd := -1, revents := 0 }

/-- The branch for `POLLOUT`, after `calls`. -/
def respond (f : PollFd) (calls : List Call) : PollFd × List Call :=
  if f.revents &&& POLLOUT ≠ 0 then ({ f with fd := -1 }, calls ++ [.write, .close]) else (f, calls)

/-- An entry for which poll has reported something that is waited for. -/
def Ready (f : PollFd) : Prop := f.fd ≠ -1 ∧ f.revents &&& (POLLIN ||| POLLOUT) ≠ 0

instance : DecidablePred Ready := fun f =>
  inferInstanceAs (Decidable (f.fd ≠ -1 ∧ f.revents &&& (POLLIN ||| POLLOUT) ≠ 0))

/-- One iteration of the scan past its test: the entry, the calls made, and
whether `answer_num` is decremented. -/
def serve (f : PollFd) (result : Read) : PollFd × List Call × Bool :=
  if Ready f then
    if f.revents &&& POLLIN ≠ 0 then
      match result with
      | .failed => (shut f, [.read, .close], false)
      | .closed => (shut f, [.read, .close], false)
      | .interrupted | .message _ =>
        let (f, calls) := respond { f with events := POLLOUT } [.read]
        (f, calls, true)
    else
      let (f, calls) := respond f []
      (f, calls, true)
  else (f, [], false)

/-- `poll` reports what was asked for, and nothing of a negative descriptor. -/
def Reportable (f : PollFd) (revents : BitVec 16) : Prop :=
  (f.fd < 0 → revents = 0) ∧ (revents &&& POLLIN ≠ 0 → f.events &&& POLLIN ≠ 0) ∧
    (revents &&& POLLOUT ≠ 0 → f.events &&& POLLOUT ≠ 0)

instance (f : PollFd) : DecidablePred (Reportable f) := fun revents =>
  inferInstanceAs (Decidable ((f.fd < 0 → revents = 0) ∧ _ ∧ _))

/-- The state after an event, for an event that can happen. A descriptor that
is received is none of those that are open. -/
def step (s : Child) : Event → Option Child
  | .poll channel revents =>
    if s.stage = .polling ∧ List.Forall₂ Reportable s.connections revents then
      some { s with
        channel := channel
        connections := s.connections.zipWith (fun f bits => { f with revents := bits }) revents
        stage := .receiving ((channel :: revents).countP (· ≠ 0)) }
    else none
  | .pollFails => if s.stage = .polling then some { s with stage := .receiving (-1) } else none
  | .recvFd fd =>
    match s.stage, fd with
    | .receiving answerNum, some fd =>
      if s.channel &&& POLLIN ≠ 0 ∧ ∀ f ∈ s.connections, f.fd ≠ fd then
        some { s with
          connections := s.connections ++ [{ fd := fd, events := POLLIN }]
          stage := .scanning 0 (answerNum - 1)
          calls := s.calls ++ [((fd : Int), .received)] }
      else none
    | .receiving _, none =>
      if s.channel &&& POLLIN ≠ 0 then some { s with stage := .exited } else none
    | _, _ => none
  | .pass =>
    match s.stage with
    | .receiving answerNum =>
      if s.channel &&& POLLIN = 0 then some { s with stage := .scanning 0 answerNum } else none
    | _ => none
  | .scan result =>
    match s.stage with
    | .scanning i answerNum =>
      match s.connections[i]? with
      | some f =>
        if answerNum = 0 then some { s with stage := .polling }
        else
          let (after, calls, counted) := serve f result
          some { s with
            connections := s.connections.set i after
            stage := .scanning (i + 1) (if counted then answerNum - 1 else answerNum)
            calls := s.calls ++ calls.map (f.fd, ·) }
      | none => some { s with stage := .polling }
    | _ => none

def start : Child where
  channel := 0
  connections := []
  stage := .polling
  calls := []

/-! ### The life of a connection -/

/-- What a connection has come to. -/
inductive Phase where
  | absent
  /-- Nothing has been read. -/
  | waiting
  /-- A message has been read, or a read was interrupted. -/
  | answering
  | answered
  deriving DecidableEq, Repr

/-- The calls that a phase admits. -/
def advance : Phase → Call → Option Phase
  | .absent, .received => some .waiting
  | .waiting, .read => some .answering
  | .answering, .read => some .answering
  | .answering, .write => some .answered
  | .answering, .close => some .absent
  | .answered, .close => some .absent
  | _, _ => none

/-- The descriptor of an entry that is in use. -/
def key (f : PollFd) : Option Int := if f.fd = -1 then none else some f.fd

def phase (f : PollFd) : Phase := if f.events = POLLIN then .waiting else .answering

/-- The table shows, for every descriptor, the phase that the calls on it have
led to. -/
def Followed (s : Child) : Prop := Tracks key phase advance .absent s.connections s.calls

/-- The two settings of an entry in use; it is only reported writable in the
second. -/
def Proper (f : PollFd) : Prop :=
  f.fd ≠ -1 → (f.events = POLLIN ∨ f.events = POLLOUT) ∧
    (f.revents &&& POLLOUT ≠ 0 → f.events = POLLOUT)

variable {s next : Child} {f : PollFd} {e : Event}

/-- A setting that asks for `POLLOUT` is the second one. -/
theorem eq_POLLOUT {events : BitVec 16} (setting : events = POLLIN ∨ events = POLLOUT)
    (asked : events &&& POLLOUT ≠ 0) : events = POLLOUT := by
  rcases setting with rfl | same
  · exact absurd (by decide) asked
  · exact same

/-- Where the calls of one iteration lead. -/
def Led (f after : PollFd) (calls : List Call) : Prop :=
  key after = some f.fd ∧ run advance (phase f) calls = some (phase after) ∨
    key after = none ∧ run advance (phase f) calls = some .absent

theorem phase_answering {f : PollFd} (setting : f.events = POLLOUT) : phase f = .answering := by
  rw [phase, setting]
  rfl

/-- A read is admitted as long as no answer has been given. -/
theorem run_read (f : PollFd) (calls : List Call) :
    run advance (phase f) (.read :: calls) = run advance .answering calls := by
  rw [phase]
  split <;> rfl

theorem respond_led (used : f.fd ≠ -1) (setting : f.revents &&& POLLOUT ≠ 0 → f.events = POLLOUT) :
    Led f (respond f []).1 (respond f []).2 := by
  rw [respond]
  split
  · rename_i writable
    refine .inr ⟨rfl, ?_⟩
    rw [phase_answering (setting writable)]
    rfl
  · exact .inl ⟨if_neg used, rfl⟩

/-- One iteration makes calls that the phase of its connection admits, and the
entry shows where they have led. -/
theorem serve_led (proper : Proper f) (used : f.fd ≠ -1) (result : Read) :
    Led f (serve f result).1 (serve f result).2.1 := by
  have dropped : Led f (shut f) [.read, .close] := .inr ⟨rfl, run_read f _⟩
  have asked : Led f (respond { f with events := POLLOUT } [.read]).1
      (respond { f with events := POLLOUT } [.read]).2 := by
    rw [respond]
    split
    · exact .inr ⟨rfl, run_read f _⟩
    · exact .inl ⟨if_neg used, run_read f _⟩
  unfold serve
  split
  · split
    · cases result with
      | failed => exact dropped
      | closed => exact dropped
      | interrupted => exact asked
      | message buf => exact asked
    · exact respond_led used (proper used).2
  · exact .inl ⟨if_neg used, rfl⟩

theorem respond_proper (proper : Proper f) (calls : List Call) : Proper (respond f calls).1 := by
  rw [respond]
  split
  · exact fun used => absurd rfl used
  · exact proper

theorem serve_proper (proper : Proper f) (result : Read) : Proper (serve f result).1 := by
  have closed : Proper (shut f) := fun used => absurd rfl used
  have asked : Proper { f with events := POLLOUT } := fun _ => ⟨.inr rfl, fun _ => rfl⟩
  unfold serve
  split
  · split
    · cases result with
      | failed => exact closed
      | closed => exact closed
      | interrupted => exact respond_proper asked _
      | message buf => exact respond_proper asked _
    · exact respond_proper proper _
  · exact proper

theorem serve_idle (idle : ¬ Ready f) (result : Read) : serve f result = (f, [], false) :=
  if_neg idle

/-! ### Runs -/

/-- Everything an event can do. -/
inductive Change (s : Child) : Event → Child → Prop
  | poll (channel : BitVec 16) (revents : List (BitVec 16)) (here : s.stage = .polling)
      (fits : List.Forall₂ Reportable s.connections revents) :
      Change s (.poll channel revents) { s with
        channel := channel
        connections := s.connections.zipWith (fun f bits => { f with revents := bits }) revents
        stage := .receiving ((channel :: revents).countP (· ≠ 0)) }
  | pollFails (here : s.stage = .polling) :
      Change s .pollFails { s with stage := .receiving (-1) }
  | recvFd (fd : Nat) (answerNum : Int) (here : s.stage = .receiving answerNum)
      (readable : s.channel &&& POLLIN ≠ 0) (fresh : ∀ f ∈ s.connections, f.fd ≠ fd) :
      Change s (.recvFd (some fd)) { s with
        connections := s.connections ++ [{ fd := fd, events := POLLIN }]
        stage := .scanning 0 (answerNum - 1)
        calls := s.calls ++ [((fd : Int), .received)] }
  | exit : Change s (.recvFd none) { s with stage := .exited }
  | pass (answerNum : Int) (here : s.stage = .receiving answerNum) :
      Change s .pass { s with stage := .scanning 0 answerNum }
  | scan (result : Read) (i : Nat) (answerNum : Int) (f : PollFd)
      (here : s.stage = .scanning i answerNum) (found : s.connections[i]? = some f) :
      Change s (.scan result) { s with
        connections := s.connections.set i (serve f result).1
        stage := .scanning (i + 1) (if (serve f result).2.2 then answerNum - 1 else answerNum)
        calls := s.calls ++ (serve f result).2.1.map (f.fd, ·) }
  | ends (result : Read) : Change s (.scan result) { s with stage := .polling }

theorem step_change (stepped : step s e = some next) : Change s e next := by
  cases e with
  | poll channel revents =>
    obtain ⟨⟨here, fits⟩, rfl⟩ := guarded_eq_some.mp stepped
    exact .poll channel revents here fits
  | pollFails =>
    obtain ⟨here, rfl⟩ := guarded_eq_some.mp stepped
    exact .pollFails here
  | recvFd fd =>
    unfold step at stepped
    dsimp only at stepped
    split at stepped
    · rename_i answerNum fd here
      obtain ⟨⟨readable, fresh⟩, rfl⟩ := guarded_eq_some.mp stepped
      exact .recvFd fd answerNum here readable fresh
    · obtain ⟨-, rfl⟩ := guarded_eq_some.mp stepped
      exact .exit
    · contradiction
  | pass =>
    rw [step] at stepped
    split at stepped
    · rename_i answerNum here
      obtain ⟨-, rfl⟩ := guarded_eq_some.mp stepped
      exact .pass answerNum here
    · contradiction
  | scan result =>
    rw [step] at stepped
    split at stepped
    · rename_i i answerNum here
      split at stepped
      · rename_i f found
        split at stepped
        · cases stepped
          exact .ends result
        · cases stepped
          exact .scan result i answerNum f here found
      · cases stepped
        exact .ends result
    · contradiction

/-- What carries the runs. -/
structure Kept (s : Child) : Prop where
  followed : Followed s
  proper : ∀ f ∈ s.connections, Proper f

/-- New `revents` change neither descriptors nor settings. -/
theorem zipWith_revents {connections : List PollFd} {revents : List (BitVec 16)}
    (fits : List.Forall₂ Reportable connections revents) :
    (connections.zipWith (fun f bits => { f with revents := bits }) revents).map
        (fun f => (key f, phase f)) = connections.map fun f => (key f, phase f) := by
  induction fits with
  | nil => rfl
  | cons head tail ih =>
    rw [List.zipWith_cons_cons, List.map_cons, List.map_cons, ih]
    rfl

theorem proper_revents {connections : List PollFd} {revents : List (BitVec 16)}
    (fits : List.Forall₂ Reportable connections revents) (proper : ∀ f ∈ connections, Proper f) :
    ∀ f ∈ connections.zipWith (fun f bits => { f with revents := bits }) revents, Proper f := by
  induction fits with
  | nil => simp
  | @cons f bits connections revents reportable fits ih =>
    intro g member
    rw [List.zipWith_cons_cons] at member
    rcases List.mem_cons.mp member with rfl | member
    · intro used
      have before := proper f (by simp) used
      exact ⟨before.1, fun writable => eq_POLLOUT before.1 (reportable.2.2 writable)⟩
    · exact ih (fun f member => proper f (by simp [member])) g member

theorem kept_step (kept : Kept s) (changed : Change s e next) : Kept next := by
  obtain ⟨followed, proper⟩ := kept
  cases changed with
  | poll channel revents here fits =>
    exact ⟨followed.congr (zipWith_revents fits), proper_revents fits proper⟩
  | pollFails => exact ⟨followed, proper⟩
  | recvFd fd answerNum here readable fresh =>
    constructor
    · have usable : key { fd := fd, events := POLLIN } = some (fd : Int) :=
        if_neg (by dsimp only; omega)
      have led : run advance .absent [.received] = some (phase { fd := fd, events := POLLIN }) := rfl
      refine followed.add usable (fun i f found same => ?_) led
      rw [key] at same
      split at same
      · cases same
      · exact fresh f (List.mem_of_getElem? found) (Option.some.inj same)
    · intro f member
      rcases List.mem_append.mp member with old | new
      · exact proper f old
      · obtain rfl := List.mem_singleton.mp new
        exact fun _ => ⟨.inl rfl, fun writable => absurd (show 0#16 &&& POLLOUT = 0 by decide) writable⟩
  | exit => exact ⟨followed, proper⟩
  | pass => exact ⟨followed, proper⟩
  | scan result i answerNum f here found =>
    have fine := proper f (List.mem_of_getElem? found)
    constructor
    · by_cases used : f.fd = -1
      · rw [serve_idle fun ready => ready.1 used]
        have same : s.connections.set i f = s.connections := by
          obtain ⟨inside, rfl⟩ := List.getElem?_eq_some_iff.mp found
          exact List.set_getElem_self inside
        simpa only [Followed, same, List.map_nil, List.append_nil] using followed
      · exact followed.change found (if_neg used) (serve_led fine used result)
    · intro g member
      rcases List.mem_or_eq_of_mem_set member with old | rfl
      · exact proper g old
      · exact serve_proper fine result
  | ends => exact ⟨followed, proper⟩

/-- In every run the calls on each descriptor are those of one connection after
another: received, read, answered at most once and only after a read, closed,
and not used again before it is received anew. -/
theorem connections_followed {events : List Event} {final : Child}
    (ran : run step start events = some final) : Followed final := by
  have begun : Kept start := by
    refine ⟨⟨by simp [Distinct, start], fun k => ⟨.absent, rfl, .inr ⟨by simp [start], rfl⟩⟩⟩, ?_⟩
    simp [start]
  exact (run_keeps (fun s e next kept stepped => kept_step kept (step_change stepped)) begun ran).followed

/-- A descriptor is received, read, answered and closed, and so is another that
gets its number; the `poll` in between fails. -/
def servedEvents : List Event :=
  [.poll POLLIN [], .recvFd (some 5), .scan .failed,
    .poll 0 [POLLIN], .pass, .scan (.message [71]), .scan .failed,
    .pollFails, .pass, .scan .interrupted, .scan .failed,
    .poll 0 [POLLOUT], .pass, .scan .failed, .scan .failed,
    .poll POLLIN [0], .recvFd (some 5), .scan .failed]

theorem connections_followed_served :
    ∃ final, run step start servedEvents = some final ∧ Followed final := by
  obtain ⟨final, ran⟩ := Option.isSome_iff_exists.mp
    (show (run step start servedEvents).isSome by decide)
  exact ⟨final, ran, connections_followed ran⟩

/-! ### The early end of the scan -/

/-- The entries for which poll has reported anything. -/
def reported (connections : List PollFd) : Nat := connections.countP (·.revents ≠ 0)

/-- `answer_num` is at least what is left to scan, unless `poll` has failed. -/
def Counted (s : Child) : Prop :=
  match s.stage with
  | .receiving answerNum =>
    answerNum < 0 ∨ ((if s.channel = 0 then 0 else 1) + reported s.connections : Nat) ≤ answerNum
  | .scanning i answerNum => answerNum < 0 ∨ reported (s.connections.drop i) ≤ answerNum
  | _ => True

theorem Counted.receiving (counted : Counted s) {answerNum : Int}
    (here : s.stage = .receiving answerNum) : answerNum < 0 ∨
      ((if s.channel = 0 then 0 else 1) + reported s.connections : Nat) ≤ answerNum := by
  simpa only [Counted, here] using counted

theorem Counted.scanning (counted : Counted s) {i : Nat} {answerNum : Int}
    (here : s.stage = .scanning i answerNum) :
    answerNum < 0 ∨ reported (s.connections.drop i) ≤ answerNum := by
  simpa only [Counted, here] using counted

theorem reported_revents {connections : List PollFd} {revents : List (BitVec 16)}
    (fits : List.Forall₂ Reportable connections revents) :
    reported (connections.zipWith (fun f bits => { f with revents := bits }) revents) =
      revents.countP (· ≠ 0) := by
  induction fits with
  | nil => rfl
  | cons head tail ih =>
    rw [reported] at ih ⊢
    rw [List.zipWith_cons_cons, List.countP_cons, List.countP_cons, ih]

/-- An entry for which nothing was reported is not ready. -/
theorem not_ready_of_silent (silent : f.revents = 0) : ¬ Ready f := by
  rintro ⟨-, bits⟩
  rw [silent] at bits
  exact bits (by decide)

theorem counted_step (counted : Counted s) (changed : Change s e next) : Counted next := by
  cases changed with
  | poll channel revents here fits =>
    refine .inr ?_
    rw [reported_revents fits, List.countP_cons]
    by_cases quiet : channel = 0
    · simp [quiet]
    · simp only [quiet, if_false, ne_eq, not_false_eq_true, decide_true, if_true]
      omega
  | pollFails => exact .inl (by decide)
  | recvFd fd answerNum here readable fresh =>
    have told : s.channel ≠ 0 := by
      intro quiet
      rw [quiet] at readable
      exact readable (by decide)
    have before := counted.receiving here
    rw [if_neg told] at before
    have new : reported (s.connections ++ [{ fd := fd, events := POLLIN }]) =
        reported s.connections := by
      simp [reported]
    refine (?_ : answerNum - 1 < 0 ∨ (reported (List.drop 0 _) : Int) ≤ answerNum - 1)
    rw [List.drop_zero, new]
    omega
  | exit => trivial
  | pass answerNum here =>
    have before := counted.receiving here
    refine (?_ : answerNum < 0 ∨ (reported (s.connections.drop 0) : Int) ≤ answerNum)
    rw [List.drop_zero]
    omega
  | scan result i answerNum f here found =>
    have before := counted.scanning here
    obtain ⟨inside, rfl⟩ := List.getElem?_eq_some_iff.mp found
    have rest : (s.connections.set i (serve s.connections[i] result).1).drop (i + 1) =
        s.connections.drop (i + 1) := List.drop_set_of_lt (Nat.lt_succ_self i)
    unfold Counted
    dsimp only
    rw [rest]
    have here : reported (s.connections.drop i) = reported (s.connections.drop (i + 1)) +
        if s.connections[i].revents = 0 then 0 else 1 := by
      rw [List.drop_eq_getElem_cons inside, reported, List.countP_cons, reported]
      simp
    rw [here] at before
    by_cases silent : s.connections[i].revents = 0
    · rw [serve_idle (not_ready_of_silent silent)]
      rw [if_pos silent] at before
      exact before
    · rw [if_neg silent] at before
      split <;> omega
  | ends => trivial

theorem not_ready_of_reported {connections : List PollFd} (silent : reported connections = 0)
    (member : f ∈ connections) : ¬ Ready f := by
  have quiet := List.countP_eq_zero.mp silent f member
  simp only [ne_eq, decide_not, Bool.not_eq_true', decide_eq_false_iff_not, Decidable.not_not]
    at quiet
  exact not_ready_of_silent quiet

/-- The calls of a scan of `connections`, of which each gives its own result if
it is read. -/
def served (connections : List PollFd) (results : List Read) : List (Int × Call) :=
  (connections.zip results).flatMap fun (f, result) => (serve f result).2.1.map (f.fd, ·)

theorem respond_made {calls : List Call} (made : calls ≠ []) : (respond f calls).2 ≠ [] := by
  rw [respond]
  split
  · exact List.append_ne_nil_of_left_ne_nil made _
  · exact made

/-- A connection that is ready is read, or answered and closed. -/
theorem serve_ready (ready : Ready f) (result : Read) : (serve f result).2.1 ≠ [] := by
  unfold serve
  rw [if_pos ready]
  split
  · cases result with
    | failed => exact List.cons_ne_nil _ _
    | closed => exact List.cons_ne_nil _ _
    | interrupted => exact respond_made (List.cons_ne_nil _ _)
    | message buf => exact respond_made (List.cons_ne_nil _ _)
  · rename_i unreadable
    have writable : f.revents &&& POLLOUT ≠ 0 := by
      intro unwritable
      refine ready.2 ?_
      rw [BitVec.and_or_distrib_left, not_not.mp unreadable, unwritable]
      rfl
    rw [show respond f [] = _ from if_pos writable]
    exact List.cons_ne_nil _ _

/-- Nothing is done where nothing was reported. -/
theorem served_silent {connections : List PollFd} (silent : reported connections = 0)
    (results : List Read) : served connections results = [] := by
  rw [served, List.flatMap_eq_nil_iff]
  rintro ⟨f, result⟩ member
  have idle := serve_idle (not_ready_of_reported silent (List.of_mem_zip member).1) result
  simp only [idle, List.map_nil]

theorem served_ready {connections : List PollFd} {results : List Read}
    (whole : results.length = connections.length) (member : f ∈ connections) (ready : Ready f) :
    ∃ call, (f.fd, call) ∈ served connections results := by
  obtain ⟨j, inside, rfl⟩ := List.getElem_of_mem member
  have there : j < results.length := whole ▸ inside
  obtain ⟨call, made⟩ := List.exists_mem_of_ne_nil _ (serve_ready ready results[j])
  have paired : (connections[j], results[j]) ∈ connections.zip results :=
    List.mem_iff_getElem.mpr ⟨j, by rw [List.length_zip]; omega, by simp⟩
  exact ⟨call, List.mem_flatMap.mpr ⟨_, paired, List.mem_map.mpr ⟨call, made, rfl⟩⟩⟩

/-- A scan that has come to its end is over. -/
theorem scan_over {round : List Read} {later : Child} (past : s.stage = .polling)
    (ran : run step s (round.map .scan) = some later) : later = s := by
  cases round with
  | nil => exact (Option.some.inj ran).symm
  | cons result rest =>
    obtain ⟨next, stepped, -⟩ := run_cons_some.mp ran
    rw [step, past] at stepped
    contradiction

/-- Wherever the scan breaks off, it has done what it would have done to its end. -/
theorem scan_serves {round : List Read} {later : Child} {i : Nat} {answerNum : Int}
    (here : s.stage = .scanning i answerNum) (counted : Counted s)
    (ran : run step s (round.map .scan) = some later) (ended : later.stage = .polling) :
    ∃ results, results.length = (s.connections.drop i).length ∧
      later.calls = s.calls ++ served (s.connections.drop i) results := by
  induction round generalizing s i answerNum with
  | nil =>
    obtain rfl := Option.some.inj ran
    rw [here] at ended
    contradiction
  | cons result rest ih =>
    obtain ⟨next, stepped, ran⟩ := run_cons_some.mp ran
    have following := counted_step counted (step_change stepped)
    simp only [step, here] at stepped
    split at stepped
    · rename_i f found
      obtain ⟨inside, rfl⟩ := List.getElem?_eq_some_iff.mp found
      split at stepped
      · rename_i exhausted
        obtain rfl := Option.some.inj stepped
        obtain rfl := scan_over rfl ran
        have silent : reported (s.connections.drop i) = 0 := by
          have before := counted.scanning here
          omega
        refine ⟨List.replicate (s.connections.drop i).length .failed, List.length_replicate, ?_⟩
        rw [served_silent silent, List.append_nil]
      · obtain rfl := Option.some.inj stepped
        obtain ⟨results, whole, calls⟩ := ih rfl following ran
        have rest : (s.connections.set i (serve s.connections[i] result).1).drop (i + 1) =
            s.connections.drop (i + 1) := List.drop_set_of_lt (Nat.lt_succ_self i)
        dsimp only at whole calls
        rw [rest] at whole calls
        rw [List.drop_eq_getElem_cons inside]
        refine ⟨result :: results, by rw [List.length_cons, List.length_cons, whole], ?_⟩
        rw [calls, List.append_assoc]
        rfl
    · rename_i missing
      obtain rfl := Option.some.inj stepped
      obtain rfl := scan_over rfl ran
      rw [List.drop_eq_nil_of_le (List.getElem?_eq_none_iff.mp missing)]
      exact ⟨[], rfl, (List.append_nil _).symm⟩

/-- In every run the scan breaks off only when no connection from there on is
ready. So a round does to the connections what a scan of all of them does, and
each that `poll` has reported is served in it. -/
theorem scan_breaks_off_done {events : List Event} {final : Child}
    (ran : run step start events = some final) :
    (∀ i j f, final.stage = .scanning i 0 → i ≤ j → final.connections[j]? = some f → ¬ Ready f) ∧
      ∀ answerNum (round : List Read) later, final.stage = .scanning 0 answerNum →
        run step final (round.map .scan) = some later → later.stage = .polling →
        ∃ results, results.length = final.connections.length ∧
          later.calls = final.calls ++ served final.connections results ∧
          ∀ f ∈ final.connections, Ready f →
            ∃ call, (f.fd, call) ∈ served final.connections results := by
  have begun : Counted start := trivial
  have counted := run_keeps
    (fun s e next counted stepped => counted_step counted (step_change stepped)) begun ran
  refine ⟨fun i j f here later found => ?_, fun answerNum round later here scanned ended => ?_⟩
  · have nothing : reported (final.connections.drop i) = 0 := by
      have before := counted.scanning here
      omega
    intro ready
    have member : f ∈ final.connections.drop i := by
      obtain ⟨skipped, rfl⟩ := Nat.exists_eq_add_of_le later
      refine List.mem_of_getElem? (i := skipped) ?_
      rw [List.getElem?_drop, found]
    exact not_ready_of_reported nothing member ready
  · obtain ⟨results, whole, calls⟩ := scan_serves here counted scanned ended
    rw [List.drop_zero] at whole calls
    exact ⟨results, whole, calls, fun f member ready => served_ready whole member ready⟩

/-- Two connections, of which only the first has anything to say. -/
def secondSilent : List Event :=
  [.poll POLLIN [], .recvFd (some 5), .scan .failed, .poll POLLIN [0], .recvFd (some 6),
    .scan .failed, .poll 0 [POLLIN, 0], .pass]

theorem scan_breaks_off_second :
    (∃ final f, run step start (secondSilent ++ [.scan (.message [71])]) = some final ∧
      final.connections[1]? = some f ∧ ¬ Ready f) ∧
    ∃ final later results, run step start secondSilent = some final ∧
      run step final ([.message [71], .failed].map .scan) = some later ∧
      later.calls = final.calls ++ served final.connections results ∧
      ∃ call, (5, call) ∈ served final.connections results := by
  constructor
  · obtain ⟨final, ran, shape⟩ := Option.map_eq_some_iff.mp
      (show (run step start (secondSilent ++ [.scan (.message [71])])).map
          (fun s => (s.stage, s.connections[1]?)) =
        some (.scanning 1 0, some { fd := 6, events := POLLIN }) by decide)
    obtain ⟨here, found⟩ := Prod.mk.inj shape
    exact ⟨final, _, ran, found, (scan_breaks_off_done ran).1 1 1 _ here (Nat.le_refl 1) found⟩
  · obtain ⟨final, ran, shape⟩ := Option.map_eq_some_iff.mp
      (show (run step start secondSilent).map (fun s =>
          (s.stage, s.connections, (run step s ([.message [71], .failed].map .scan)).map (·.stage))) =
        some (.scanning 0 1, [{ fd := 5, events := POLLIN, revents := POLLIN },
          { fd := 6, events := POLLIN }], some .polling) by decide)
    obtain ⟨here, shape⟩ := Prod.mk.inj shape
    obtain ⟨connections, shape⟩ := Prod.mk.inj shape
    obtain ⟨later, scanned, ended⟩ := Option.map_eq_some_iff.mp shape
    obtain ⟨results, -, calls, all⟩ :=
      (scan_breaks_off_done ran).2 1 [.message [71], .failed] later here scanned ended
    refine ⟨final, later, results, ran, scanned, calls, ?_⟩
    exact all { fd := 5, events := POLLIN, revents := POLLIN } (by simp [connections]) (by decide)

end ExNetlink.FdServing
