import ExNetlink.Reactor
import ExNetlink.Runs

/-! The front process of `set/unixsocket/main.cpp`.

`parent_process` accepts connections and passes their descriptors to the
process that serves them. One variable, `async_fd`, holds the descriptor that
is waiting for the channel. It is filled in the first branch of a round and
emptied in the last, and the channel's `POLLOUT` is asked for only from the
next round on. -/
namespace ExNetlink.FdPassing
open Reactor Runs

/-- The variables of `parent_process`, with what it has accepted and passed. -/
structure Parent where
  asyncFd : Int
  /-- `pollfds[1].events`. -/
  events : BitVec 16
  /-- The descriptors `accept` returned. -/
  accepted : List Int
  /-- The descriptors given to `send_fd`. -/
  sent : List Int
  /-- `send_fd` has called `exit`. -/
  exited : Bool
  deriving DecidableEq, Repr

/-- What the system answers in one round of the loop. -/
inductive Round where
  /-- `poll(2)` fails. -/
  | failed
  /-- `connecting` and `writable` tell whether the listening socket has a
  connection and the channel has room, `answer` is the result of `accept`, and
  `delivered` tells whether `sendmsg` passes the descriptor on. -/
  | polled (connecting : Bool) (answer : Option Nat) (writable : Bool) (delivered : Bool)
  deriving DecidableEq, Repr

/-- The result of `accept`: a descriptor, or −1. -/
def result : Option Nat → Int
  | some fd => fd
  | none => -1

namespace Parent

/-- The branch for a connection on the listening socket. -/
def accept (s : Parent) (answer : Option Nat) : Parent :=
  { s with
    asyncFd := result answer
    events := POLLOUT ||| POLLIN
    accepted := s.accepted ++ answer.toList.map Int.ofNat }

/-- `send_fd`, which exits when `sendmsg` does not send its one byte. -/
def sendFd (s : Parent) (fd : Int) (delivered : Bool) : Parent :=
  { s with sent := s.sent ++ [fd], exited := !delivered }

/-- The branch for room on the channel. -/
def pass (s : Parent) (delivered : Bool) : Parent :=
  if s.asyncFd ≠ -1 then
    let s := s.sendFd s.asyncFd delivered
    if s.exited then s else { s with events := POLLIN, asyncFd := -1 }
  else { s with asyncFd := -1 }

/-- `revents` of the channel, as far as `POLLOUT` goes: only what is asked for. -/
def revents (s : Parent) (writable : Bool) : BitVec 16 := if writable then s.events &&& POLLOUT else 0

/-- The descriptor that is waiting, if any; none is once the process has ended. -/
def pending (s : Parent) : List Int := if s.exited ∨ s.asyncFd = -1 then [] else [s.asyncFd]

end Parent

/-- One round of the loop of `parent_process`. -/
def step (s : Parent) : Round → Option Parent
  | .failed => if s.exited = false then some s else none
  | .polled connecting answer writable delivered =>
    if s.exited = false then
      let revents := s.revents writable
      let s := if connecting then s.accept answer else s
      some (if revents &&& POLLOUT ≠ 0 then s.pass delivered else s)
    else none

def start : Parent where
  asyncFd := -1
  events := POLLIN
  accepted := []
  sent := []
  exited := false

/-- Every accepted descriptor has been passed on, in order, but for the one that is waiting. -/
def HandedOver (s : Parent) : Prop := s.sent ++ s.pending = s.accepted

/-- No connection is accepted while a descriptor is waiting. -/
def Suits (s : Parent) : Round → Prop
  | .failed => True
  | .polled connecting _ _ _ => connecting = true → s.asyncFd = -1

instance (s : Parent) : DecidablePred (Suits s)
  | .failed => isTrue trivial
  | .polled connecting _ _ _ => inferInstanceAs (Decidable (connecting = true → s.asyncFd = -1))

instance : DecidablePred HandedOver := fun s =>
  inferInstanceAs (Decidable (s.sent ++ s.pending = s.accepted))

/-! ### The two branches -/

variable {s next : Parent} {answer : Option Nat} {delivered : Bool}

/-- `accept` has failed exactly when its result is −1. -/
theorem answer_eq_result :
    answer.toList.map Int.ofNat = if result answer = -1 then [] else [result answer] := by
  cases answer with
  | none => rfl
  | some fd =>
    have valid : (fd : Int) ≠ -1 := by omega
    simp [result, valid]

/-- What a round accepts waits, whatever was waiting before. -/
theorem accept_pending (running : s.exited = false) :
    (s.accept answer).pending = answer.toList.map Int.ofNat := by
  rw [answer_eq_result]
  simp [Parent.pending, Parent.accept, running]

/-- Room on the channel moves the waiting descriptor over. -/
theorem pass_line (running : s.exited = false) :
    (s.pass delivered).sent ++ (s.pass delivered).pending = s.sent ++ s.pending := by
  by_cases waiting : s.asyncFd = -1
  · simp [Parent.pass, Parent.pending, waiting]
  · cases delivered with
    | false => simp [Parent.pass, Parent.sendFd, Parent.pending, waiting, running]
    | true => simp [Parent.pass, Parent.sendFd, Parent.pending, waiting, running]

theorem pass_accepted : (s.pass delivered).accepted = s.accepted := by
  unfold Parent.pass Parent.sendFd
  split
  · dsimp only
    split <;> rfl
  · rfl

/-- What a round does to the line of descriptors: a connection replaces the one
that was waiting. -/
theorem step_line {connecting writable : Bool}
    (stepped : step s (.polled connecting answer writable delivered) = some next) :
    s.exited = false ∧
      next.accepted = s.accepted ++ (if connecting then answer.toList.map Int.ofNat else []) ∧
      next.sent ++ next.pending =
        s.sent ++ (if connecting then answer.toList.map Int.ofNat else s.pending) := by
  obtain ⟨running, rfl⟩ := guarded_eq_some.mp stepped
  refine ⟨running, ?_⟩
  cases connecting with
  | false =>
    simp only [Bool.false_eq_true, if_false, List.append_nil]
    split
    · exact ⟨pass_accepted, pass_line running⟩
    · exact ⟨rfl, rfl⟩
  | true =>
    simp only [if_true]
    have kept : (s.accept answer).exited = false := running
    split
    · exact ⟨pass_accepted, (pass_line kept).trans (by rw [accept_pending running]; rfl)⟩
    · exact ⟨rfl, by rw [accept_pending running]; rfl⟩

/-- One round keeps the line exactly when it suits the state. -/
theorem handed_over_step_iff {round : Round} (held : HandedOver s)
    (stepped : step s round = some next) : HandedOver next ↔ Suits s round := by
  cases round with
  | failed =>
    obtain ⟨-, rfl⟩ := guarded_eq_some.mp stepped
    exact iff_of_true held trivial
  | polled connecting answer writable delivered =>
    obtain ⟨running, accepted, line⟩ := step_line stepped
    unfold HandedOver at held ⊢
    rw [accepted, line, ← held]
    cases connecting with
    | false => simp [Suits]
    | true =>
      by_cases waiting : s.asyncFd = -1
      · simp [Suits, Parent.pending, waiting]
      · simp [Suits, Parent.pending, waiting, running]

/-- Over every sequence of rounds: the descriptors passed to `send_fd`, followed
by the one that is waiting, are the accepted ones in order, exactly when no
round finds a connection while a descriptor is waiting. -/
theorem handed_over_iff {rounds : List Round} {final : Parent}
    (ran : run step start rounds = some final) :
    Throughout step HandedOver start rounds ↔ Meets step Suits start rounds := by
  refine throughout_iff_meets_of_run ?_ ?_ (fun _ held => held) rfl ran
  · intro s round next held suited stepped
    exact (handed_over_step_iff held stepped).mpr suited
  · intro s round next held stepped kept
    exact (handed_over_step_iff held stepped).mp kept

/-- Two connections with a free round between them, and a failing `accept`. -/
theorem handed_over_spaced :
    Throughout step HandedOver start [.polled true (some 5) true true, .polled false none true true,
      .failed, .polled true none false true, .polled true (some 6) true true] :=
  (handed_over_iff rfl).mpr (by decide)

/-- Connections in two adjacent rounds: the first descriptor is overwritten. -/
theorem adjacent_connections_lose_one :
    (run step start [.polled true (some 5) true true, .polled true (some 6) true true]).map
        (fun s => (s.accepted, s.sent, s.pending)) = some ([5, 6], [6], []) ∧
      ¬ Throughout step HandedOver start
        [.polled true (some 5) true true, .polled true (some 6) true true] := by
  decide

end ExNetlink.FdPassing
