import Mathlib.Data.List.Basic
import Mathlib.Tactic.Common

/-! The reactor of `set/rtt/Poll.h` and the sockets it watches (`Fd.h`,
`Socket.h`).

A socket object is named by a reference, its identity in memory; its `id` is
the descriptor number it wraps, which two objects may share. `Poll` keeps the
array `fds_` it hands to `poll(2)` and the map `fdtbs_` from descriptor numbers
to owning pointers. The sockets modelled here were built on one `Poll` that is
still alive, so `reactor_.lock()` yields it. -/
namespace ExNetlink.Reactor

/-- `socket_model`. -/
inductive SocketModel where
  | listenShared
  | listenExcluse
  | normal
  deriving DecidableEq, Repr

/-- The members of `Fd` and `Socket` that registration reads. -/
structure Socket where
  id : Int
  model : SocketModel
  readenable : Bool := false
  writeenable : Bool := false
  errorenable : Bool := false
  deriving DecidableEq, Repr

namespace Socket

def setReadenable (s : Socket) : Socket := { s with readenable := true }
def setReaddisable (s : Socket) : Socket := { s with readenable := false }
def setWriteenable (s : Socket) : Socket := { s with writeenable := true }
def setWritedisable (s : Socket) : Socket := { s with writeenable := false }
def setErrorenable (s : Socket) : Socket := { s with errorenable := true }
def setErrordisable (s : Socket) : Socket := { s with errorenable := false }

end Socket

/-- Which of the six flag setters of `Fd` is called. -/
inductive Setter where
  | readenable | readdisable | writeenable | writedisable | errorenable | errordisable
  deriving DecidableEq, Repr

/-- The assignment a setter makes before it calls `update()`. -/
def Setter.assign : Setter → Socket → Socket
  | .readenable => Socket.setReadenable
  | .readdisable => Socket.setReaddisable
  | .writeenable => Socket.setWriteenable
  | .writedisable => Socket.setWritedisable
  | .errorenable => Socket.setErrorenable
  | .errordisable => Socket.setErrordisable

/-- A socket object. -/
abbrev SocketRef := Nat

def POLLIN : BitVec 16 := 0x001#16
def POLLOUT : BitVec 16 := 0x004#16
def POLLERR : BitVec 16 := 0x008#16

/-- The event mask `add` and `update` compute from a socket's flags. -/
def Socket.mask (s : Socket) : BitVec 16 :=
  let event := 0#16
  let event := if s.readenable then event ||| POLLIN else event
  let event := if s.writeenable then event ||| POLLOUT else event
  if s.errorenable then event ||| POLLERR else event

/-- `Fd::responsable`. -/
def Socket.responsable (s : Socket) : Bool := s.readenable || s.writeenable || s.errorenable

/-- The arguments of a call of `event_handler_`. -/
structure Handled where
  socket : SocketRef
  readable : Bool
  writeable : Bool
  errorable : Bool
  deriving DecidableEq, Repr

/-- `struct pollfd`. -/
structure PollFd where
  fd : Int
  events : BitVec 16
  revents : BitVec 16 := 0
  deriving DecidableEq, Repr

/-- `fds_` and `fdtbs_`. -/
structure Poll where
  fds : List PollFd
  fdtbs : Int → Option SocketRef

/-- The elements with the first match replaced, as through the iterator that
`std::find_if` returns. -/
def updateFirst (wanted : α → Bool) (change : α → α) : List α → List α
  | [] => []
  | x :: rest => if wanted x then change x :: rest else x :: updateFirst wanted change rest

namespace Poll

def contains (poll : Poll) (id : Int) : Bool := (poll.fdtbs id).isSome

/-- `Poll::add`. `owner` is what `shared_from_this()` yields. A socket that is
not shared returns early when its descriptor is known; otherwise a known
descriptor's entry is refreshed and a new entry is pushed all the same. -/
def add (poll : Poll) (socket : Socket) (owner : SocketRef) : Poll :=
  let known := match socket.model with
    | .listenShared => false
    | .listenExcluse | .normal => poll.contains socket.id
  if known then poll
  else
    let fdtbs := if poll.contains socket.id then poll.fdtbs
      else Function.update poll.fdtbs socket.id (some owner)
    let event := socket.mask
    let fds := updateFirst (fun entry => entry.fd == socket.id)
      (fun entry => { entry with fd := socket.id, events := event }) poll.fds
    { fds := fds ++ [{ fd := socket.id, events := event }], fdtbs := fdtbs }

/-- `Poll::remove`. -/
def remove (poll : Poll) (socket : Socket) : Poll :=
  if poll.contains socket.id then
    let kept := poll.fds.filter fun entry => !(socket.id == entry.fd)
    { fds := if (kept.length : Int) - poll.fds.length ≠ 0 then kept else poll.fds
      fdtbs := Function.update poll.fdtbs socket.id none }
  else poll

/-- `Poll::update`. -/
def update (poll : Poll) (socket : Socket) : Poll :=
  { poll with
    fds := updateFirst (fun entry => socket.id == entry.fd)
      (fun entry => { entry with events := socket.mask }) poll.fds }

/-- The body of the loop of `Poll::event_handler` past the test of `num`: the
call of `event_handler_` it makes for an entry of the snapshot, if any. -/
def dispatch (poll : Poll) (sockets : SocketRef → Socket) (f : PollFd) : Option Handled :=
  if f.fd ≠ -1 then
    match poll.fdtbs f.fd with
    | some socket =>
      if (sockets socket).responsable then
        some {
          socket := socket
          readable := f.revents &&& POLLIN != 0
          writeable := f.revents &&& POLLOUT != 0
          errorable := f.revents &&& POLLERR != 0 }
      else none
    | none => none
  else none

end Poll
end ExNetlink.Reactor
