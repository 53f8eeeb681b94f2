import Mathlib.Algebra.Group.Nat.Defs
import Mathlib.Data.List.Basic
import Mathlib.Tactic.Common

/-! The socket operations of `set/rtt/Sockops.h`: `setSocketNotBlock`, `close`
and `connectAsync`.

A system call does what the kernel decides, so its result is an argument; what
the process keeps between two calls is `errno`, which only a failing call sets,
and what it can be asked about afterwards is the sequence of calls it made. The
descriptor is the one `connectAsync` is given. -/
namespace ExNetlink.Sockops

/-- An error number. No failing call sets `errno` to zero. -/
structure Errno where
  code : Int
  positive : 0 < code
  deriving DecidableEq, Repr

def EAGAIN : Errno := ⟨11, by decide⟩
def ETIMEDOUT : Errno := ⟨110, by decide⟩
def EINPROGRESS : Errno := ⟨115, by decide⟩

def O_NONBLOCK : Nat := 2 ^ 11

inductive Category where
  | generic
  | system
  deriving DecidableEq, Repr

/-- `std::error_condition`. -/
structure Condition where
  value : Int
  category : Category
  deriving DecidableEq, Repr

/-- `std::error_condition{}`. -/
def Condition.success : Condition := ⟨0, .generic⟩

/-- `std::make_error_condition(std::errc::timed_out)`. -/
def Condition.timedOut : Condition := ⟨ETIMEDOUT.code, .generic⟩

/-- What a call returns that either succeeds or fails. -/
inductive Result where
  | done
  | failed (errno : Errno)
  deriving DecidableEq, Repr

/-- What `select` on a set of one descriptor returns: the set holds the
descriptor afterwards exactly when it is counted. -/
inductive Select where
  | failed (errno : Errno)
  | expired
  | ready
  deriving DecidableEq, Repr

/-- The return value of `select`. -/
def Select.ret : Select → Int
  | .failed _ => -1
  | .expired => 0
  | .ready => 1

/-- `FD_ISSET` of the descriptor after `select`. -/
def Select.isSet : Select → Bool
  | .ready => true
  | _ => false

/-- What `getsockopt` for `SO_ERROR` returns. -/
inductive Getsockopt where
  | failed (errno : Errno)
  | reported (error : Int)
  deriving DecidableEq, Repr

/-- The results of the system calls of one `connectAsync`, those of the
repeated `connect` in their order. -/
structure Results where
  getfl : Result
  setfl : Result
  connects : List Result
  select : Select
  getsockopt : Getsockopt
  close : Result

/-- A system call that was made, `connect` with the status flags the
descriptor had then. -/
inductive Call where
  | getfl
  | setfl
  | connect (flags : Nat)
  | select
  | getsockopt
  | close
  deriving DecidableEq, Repr

/-- `errno`, the file status flags of the descriptor, and the calls made. -/
structure Process where
  errno : Int
  flags : Nat
  calls : List Call
  deriving DecidableEq, Repr

namespace Process

def issue (p : Process) (call : Call) : Process := { p with calls := p.calls ++ [call] }

def fail (p : Process) (errno : Errno) : Process := { p with errno := errno.code }

/-- `fcntl(fd, F_GETFL, 0)` and its return value. -/
def getfl (p : Process) : Result → Process × Int
  | .done => (p.issue .getfl, p.flags)
  | .failed errno => ((p.issue .getfl).fail errno, -1)

/-- `fcntl(fd, F_SETFL, flag)` and its return value. -/
def setfl (p : Process) (flag : Nat) : Result → Process × Int
  | .done => ({ p.issue .setfl with flags := flag }, 0)
  | .failed errno => ((p.issue .setfl).fail errno, -1)

/-- `select` and its return value. -/
def select (p : Process) : Select → Process × Int
  | .failed errno => ((p.issue .select).fail errno, Select.ret (.failed errno))
  | result => (p.issue .select, result.ret)

/-- `getsockopt`, its return value and the error it stores; it stores none when
it fails, and none is read then. -/
def getsockopt (p : Process) : Getsockopt → Process × Int × Int
  | .failed errno => ((p.issue .getsockopt).fail errno, -1, 0)
  | .reported error => (p.issue .getsockopt, 0, error)

/-- `net::close`, whose result `connectAsync` does not use. -/
def close (p : Process) : Result → Process
  | .done => p.issue .close
  | .failed errno => (p.issue .close).fail errno

/-- `{errno, std::system_category()}`. -/
def lastError (p : Process) : Condition := ⟨p.errno, .system⟩

end Process

/-- `setSocketNotBlock`. -/
def setSocketNotBlock (p : Process) (r : Results) : Process × Condition :=
  let (p, flag) := p.getfl r.getfl
  if flag ≥ 0 then
    if flag.toNat ||| O_NONBLOCK ≠ 0 then (p, .success)
    else
      let flag := flag.toNat ||| O_NONBLOCK
      let (p, e) := p.setfl flag r.setfl
      if e < 0 then (p, p.lastError) else (p, .success)
  else (p, p.lastError)

/-- How the loop around `connect` stands. -/
inductive Attempt where
  /-- A `connect` has not returned. -/
  | pending
  | returned (condition : Condition)
  | inProgress
  deriving DecidableEq, Repr

/-- The loop around `connect`. -/
def connectLoop (p : Process) (close : Result) : List Result → Process × Attempt
  | [] => (p.issue (.connect p.flags), .pending)
  | .done :: _ => (p.issue (.connect p.flags), .returned .success)
  | .failed errno :: rest =>
    let p := (p.issue (.connect p.flags)).fail errno
    let saveErrno := p.errno
    if saveErrno = EAGAIN.code then connectLoop p close rest
    else if saveErrno = EINPROGRESS.code then (p, .inProgress)
    else
      let p := p.close close
      (p, .returned p.lastError)

/-- The part of `connectAsync` after the loop: wait until the descriptor is
writable, and ask for the error of the connection. -/
def awaitWritable (p : Process) (r : Results) : Process × Condition :=
  let (p, ret) := p.select r.select
  if ret = 1 then
    if r.select.isSet then
      let (p, ret, error) := p.getsockopt r.getsockopt
      if ret = -1 ∨ error ≠ 0 then
        let p := p.close r.close
        (p, p.lastError)
      else (p, .success)
    else
      let p := p.close r.close
      (p, p.lastError)
  else
    let p := p.close r.close
    (p, .timedOut)

/-- `connectAsync`: the process afterwards and the condition returned, none as
long as a `connect` has not returned. -/
def connectAsync (p : Process) (r : Results) : Process × Option Condition :=
  let (p, _) := setSocketNotBlock p r
  match connectLoop p r.close r.connects with
  | (p, .pending) => (p, none)
  | (p, .returned condition) => (p, some condition)
  | (p, .inProgress) =>
    let (p, condition) := awaitWritable p r
    (p, some condition)

end ExNetlink.Sockops
