import ExNetlink.BufferPeek
import ExNetlink.Reactor

/-! One connection of the RTT server: the POLLIN and POLLOUT branches of
`RttServer::startDomain` in `set/rtt/rtt_server.cpp`, with the package and
`Translation` they work on.

A connection is taken with its `Translation` attached and its slot of `fds`.
The results of `read`, `write` and `gettimeofday` are arguments; `wire` records
the bytes the socket has accepted. A branch has no result where an assertion
fails or a buffer operation has none. -/
namespace ExNetlink.RttServer
open Windows SizeArith ByteOrder CirculationBuffer BufferPeek Reactor

/-- `rtt_package`, the three words as they lie in memory. -/
structure RttPackage where
  cSendTs : Nat := 0
  sRecvTs : Nat := 0
  sSendTs : Nat := 0
  deriving DecidableEq, Repr

/-- `sizeof(rtt_package)`. -/
def packageSize : Nat := 24

/-- The package as `write` sends it from a little-endian host. -/
def RttPackage.bytes (pkg : RttPackage) : List UInt8 :=
  littleEndian 8 pkg.cSendTs ++ littleEndian 8 pkg.sRecvTs ++ littleEndian 8 pkg.sSendTs

/-- `struct timeval`. -/
structure Timeval where
  tvSec : Int
  tvUsec : Int
  deriving DecidableEq, Repr

/-- `timeval2ui64`: microseconds as a `uint64_t`. -/
def timeval2ui64 (val : Timeval) : Nat := asSize (val.tvSec * 1000000 + val.tvUsec)

/-- `Translation`: the two rings of a connection. -/
structure Translation where
  rbuffer : CirculationBuffer := make (3 * packageSize)
  wbuffer : CirculationBuffer := make (3 * packageSize)
  deriving DecidableEq, Repr

/-- A slot of `fds` with its `Translation`. A disposed slot has the descriptor
`-1` and no `Translation`. -/
structure Connection where
  translation : Translation := {}
  events : BitVec 16 := POLLIN ||| POLLERR
  disposed : Bool := false
  wire : List UInt8 := []
  deriving DecidableEq, Repr

/-- `EAGAIN`, which is also `EWOULDBLOCK`. -/
def EAGAIN : Int := 11

namespace Connection

/-- `dispose(i)`. -/
def dispose (c : Connection) : Connection := { c with events := 0, disposed := true }

/-- Watch for room to write, and for nothing to read. -/
def awaitWritable (c : Connection) : Connection :=
  { c with events := (c.events ||| POLLOUT) &&& ~~~POLLIN }

def setRbuffer (c : Connection) (rbuffer : CirculationBuffer) : Connection :=
  { c with translation := { c.translation with rbuffer := rbuffer } }

def setWbuffer (c : Connection) (wbuffer : CirculationBuffer) : Connection :=
  { c with translation := { c.translation with wbuffer := wbuffer } }

end Connection

/-- What a non-blocking `write` meets: the socket takes up to some number of
bytes, or the call fails. `errno` is its value after the call, and the `perror`
before it is tested is taken to leave it so. -/
structure SocketWrite where
  accepts : Option Nat
  errno : Int := 0
  deriving DecidableEq, Repr

/-- The result of `write` and the bytes the socket took. -/
def SocketWrite.write (socket : SocketWrite) (bytes : List UInt8) : Int × List UInt8 :=
  match socket.accepts with
  | some limit => ((min limit bytes.length : Nat), bytes.take limit)
  | none => (-1, [])

/-- One round of a readable connection: what `read` gives (`none` for a failure,
nothing at end of file), the two clock readings, what the first `write` meets,
the stack behind the local package, and the content of a new array. -/
structure Readable where
  received : Option (List UInt8)
  recvTime : Timeval
  sendTime : Timeval
  write : SocketWrite
  beyond : List UInt8
  fresh : Nat → UInt8

/-- The result of `read`. -/
def Readable.rs (io : Readable) : Int :=
  match io.received with
  | some bytes => bytes.length
  | none => -1

/-- The package peeked and skipped out of the ring, word by word. -/
def takeRequest (rbuffer : CirculationBuffer) : Option (CirculationBuffer × RttPackage) := do
  let cSendTs ← peek rbuffer .uint64
  let rbuffer ← rbuffer.skip 8
  let sRecvTs ← peek rbuffer .uint64
  let rbuffer ← rbuffer.skip 8
  let sSendTs ← peek rbuffer .uint64
  let rbuffer ← rbuffer.skip 8
  some (rbuffer, { cSendTs, sRecvTs, sSendTs })

/-- The answer: the client's word back in network order, and the two times. -/
def respond (pkg : RttPackage) (recvTime sendTime : Timeval) : RttPackage where
  cSendTs := host2network .uint64 pkg.cSendTs
  sRecvTs := host2network .uint64 (timeval2ui64 recvTime)
  sSendTs := host2network .uint64 (timeval2ui64 sendTime)

/-- The POLLIN branch up to the first `write`: a read is queued and a complete
request is turned into its answer. `EAGAIN` is compared with the result of
`read`, not with `errno`, so every failed read disposes the slot. -/
def receive (c : Connection) (io : Readable) : Option (Connection × Option RttPackage) :=
  if io.rs ≤ 0 ∧ io.rs ≠ EAGAIN then some (c.dispose, none)
  else do
    let rbuffer ← c.translation.rbuffer.append (io.received.getD []) (asSize io.rs) io.fresh
    if rbuffer.readedSize < packageSize then
      some ({ c.setRbuffer rbuffer with events := c.events ||| POLLIN }, none)
    else do
      let (rbuffer, request) ← takeRequest rbuffer
      some (c.setRbuffer rbuffer, some (respond request io.recvTime io.sendTime))

/-- The first `write` of an answer and the two branches that queue what it
left. The result is signed where it is compared with zero and converted to
`size_t` where it meets a size. -/
def writeResponse (c : Connection) (pkg : RttPackage) (socket : SocketWrite)
    (beyond : List UInt8) (fresh : Nat → UInt8) : Option Connection := do
  let (ws, taken) := socket.write pkg.bytes
  let memory := pkg.bytes ++ beyond
  let c := { c with wire := c.wire ++ taken }
  let c ←
    if ws ≤ 0 then
      if socket.errno = EAGAIN then do
        let wbuffer ← c.translation.wbuffer.append memory (wsub packageSize (asSize ws)) fresh
        some (c.setWbuffer wbuffer).awaitWritable
      else none
    else some c
  if asSize ws < packageSize then do
    let wbuffer ← c.translation.wbuffer.append (memory.drop (asSize ws))
      (wsub packageSize (asSize ws)) fresh
    some (c.setWbuffer wbuffer).awaitWritable
  else some c

/-- The POLLIN branch. -/
def pollin (c : Connection) (io : Readable) : Option (Connection × Option RttPackage) := do
  match ← receive c io with
  | (c, none) => some (c, none)
  | (c, some pkg) => do
    let c ← writeResponse c pkg io.write io.beyond io.fresh
    some (c, some pkg)

/-- The POLLOUT branch: one flush of the write ring. A disposed slot is passed
over by the loop. -/
def pollout (c : Connection) (socket : SocketWrite) : Option Connection :=
  if c.disposed then some c
  else do
    let wbuff := c.translation.wbuffer
    let bytes ← load wbuff.buf wbuff.readindex wbuff.readedSize
    let (wrNum, taken) := socket.write bytes
    let c := { c with wire := c.wire ++ taken }
    if wrNum < 0 then
      if socket.errno ≠ EAGAIN then some c.dispose else some c.awaitWritable
    else if asSize wrNum = wbuff.readedSize then some c.dispose
    else do
      let wbuff ← wbuff.skip (asSize wrNum)
      some (c.setWbuffer wbuff).awaitWritable

end ExNetlink.RttServer
