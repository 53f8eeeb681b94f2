import ExNetlink.RttFraming
import ExNetlink.RttClient
import ExNetlink.RttTable

/-! A whole RTT exchange: `RttClient::Connect` against one connection of the
server that has its `Translation` attached. `onNewConnect` as it stands attaches
none, since its call of `setData` is commented out; a connection without one is
not answered at all.

The client's package reaches the server in any reads, is taken out of the read
ring word by word, and the answer crosses back as bytes. Each party stamps with
its own clock. Whatever the clocks are set to, the client ends up with the time
the two packages spent between the parties. -/
namespace ExNetlink.RttExchange
open SizeArith ByteOrder Runs CirculationBuffer BufferPeek RttServer RttFraming RttClient
open RttTable (Table)

/-- The instant a `timeval` stands for, in microseconds. -/
def micros (val : Timeval) : Int := val.tvSec * 1000000 + val.tvUsec

/-- The package that lies in some bytes of memory. -/
def packageOf (memory : List UInt8) : RttPackage where
  cSendTs := value (memory.take 8)
  sRecvTs := value ((memory.drop 8).take 8)
  sSendTs := value ((memory.drop 16).take 8)

/-- What the client's `read` returns when `there` bytes of the answer have
come. -/
def readBytes (wire : List UInt8) (there : Nat) : List UInt8 := wire.take (min there packageSize)

/-- What `Connect` sees. The package it reads into is zeroed first. -/
def seen (sendVal recvVal : Timeval) (wire : List UInt8) (there : Nat) : Exchange where
  sendVal := sendVal
  writeSize := packageSize
  readSize := (readBytes wire there).length
  reply := packageOf (readBytes wire there ++
    List.replicate (packageSize - (readBytes wire there).length) 0)
  recvVal := recvVal

/-- The instants of an exchange and the two clocks, in microseconds. The
request arrives with its last read. -/
structure Passage where
  sent : Int
  arrived : Int
  answered : Int
  returned : Int
  clientOffset : Int
  serverOffset : Int
  forth : sent ≤ arrived
  held : arrived ≤ answered
  back : answered ≤ returned
  clientClock : 0 ≤ sent + clientOffset ∧ returned + clientOffset < 2 ^ 63
  serverClock : 0 ≤ arrived + serverOffset ∧ answered + serverOffset < 2 ^ 63

namespace Passage

/-- How far the server's clock is ahead. -/
def ahead (p : Passage) : Int := p.serverOffset - p.clientOffset

/-- The four timestamps. -/
def stamps (p : Passage) : Stamps where
  t1 := (p.sent + p.clientOffset).toNat
  t2 := (p.arrived + p.serverOffset).toNat
  t3 := (p.answered + p.serverOffset).toNat
  t4 := (p.returned + p.clientOffset).toNat

theorem stamps_eq (p : Passage) :
    (p.stamps.t1 : Int) = p.sent + p.clientOffset ∧ (p.stamps.t2 : Int) = p.arrived + p.serverOffset ∧
      (p.stamps.t3 : Int) = p.answered + p.serverOffset ∧
      (p.stamps.t4 : Int) = p.returned + p.clientOffset := by
  obtain ⟨clientLow, -⟩ := p.clientClock
  obtain ⟨serverLow, -⟩ := p.serverClock
  have forth := p.forth
  have held := p.held
  have back := p.back
  refine ⟨Int.toNat_of_nonneg (by omega), Int.toNat_of_nonneg (by omega),
    Int.toNat_of_nonneg (by omega), Int.toNat_of_nonneg (by omega)⟩

theorem stamps_valid (p : Passage) : p.stamps.Valid := by
  obtain ⟨t1, t2, t3, t4⟩ := p.stamps_eq
  obtain ⟨-, clientHigh⟩ := p.clientClock
  obtain ⟨-, serverHigh⟩ := p.serverClock
  have forth := p.forth
  have held := p.held
  have back := p.back
  exact ⟨⟨by omega, by omega, by omega, by omega⟩, by omega, by omega, by omega⟩

end Passage

/-- The package of a client whose clock shows `sendVal`, cut into the reads the
server sees. The server stamps its answer in the last one. -/
structure Cut (p : Passage) where
  sendVal : Timeval
  recvVal : Timeval
  front : List Delivery
  last : Delivery
  whole : front.flatMap Delivery.bytes ++ last.bytes =
    RttPackage.bytes { cSendTs := host2network .uint64 (timeval2ui64 sendVal) }
  sent : micros sendVal = p.sent + p.clientOffset
  returned : micros recvVal = p.returned + p.clientOffset
  arrived : micros last.recvTime = p.arrived + p.serverOffset
  answered : micros last.sendTime = p.answered + p.serverOffset

variable {p : Passage} {c : Connection} {queue : List UInt8} {d : Delivery}

theorem timeval2ui64_eq {val : Timeval} {instant : Int} (shown : micros val = instant)
    (low : 0 ≤ instant) (high : instant < 2 ^ 63) : timeval2ui64 val = instant.toNat := by
  rw [micros] at shown
  rw [timeval2ui64, shown, asSize, Int.emod_eq_of_lt low (by omega)]

/-! ### The server's side -/

/-- The answer to the request of a passage, with the three stamps so far. -/
def answerOf (p : Passage) : RttPackage where
  cSendTs := host2network .uint64 p.stamps.t1
  sRecvTs := host2network .uint64 p.stamps.t2
  sSendTs := host2network .uint64 p.stamps.t3

/-- A word read back from its own bytes. -/
theorem value_word (t : Nat) : value (littleEndian 8 (host2network .uint64 t)) = host2network .uint64 t := by
  rw [value_littleEndian]
  apply Nat.mod_eq_of_lt
  have below := value_lt (littleEndian 8 t).reverse
  rwa [List.length_reverse, littleEndian_length] at below

theorem packageOf_bytes (t1 t2 t3 : Nat) :
    let reply : RttPackage := {
      cSendTs := host2network .uint64 t1
      sRecvTs := host2network .uint64 t2
      sSendTs := host2network .uint64 t3 }
    packageOf reply.bytes = reply := by
  intro reply
  have third : reply.bytes.drop 16 = littleEndian 8 reply.sSendTs :=
    List.drop_left' (by simp)
  have second : reply.bytes.drop 8 = littleEndian 8 reply.sRecvTs ++ littleEndian 8 reply.sSendTs := by
    rw [RttPackage.bytes, List.append_assoc]
    exact List.drop_left' (by simp)
  have first : reply.bytes.take 8 = littleEndian 8 reply.cSendTs := by
    rw [RttPackage.bytes, List.append_assoc]
    exact List.take_left' (by simp)
  rw [packageOf, first, second, third, List.take_left' (by simp), List.take_of_length_le (by simp),
    value_word, value_word, value_word]

/-- `Connect` has its package once all of the answer is there, and asserts it. -/
theorem connect_seen (cut : Cut p) (there : Nat) {wire : List UInt8}
    (wrote : wire = (answerOf p).bytes) :
    connect (seen cut.sendVal cut.recvVal wire there) =
      if packageSize ≤ there then
        some (wsub (wsub p.stamps.t4 p.stamps.t1) (wsub p.stamps.t3 p.stamps.t2), difference p.stamps)
      else none := by
  have width : wire.length = packageSize := wrote ▸ bytes_length _
  have size : (readBytes wire there).length = min there packageSize := by
    rw [readBytes, List.length_take, width]
    omega
  by_cases whole : packageSize ≤ there
  · obtain ⟨clientLow, clientHigh⟩ := p.clientClock
    have forth := p.forth
    have held := p.held
    have back := p.back
    have all : readBytes wire there = wire := by
      rw [readBytes, Nat.min_eq_right whole, List.take_of_length_le (Nat.le_of_eq width)]
    rw [if_pos whole]
    apply connect_eq p.stamps_valid
    refine ⟨rfl, ?_, ?_, timeval2ui64_eq cut.returned (by omega) (by omega)⟩
    · rw [seen, size, Nat.min_eq_right whole]
    · rw [seen, all, width, Nat.sub_self, List.replicate_zero, List.append_nil, wrote, answerOf,
        packageOf_bytes]
  · have short : (readBytes wire there).length ≠ packageSize := by omega
    rw [if_neg whole, connect, if_neg]
    rintro ⟨-, read⟩
    rw [seen] at read
    exact short (Int.ofNat_inj.mp read)

end ExNetlink.RttExchange
