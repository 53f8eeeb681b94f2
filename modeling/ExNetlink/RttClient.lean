import ExNetlink.RttServer

/-! The RTT client: what `RttClient::Connect` in `set/rtt/rtt_client.cpp`
computes from the four timestamps of an exchange.

The round trip is the client's waiting time less the server's, and wraps twice
to the right value. The clock difference is half the distance of the two
one-way differences, and these are taken in `uint64_t`: as soon as the clocks
are further apart than a one-way delay, one of the two wraps, and the distance
with it. -/
namespace ExNetlink.RttClient
open SizeArith BufferPeek RttServer

/-- What `Connect` meets once the connection is made. -/
structure Exchange where
  sendVal : Timeval
  /-- The result of `write`. -/
  writeSize : Int
  /-- The result of `read`, and the package it fills. -/
  readSize : Int
  reply : RttPackage
  recvVal : Timeval
  deriving DecidableEq, Repr

/-- The package that `Connect` sends. -/
def request (x : Exchange) : RttPackage where
  cSendTs := host2network .uint64 (timeval2ui64 x.sendVal)

/-- The pair that `Connect` returns. The sizes are asserted. -/
def connect (x : Exchange) : Option (Nat × Int) :=
  if x.writeSize = packageSize ∧ x.readSize = packageSize then
    let recvTime := timeval2ui64 x.recvVal
    let sRecvTs := network2host .uint64 x.reply.sRecvTs
    let cSendTs := network2host .uint64 x.reply.cSendTs
    let sSendTs := network2host .uint64 x.reply.sSendTs
    let a := wsub recvTime sSendTs
    let b := wsub sRecvTs cSendTs
    some (wsub (wsub recvTime cSendTs) (wsub sSendTs sRecvTs),
      asSigned (wsub (max a b) (min a b) / 2))
  else none

/-- The four timestamps of an exchange. The server's clock is not the client's. -/
structure Stamps where
  /-- `c_send_ts`. -/
  t1 : Nat
  /-- `s_recv_ts`. -/
  t2 : Nat
  /-- `s_send_ts`. -/
  t3 : Nat
  /-- `recv_time`. -/
  t4 : Nat
  deriving DecidableEq, Repr

namespace Stamps

/-- Each clock runs forward, and the server's time is within the client's. -/
structure Valid (t : Stamps) : Prop where
  small : t.t1 < 2 ^ 63 ∧ t.t2 < 2 ^ 63 ∧ t.t3 < 2 ^ 63 ∧ t.t4 < 2 ^ 63
  client : t.t1 ≤ t.t4
  server : t.t2 ≤ t.t3
  within : t.t3 - t.t2 ≤ t.t4 - t.t1

/-- The exchange that has these timestamps, in full. -/
structure Of (t : Stamps) (x : Exchange) : Prop where
  written : x.writeSize = packageSize
  read : x.readSize = packageSize
  reply : x.reply = {
    cSendTs := host2network .uint64 t.t1
    sRecvTs := host2network .uint64 t.t2
    sSendTs := host2network .uint64 t.t3 }
  received : timeval2ui64 x.recvVal = t.t4

/-- The round trip over the integers. -/
def roundTrip (t : Stamps) : Int := (t.t4 - t.t1) - (t.t3 - t.t2)

/-- The distance of the two one-way differences over the integers. -/
def distance (t : Stamps) : Nat := (((t.t2 : Int) - t.t1) - (t.t4 - t.t3)).natAbs

/-- Neither of the one-way differences is negative, or their distance is the
one that wraps to itself. -/
def NoWrap (t : Stamps) : Prop := (t.t1 ≤ t.t2 ∧ t.t3 ≤ t.t4) ∨ t.distance = 2 ^ 63

end Stamps

variable {t : Stamps} {x : Exchange}

/-- Half the distance of the one-way differences, as `Connect` computes it. -/
def difference (t : Stamps) : Int :=
  asSigned (wsub (max (wsub t.t4 t.t3) (wsub t.t2 t.t1)) (min (wsub t.t4 t.t3) (wsub t.t2 t.t1)) / 2)

theorem connect_eq (valid : t.Valid) (of : t.Of x) :
    connect x = some (wsub (wsub t.t4 t.t1) (wsub t.t3 t.t2),
      difference t) := by
  have width : (256 : Nat) ^ Width.sizeof .uint64 = 2 ^ 64 := rfl
  obtain ⟨s1, s2, s3, s4⟩ := valid.small
  rw [connect, if_pos ⟨of.written, of.read⟩, of.reply, of.received]
  simp only [network2host_host2network .uint64 t.t1 (by omega),
    network2host_host2network .uint64 t.t2 (by omega),
    network2host_host2network .uint64 t.t3 (by omega), difference]

/-- The round trip is right however the clocks are set. -/
theorem round_trip_exact (valid : t.Valid) :
    (wsub (wsub t.t4 t.t1) (wsub t.t3 t.t2) : Int) = t.roundTrip := by
  obtain ⟨⟨s1, s2, s3, s4⟩, client, server, within⟩ := valid
  rw [wsub_eq client (by omega), wsub_eq server (by omega), wsub_eq within (by omega),
    Stamps.roundTrip]
  omega

/-- Both differences are there: the clocks are close. -/
theorem difference_close (valid : t.Valid) (forth : t.t1 ≤ t.t2) (back : t.t3 ≤ t.t4) :
    difference t = (t.distance / 2 : Nat) := by
  obtain ⟨⟨s1, s2, s3, s4⟩, -, -, -⟩ := valid
  rw [difference, wsub_eq back (by omega), wsub_eq forth (by omega)]
  rcases Nat.le_total (t.t2 - t.t1) (t.t4 - t.t3) with longer | longer
  · have apart : t.distance = t.t4 - t.t3 - (t.t2 - t.t1) := by
      rw [Stamps.distance]
      omega
    rw [asSigned_half_distance longer (by omega), apart]
  · have apart : t.distance = t.t2 - t.t1 - (t.t4 - t.t3) := by
      rw [Stamps.distance]
      omega
    rw [Nat.max_comm, Nat.min_comm, asSigned_half_distance longer (by omega), apart]

/-- The server's clock is so far ahead that the way back seems negative. -/
theorem difference_ahead (valid : t.Valid) (back : t.t4 < t.t3) :
    difference t = ((2 ^ 64 - t.distance) / 2 : Nat) ∧ t.distance ≤ 2 ^ 64 := by
  obtain ⟨⟨s1, s2, s3, s4⟩, client, server, within⟩ := valid
  -- the waiting times leave no room for both differences to be negative
  have forth : t.t1 ≤ t.t2 := by omega
  have apart : t.distance = t.t2 - t.t1 + (t.t3 - t.t4) := by
    rw [Stamps.distance]
    omega
  rw [difference, wsub_below back (by omega), wsub_eq forth (by omega),
    asSigned_half_distance (by omega) (by omega), apart]
  constructor
  · congr 2
    omega
  · omega

/-- The client's clock is so far ahead that the way there seems negative. -/
theorem difference_behind (valid : t.Valid) (forth : t.t2 < t.t1) :
    difference t = ((2 ^ 64 - t.distance) / 2 : Nat) ∧ t.distance ≤ 2 ^ 64 := by
  obtain ⟨⟨s1, s2, s3, s4⟩, client, server, within⟩ := valid
  have back : t.t3 ≤ t.t4 := by omega
  have apart : t.distance = t.t1 - t.t2 + (t.t4 - t.t3) := by
    rw [Stamps.distance]
    omega
  rw [difference, wsub_eq back (by omega), wsub_below forth (by omega), Nat.max_comm, Nat.min_comm,
    asSigned_half_distance (by omega) (by omega), apart]
  constructor
  · congr 2
    omega
  · omega

/-- The clock difference is right exactly when nothing wraps. -/
theorem difference_exact_iff (valid : t.Valid) :
    difference t = (t.distance / 2 : Nat) ↔ t.NoWrap := by
  by_cases close : t.t1 ≤ t.t2 ∧ t.t3 ≤ t.t4
  · exact iff_of_true (difference_close valid close.1 close.2) (.inl close)
  · have wrapped : difference t = ((2 ^ 64 - t.distance) / 2 : Nat) ∧ t.distance ≤ 2 ^ 64 := by
      by_cases forth : t.t2 < t.t1
      · exact difference_behind valid forth
      · exact difference_ahead valid (by omega)
    rw [wrapped.1, Int.natCast_inj, half_around_iff wrapped.2, Stamps.NoWrap, or_iff_right close]

/-- `Connect` returns the round trip and half the distance of the one-way
differences. -/
def Exact (t : Stamps) (x : Exchange) : Prop :=
  ∃ rtt diff, connect x = some (rtt, diff) ∧ (rtt : Int) = t.roundTrip ∧
    diff = (t.distance / 2 : Nat)

/-- For every exchange: the pair that `Connect` returns is exact if and only if
the clocks are no further apart than the one-way delays, up to one distance
that wraps to itself. With equal delays there and back, the difference is then
the offset of the clocks. -/
theorem measurement_exact_iff (valid : t.Valid) (of : t.Of x) :
    (Exact t x ↔ t.NoWrap) ∧
    (t.NoWrap → ∀ delay offset : Int, (t.t2 : Int) = t.t1 + delay + offset →
      (t.t4 : Int) = t.t3 + delay - offset →
        ∃ rtt, connect x = some (rtt, (offset.natAbs : Int)) ∧ (rtt : Int) = 2 * delay) := by
  have returned := connect_eq valid of
  have half := difference_exact_iff valid
  have trip := round_trip_exact valid
  constructor
  · constructor
    · rintro ⟨rtt, diff, same, -, right⟩
      obtain ⟨-, rfl⟩ := Prod.mk.inj (Option.some.inj (returned.symm.trans same))
      exact half.mp right
    · intro fine
      exact ⟨_, _, returned, trip, half.mpr fine⟩
  · intro fine delay offset forth back
    rw [half.mpr fine] at returned
    have apart : t.distance / 2 = offset.natAbs := by
      rw [Stamps.distance]
      omega
    refine ⟨_, by rw [returned, apart], ?_⟩
    rw [trip, Stamps.roundTrip]
    omega

/-- Sent at 1.000100 s and received at 1.000143 s of the client's clock. -/
def exchange (sRecvTs sSendTs : Nat) : Exchange where
  sendVal := ⟨1, 100⟩
  writeSize := 24
  readSize := 24
  reply := {
    cSendTs := host2network .uint64 1000100
    sRecvTs := host2network .uint64 sRecvTs
    sSendTs := host2network .uint64 sSendTs }
  recvVal := ⟨1, 143⟩

/-- The server's clock is 5 ahead, and each way takes 20. -/
theorem measurement_exact_ahead : connect (exchange 1000125 1000128) = some (40, 5) := by
  have right := @measurement_exact_iff ⟨1000100, 1000125, 1000128, 1000143⟩ (exchange 1000125 1000128)
    ⟨by decide, by decide, by decide, by decide⟩ ⟨rfl, rfl, rfl, by decide⟩
  obtain ⟨rtt, returned, twice⟩ := right.2 (.inl (by decide)) 20 5 (by decide) (by decide)
  obtain rfl : rtt = 40 := by omega
  exact returned

/-- The server's clock is 50 ahead, and each way takes 20: the difference comes
out as `2 ^ 63 - 50`. -/
theorem measurement_wraps :
    let t : Stamps := ⟨1000100, 1000170, 1000173, 1000143⟩
    t.distance / 2 = 50 ∧ connect (exchange 1000170 1000173) = some (40, 2 ^ 63 - 50) ∧
      ¬ Exact t (exchange 1000170 1000173) := by
  have wrong : connect (exchange 1000170 1000173) = some (40, 2 ^ 63 - 50) := by decide
  refine ⟨by decide, wrong, ?_⟩
  rintro ⟨rtt, diff, returned, -, right⟩
  have same := Prod.mk.inj (Option.some.inj (returned.symm.trans wrong))
  rw [same.2] at right
  exact absurd right (by decide)

end ExNetlink.RttClient
