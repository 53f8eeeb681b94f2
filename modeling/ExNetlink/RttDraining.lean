import ExNetlink.RttFraming

/-! How many requests the RTT server answers when reads may carry several.

The POLLIN branch takes at most one request out of the read ring. It keeps up
with the bytes it has received exactly as long as no read completes a second
request. -/
namespace ExNetlink.RttDraining
open Runs CirculationBuffer RttServer RttFraming

/-- Every complete request received so far has its answer. -/
def Answered (s : Session) : Prop :=
  s.answers.reduceOption.length = s.received.length / packageSize

instance : DecidablePred Answered := fun s =>
  inferInstanceAs (Decidable (s.answers.reduceOption.length = s.received.length / packageSize))

/-- No read completes a second request: what is left of the stream before it,
which is `received` bytes long, and the read itself stay below two packages. -/
def OneAtATime (received : Nat) : List Delivery → Prop
  | [] => True
  | d :: rest => received % packageSize + d.bytes.length < 2 * packageSize ∧
    OneAtATime (received + d.bytes.length) rest

/-- What carries the induction: the ring holds exactly the unfinished request. -/
private structure Drained (s : Session) : Prop where
  framed : ∃ queue, Framed s.conn.translation.rbuffer queue ∧
    queue.length = s.received.length % packageSize
  answered : Answered s

private theorem serve_drained (s : Session) (d : Delivery) (held : Drained s)
    (one : s.received.length % packageSize + d.bytes.length < 2 * packageSize) :
    ∃ next, serve s d = some next ∧ Drained next := by
  have size : packageSize = 24 := rfl
  obtain ⟨⟨queue, framed, rest⟩, answered⟩ := held
  rw [Answered] at answered
  rw [size] at one rest answered
  by_cases complete : packageSize ≤ queue.length + d.bytes.length
  · obtain ⟨next, answer, served, kept, received, answers, -, -⟩ :=
      serve_complete framed complete (by omega)
    refine ⟨next, served, ⟨_, kept, ?_⟩, ?_⟩
    · rw [List.length_drop, List.length_append, received, List.length_append, size]
      omega
    · rw [Answered, answers, List.reduceOption_append, List.length_append, received,
        List.length_append, size]
      change _ + 1 = _
      omega
  · obtain ⟨next, served, kept, -, received, answers⟩ :=
      serve_incomplete (d := d) framed (by omega)
    refine ⟨next, served, ⟨_, kept, ?_⟩, ?_⟩
    · rw [received, List.length_append, List.length_append, size]
      omega
    · rw [Answered, answers, List.reduceOption_append, List.length_append, received,
        List.length_append, size]
      change _ + 0 = _
      omega

/-- One event answers at most one request. -/
theorem serve_answers_le (served : serve s d = some next) :
    next.answers.reduceOption.length ≤ s.answers.reduceOption.length + 1 ∧
      next.received = s.received ++ d.bytes := by
  rw [serve, Option.map_eq_some_iff] at served
  obtain ⟨⟨conn, answer⟩, -, rfl⟩ := served
  refine ⟨?_, rfl⟩
  rw [List.reduceOption_append, List.length_append]
  have single := List.reduceOption_length_le [answer]
  rw [List.length_singleton] at single
  omega

private theorem meets_iff_oneAtATime (s : Session) (held : Drained s) (ds : List Delivery) :
    Meets serve (fun s d => s.received.length % packageSize + d.bytes.length < 2 * packageSize)
      s ds ↔ OneAtATime s.received.length ds := by
  induction ds generalizing s with
  | nil => exact Iff.rfl
  | cons d rest ih =>
    refine and_congr_right fun one => ?_
    obtain ⟨next, served, kept⟩ := serve_drained s d held one
    have received := (serve_answers_le served).2
    have step := ih next kept
    rw [received, List.length_append] at step
    rw [← step]
    constructor
    · intro later
      exact later next served
    · intro later other same
      obtain rfl : next = other := Option.some.inj (served.symm.trans same)
      exact later

/-- After every event all complete requests are answered, exactly when no read
completes a second request; and the answers are what is on the wire. -/
theorem every_request_answered_iff (ds : List Delivery) :
    (Throughout serve Answered {} ds ↔ OneAtATime 0 ds) ∧
      ∀ s, run serve {} ds = some s →
        s.conn.wire = s.answers.reduceOption.flatMap RttPackage.bytes := by
  have size : packageSize = 24 := rfl
  have start : Drained {} := ⟨⟨[], make_framed, rfl⟩, rfl⟩
  refine ⟨Iff.trans ?_ (meets_iff_oneAtATime {} start ds), fun s ran => run_written rfl ran⟩
  refine throughout_iff_meets serve_drained ?_ (fun _ held => held.answered) ds start
  intro s d next held served answered
  obtain ⟨atMost, received⟩ := serve_answers_le served
  have before := held.answered
  rw [Answered] at before answered
  rw [received, List.length_append] at answered
  rw [size] at before answered ⊢
  omega

/-- Two requests in one read: one answer, and a request left in the ring. -/
theorem two_requests_one_answer :
    let ds := [Delivery.of (List.replicate 48 1) (by decide) (by decide)]
    (run serve {} ds).map (fun s => (s.answers.reduceOption.length, s.received.length)) =
        some (1, 48) ∧
      ¬ Throughout serve Answered {} ds := by
  decide +kernel

end ExNetlink.RttDraining
