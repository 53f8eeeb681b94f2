import ExNetlink.BufferProofs
import ExNetlink.Runs

/-! Whole runs of the byte ring.

What the ring is for is a queue of bytes: `queued` says it without arrays and
indices. A run starts from a new ring and appends, skips and clears in any
order. The ring follows the queue as long as every append takes a branch that
queues its bytes, and it keeps its representation as long as no skip stops
inside the padding and no growth copies from outside the array. -/
namespace ExNetlink.BufferRuns
open Windows SizeArith Runs CirculationBuffer

/-- A call on the ring. The appended bytes are counted by a `size_t`; `fresh`
is the content of a new array, should the call allocate one. -/
inductive Op where
  | append (data : List UInt8) (sized : data.length < 2 ^ 64) (fresh : Nat → UInt8)
  | skip (len : Nat)
  | retrieveAll

def step (b : CirculationBuffer) : Op → Option CirculationBuffer
  | .append data _ fresh => b.append data data.length fresh
  | .skip len => b.skip len
  | .retrieveAll => some b.retrieveAll

/-- The same call on a queue of bytes. -/
def queued (queue : List UInt8) : Op → List UInt8
  | .append data _ _ => queue ++ data
  | .skip len => queue.drop len
  | .retrieveAll => []

/-- The ring and, beside it, the queue it stands for. -/
abbrev Tracked := CirculationBuffer × List UInt8

def track (s : Tracked) (op : Op) : Option Tracked :=
  (step s.1 op).map fun next => (next, queued s.2 op)

/-- The unread bytes are the queue, and `readed_size()` is their number. -/
def Follows (s : Tracked) : Prop := s.1.contents = s.2 ∧ s.1.readedSize = s.2.length

instance : DecidablePred Follows := fun s =>
  inferInstanceAs (Decidable (s.1.contents = s.2 ∧ s.1.readedSize = s.2.length))

/-- Only available bytes are skipped: what `skip` asserts. -/
def Available (b : CirculationBuffer) : Op → Prop
  | .skip len => len ≤ b.readedSize
  | _ => True

instance (b : CirculationBuffer) : DecidablePred (Available b)
  | .append .. => isTrue trivial
  | .skip len => inferInstanceAs (Decidable (len ≤ b.readedSize))
  | .retrieveAll => isTrue trivial

/-- The call takes a branch that does to the ring what it does to the queue. -/
def Queues (b : CirculationBuffer) : Op → Prop
  | .append data _ _ => AppendSafe b data.length
  | .skip len => len ≤ b.readedSize
  | .retrieveAll => True

instance (b : CirculationBuffer) : DecidablePred (Queues b)
  | .append data _ _ => inferInstanceAs (Decidable (AppendSafe b data.length))
  | .skip len => inferInstanceAs (Decidable (len ≤ b.readedSize))
  | .retrieveAll => isTrue trivial

/-- What carries the induction: the indices stay inside an array that holds at
least the padding. The read index may stand below the padding. -/
private def Carries (s : Tracked) : Prop :=
  Sound s.1 ∧ padding ≤ s.1.length ∧ s.1.contents = s.2

private theorem track_carries (s : Tracked) (op : Op) (held : Carries s) (safe : Queues s.1 op) :
    ∃ next, track s op = some next ∧ Carries next := by
  obtain ⟨b, queue⟩ := s
  obtain ⟨sound, room, same⟩ := held
  cases op with
  | append data sized fresh =>
    obtain ⟨after, appended, good, longer, contents⟩ := append_contents sound sized safe fresh
    refine ⟨(after, queue ++ data), ?_, good, Nat.le_trans room longer, ?_⟩
    · simp only [track, step, appended, Option.map_some, queued]
    · rw [contents, same]
  | skip len =>
    obtain ⟨after, skipped, -, length, contents⟩ := skip_contents sound safe
    refine ⟨(after, queue.drop len), ?_, skip_sound sound room skipped, length ▸ room, ?_⟩
    · simp only [track, step, skipped, Option.map_some, queued]
    · rw [contents, same]
  | retrieveAll =>
    exact ⟨(b.retrieveAll, []), rfl, retrieveAll_sound sound room, room, retrieveAll_contents b⟩

theorem make_sound {length : Nat} (room : padding ≤ length) (size : length < 2 ^ 64) :
    Sound (make length) := ⟨List.length_replicate, size, room, room⟩

private theorem make_contents (length : Nat) : (make length).contents = [] := by
  rw [contents_straight (Nat.le_refl _)]
  simp [make]

/-- A run whose calls all take a queueing branch keeps the ring equal to the
queue after every call. -/
theorem ring_follows_queue (length : Nat) (room : padding ≤ length) (size : length < 2 ^ 64)
    (ops : List Op) (met : Meets track (fun s op => Queues s.1 op) (make length, []) ops) :
    Throughout track Follows (make length, []) ops := by
  have start : Carries (make length, []) :=
    ⟨make_sound room size, room, make_contents length⟩
  refine (throughout_of_meets track_carries start met).mono ?_
  rintro s ⟨sound, -, same⟩
  exact ⟨same, by rw [← contents_length sound, same]⟩

/-- Appending around the end of a ring of twelve bytes and then growing it:
the wrapped ring has its read index at twice the padding. -/
def growing : List Op :=
  [.append [1, 2, 3, 4, 5, 6] (by decide) fun _ => 0, .skip 4,
    .append [7, 8, 9, 10] (by decide) fun _ => 0,
    .append [11, 12, 13, 14, 15] (by decide) fun _ => 255, .skip 3]

theorem ring_follows_queue_growing :
    Meets track (fun s op => Queues s.1 op) (make 12, []) growing ∧
      Throughout track Follows (make 12, []) growing :=
  have met : Meets track (fun s op => Queues s.1 op) (make 12, []) growing := by decide +kernel
  ⟨met, ring_follows_queue 12 (by decide) (by decide) growing met⟩

/-- Growing a straight ring whose first byte has been read: the copy starts at
`peek() - padding` while the indices stay, so the last unread byte gives way
to one from beyond the write index. -/
def growingAfterSkip : List Op :=
  [.append [1, 2] (by decide) fun _ => 0, .skip 1, .append [3, 4, 5, 6] (by decide) fun _ => 0]

theorem ring_loses_queue :
    padding ≤ 8 ∧ Meets track (fun s op => Available s.1 op) (make 8, []) growingAfterSkip ∧
      (run track (make 8, []) growingAfterSkip).map (fun s => (s.1.contents, s.2)) =
        some ([0, 3, 4, 5, 6], [2, 3, 4, 5, 6]) ∧
      ¬ Throughout track Follows (make 8, []) growingAfterSkip := by
  decide +kernel

end ExNetlink.BufferRuns
