import ExNetlink.PeekShifts

/-! The byte ring as a queue of typed values.

A writer appends values in network order, a reader takes each one out with
`peek<T>` and `skip(sizeof(T))`. Once a ring has been made long enough for what
is ever queued in it, with the padding, it never grows, and the positions that a
skip leaves inside the padding, where `writed_size()` wraps, do no harm. One
position does: a value of four or eight bytes that ends with the array, read
while others are queued behind it, is shifted by its whole width, which is
undefined. Short of that the values come out as they went in. -/
namespace ExNetlink.TypedQueue
open Windows SizeArith ByteOrder Runs CirculationBuffer BufferPeek BufferRuns
open PeekShifts (EndsWithArray)

/-- A value of one of the types. -/
structure Item where
  width : Width
  number : Nat
  small : number < 256 ^ width.sizeof

/-- The value in network order, as it lies in memory. -/
def Item.bytes (item : Item) : List UInt8 :=
  littleEndian item.width.sizeof (host2network item.width item.number)

/-- A call of the writer or of the reader. -/
inductive Call where
  | push (item : Item) (fresh : Nat → UInt8)
  | pop (t : Width)
  | clear

/-- The ring and the values taken out of it. -/
structure State where
  ring : CirculationBuffer
  popped : List Nat := []

/-- `peek<T>()` where it is defined: the shift it evaluates, if it comes to one,
is by less than the width of what is shifted. -/
def definedPeek (b : CirculationBuffer) (t : Width) : Option Nat :=
  match peekShift b t with
  | some amount => if amount < t.promoted then peek b t else none
  | none => peek b t

def step (s : State) : Call → Option State
  | .push item fresh => do
    let ring ← s.ring.append item.bytes item.bytes.length fresh
    some { s with ring := ring }
  | .pop t => do
    let number ← definedPeek s.ring t
    let ring ← s.ring.skip t.sizeof
    some { ring := ring, popped := s.popped ++ [number] }
  | .clear => some { s with ring := s.ring.retrieveAll }

/-! ### The queue it stands for -/

/-- The values that wait, and those taken out. -/
structure Queue where
  waiting : List Item := []
  popped : List Nat := []
  /-- Where in the array the first of them begins. -/
  front : Nat := padding

/-- The bytes of the waiting values. -/
def Queue.bytes (q : Queue) : List UInt8 := q.waiting.flatMap Item.bytes

/-- No value of four or eight bytes is taken out that ends with the array while
others wait behind it. -/
def Suits (length : Nat) (q : Queue) : Call → Prop
  | .pop t => ¬ (q.front + t.sizeof = length ∧ t.sizeof < q.bytes.length ∧ 4 ≤ t.sizeof)
  | .push _ _ | .clear => True

instance (length : Nat) (q : Queue) : DecidablePred (Suits length q)
  | .pop _ => inferInstanceAs (Decidable (¬ _))
  | .push _ _ | .clear => isTrue trivial

variable {b after : CirculationBuffer} {data : List UInt8} {length : Nat} {q next : Queue} {s : State}

/-! ### Appending within the length -/

/-- How far an index of `count` bytes from the front lies from the start of the
array. -/
def around (length front count : Nat) : Nat :=
  if front + count ≤ length then front + count else front + count - length

/-- The ring holds the bytes of the waiting values from the front on, and is as
long as it was made. The front may be anywhere. -/
structure Holds (length : Nat) (q : Queue) (s : State) : Prop where
  sound : Sound s.ring
  sized : s.ring.length = length
  queued : s.ring.contents = q.bytes
  within : q.bytes.length + padding ≤ length
  popped : s.popped = q.popped
  front : s.ring.readindex = q.front
  placed : s.ring.writeindex = around length q.front q.bytes.length

theorem Holds.count (held : Holds length q s) : s.ring.readedSize = q.bytes.length := by
  rw [← contents_length held.sound, held.queued]

@[simp] theorem Item.bytes_length (item : Item) : item.bytes.length = item.width.sizeof :=
  littleEndian_length _ _

end ExNetlink.TypedQueue
