import ExNetlink.Windows
import ExNetlink.SizeArith

/-! The byte ring of `set/buffer/buffer.h`.

`circulation_buffer` owns an array `buf_` of `length_` bytes and two indices
into it. The unread bytes lie from the read index to the write index, around
the end of the array when the write index is the smaller one; four bytes of
padding are meant to stay free in front of the read index.

Every `size_t` expression is written with the wrapping operators of
`SizeArith`, in the order the source evaluates it. An operation has no result
when an assertion fails or a copy leaves its arrays. `std::copy_n` on bytes is
the standard library's block move: it reads its source before it writes. The
bytes of an array obtained with a plain `new` are not initialised, so growth
takes them as an argument. -/
namespace ExNetlink
open Windows SizeArith

/-- The members of `circulation_buffer`. -/
structure CirculationBuffer where
  buf : List UInt8
  length : Nat
  readindex : Nat
  writeindex : Nat
  deriving DecidableEq, Repr

namespace CirculationBuffer

/-- `circulation_buffer::padding`. -/
def padding : Nat := 4

/-- The constructor: `length` zeroed bytes, both indices at the padding. -/
def make (length : Nat) : CirculationBuffer where
  buf := List.replicate length 0
  length := length
  readindex := padding
  writeindex := padding

def readedSize (b : CirculationBuffer) : Nat :=
  if b.writeindex < b.readindex then wadd (wsub b.length b.readindex) b.writeindex
  else wsub b.writeindex b.readindex

def writedSize (b : CirculationBuffer) : Nat :=
  if b.writeindex ≤ wsub b.readindex padding then wsub (wsub b.readindex padding) b.writeindex
  else wsub (wadd (wsub b.length b.writeindex) b.readindex) padding

/-- `relocation_location`: rotate a wrapped ring so that the read index comes
to the padding. The first branch assigns the read index before it computes
the write index from it; the second computes the write index first. -/
def relocationLocation (b : CirculationBuffer) : Option CirculationBuffer :=
  if b.writeindex < b.readindex then
    let moved := wadd (wsub b.length b.readindex) padding
    if wsub b.length b.readindex > b.writeindex then do
      let t ← copyN b.buf 0 b.writeindex (List.replicate b.writeindex 0) 0
      let buf ← copyN b.buf (wsub b.readindex padding) moved b.buf 0
      let buf ← copyN t 0 b.writeindex buf moved
      let b := { b with buf := buf, readindex := padding }
      some { b with writeindex := wadd (wsub b.length b.readindex) b.writeindex }
    else do
      let t ← copyN b.buf (wsub b.readindex padding) moved (List.replicate moved 0) 0
      let buf ← copyN b.buf 0 b.writeindex b.buf moved
      let buf ← copyN t 0 moved buf 0
      let b := { b with
        buf := buf
        writeindex := wadd (wadd (wsub b.length b.readindex) b.writeindex) padding }
      some { b with readindex := padding }
  else some b

/-- The rest of `make_memory` once the ring is straight: a larger array, filled
with `writeindex_` bytes from `peek() - padding` on. `fresh` is what the new
array holds before the copy. -/
def enlarge (b : CirculationBuffer) (length : Nat) (fresh : Nat → UInt8) :
    Option CirculationBuffer := do
  let newLength := wadd b.length (wmul (wsub length b.writedSize) 2)
  let newBuf := (List.range newLength).map fresh
  let newBuf ← copyN b.buf (wsub b.readindex padding) b.writeindex newBuf 0
  some { b with buf := newBuf, length := newLength }

/-- `make_memory(length)`. -/
def makeMemory (b : CirculationBuffer) (length : Nat) (fresh : Nat → UInt8) :
    Option CirculationBuffer :=
  if length < b.writedSize then some b
  else do
    let b ← b.relocationLocation
    b.enlarge length fresh

/-- The part of `append` after the room has been made: straight to the end of
the array, into the gap of a wrapped ring, or split around the end. `data` is
the memory behind the pointer argument. -/
def write (b : CirculationBuffer) (data : List UInt8) (length : Nat) : Option CirculationBuffer :=
  if b.writeindex ≥ b.readindex ∧ wsub b.length b.writeindex ≥ length then do
    let buf ← copyN data 0 length b.buf b.writeindex
    some { b with buf := buf, writeindex := wadd b.writeindex length }
  else if b.writeindex < b.readindex then do
    let buf ← copyN data 0 length b.buf b.writeindex
    some { b with buf := buf, writeindex := wadd b.writeindex length }
  else do
    let front := wsub b.length b.writeindex
    let rest := wadd (wsub length b.length) b.writeindex
    let buf ← copyN data 0 front b.buf b.writeindex
    let buf ← copyN data front rest buf 0
    some { b with buf := buf, writeindex := rest }

/-- `append(data, length)`. -/
def append (b : CirculationBuffer) (data : List UInt8) (length : Nat) (fresh : Nat → UInt8) :
    Option CirculationBuffer := do
  let b ← if b.writedSize < length then b.makeMemory length fresh else some b
  b.write data length

def retrieveAll (b : CirculationBuffer) : CirculationBuffer :=
  { b with readindex := padding, writeindex := padding }

/-- `skip(len)`, which asserts that `len` bytes are there to be read. -/
def skip (b : CirculationBuffer) (len : Nat) : Option CirculationBuffer :=
  if len ≤ b.readedSize then
    if len < b.readedSize then
      if b.writeindex < b.readindex then
        if wsub b.length b.readindex > len then
          some { b with readindex := wadd b.readindex len }
        else some { b with readindex := wadd (wsub len b.length) b.readindex }
      else some { b with readindex := wadd b.readindex len }
    else some b.retrieveAll
  else none

/-- The unread bytes, in the order they will be read. -/
def contents (b : CirculationBuffer) : List UInt8 :=
  if b.readindex ≤ b.writeindex then window b.buf b.readindex (b.writeindex - b.readindex)
  else window b.buf b.readindex (b.length - b.readindex) ++ window b.buf 0 b.writeindex

end CirculationBuffer
end ExNetlink
