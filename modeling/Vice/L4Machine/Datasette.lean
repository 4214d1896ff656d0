import Vice.L1Encoding.GcrCode

/-!
# The datasette's gap reader

A .tap file is a list of gaps: one byte, or in the later versions a zero byte and three more. The
deck reads it through a buffer, forwards and, when the tape is wound back, backwards, where the
length of the gap before the position has to be guessed from the bytes in front of it.

* `moveBufferForward`, `moveBufferBack` fill the buffer, `fetchGap` takes a gap out of it.
* `datasetteReadGap` is a call, in the regular tape behaviour and without wobble, speed tuning and
  azimuth error.
-/
namespace Vice.L4.Datasette
open Vice.L1.Gcr

/-- mirrors src/datasette/datasette.c:64 -/
def tapBufferLength : Nat := 100000

structure Tape where
  /-- The whole file; `offset` is the length of its header. -/
  file : Bytes
  offset : Nat
  version : UInt8
  zeroGapDelay : Nat
  deriving DecidableEq

/-- `tapBuffer[nextTap]` is the byte at `currentFileSeekPosition`. -/
structure Deck where
  currentFileSeekPosition : Int
  nextTap : Int
  lastTap : Int
  tapBuffer : Bytes
  deriving DecidableEq

namespace Deck

/-- `tap_buffer[i]` -/
def byte (s : Deck) (i : Int) : UInt8 := s.tapBuffer.getD i.toNat 0

/-- `position` and `next_tap` moved together. -/
def move (s : Deck) (n : Int) : Deck :=
  { s with
    currentFileSeekPosition := s.currentFileSeekPosition + n
    nextTap := s.nextTap + n }

/-- The state an image is attached in: mirrors src/datasette/datasette.c:901, :909 -/
def attached (tapBuffer : Bytes) : Deck := ⟨0, 0, 0, tapBuffer⟩

end Deck

section
variable (t : Tape)

/-- `fseek` to `position` of the tape and `fread` of a buffer; none where the seek fails. -/
def refill (position : Int) (s : Deck) : Option Deck :=
  if position + t.offset < 0 then none
  else
    let bytes := (t.file.drop (position + t.offset).toNat).take tapBufferLength
    some { s with
      tapBuffer := bytes ++ s.tapBuffer.drop bytes.length
      lastTap := bytes.length }

/-- mirrors src/datasette/datasette.c:391-410 (`datasette_move_buffer_forward`) -/
def moveBufferForward (offset : Int) (s : Deck) : Bool × Deck :=
  if s.lastTap ≤ s.nextTap + offset then
    match refill t s.currentFileSeekPosition s with
    | none => (false, s)
    | some s => (decide (0 < s.lastTap), { s with nextTap := 0 })
  else (true, s)

/-- mirrors src/datasette/datasette.c:412-430 (`datasette_move_buffer_back`) -/
def moveBufferBack (offset : Int) (s : Deck) : Bool × Deck :=
  if s.nextTap + offset < 0 then
    let s := { s with
      nextTap := if (tapBufferLength : Int) ≤ s.currentFileSeekPosition then tapBufferLength
        else s.currentFileSeekPosition }
    match refill t (s.currentFileSeekPosition - s.nextTap) s with
    | none => (false, s)
    | some s => (decide (s.nextTap ≤ s.lastTap), s)
  else (true, s)

/-- The gap at `readTap` and the way to go for it: mirrors src/datasette/datasette.c:504-536
(`fetch_gap`) -/
def fetchGap (s : Deck) (direction readTap : Int) : Option (Nat × Int) :=
  if s.lastTap ≤ readTap ∨ readTap < 0 then none
  else
    let gap := (s.byte readTap).toNat
    if t.version = 0 ∨ gap ≠ 0 then
      some (if gap ≠ 0 then gap * 8 else t.zeroGapDelay, direction)
    else if s.lastTap - 3 ≤ readTap then none
    else
      let gap := (s.byte (readTap + 1)).toNat + (s.byte (readTap + 2)).toNat <<< 8 +
        (s.byte (readTap + 3)).toNat <<< 16
      some (if gap ≠ 0 then gap else t.zeroGapDelay, direction * 4)

/-- Back until three bytes in a row are not zero, or to the start of the tape, which is as many
turns away as the position says: mirrors src/datasette/datasette.c:562-573 -/
def scanBack : Nat → Nat → Deck → Bool × Deck
  | 0, _, s => (true, s)
  | fuel + 1, nonZerosInARow, s =>
    if nonZerosInARow < 3 ∧ s.currentFileSeekPosition ≠ 0 then
      match moveBufferBack t (-1) s with
      | (false, s) => (false, s)
      | (true, s) =>
        let s := s.move (-1)
        scanBack fuel (if s.byte s.nextTap ≠ 0 then nonZerosInARow + 1 else 0) s
    else (true, s)

/-- Gap by gap up to `limit`, at least one byte a turn: mirrors src/datasette/datasette.c:575-587 -/
def walkForward (limit : Int) : Nat → Deck → Bool × Deck
  | 0, s => (true, s)
  | fuel + 1, s =>
    if s.currentFileSeekPosition < limit then
      match moveBufferForward t 1 s with
      | (false, s) => (false, s)
      | (true, s) => walkForward limit fuel (s.move (if s.byte s.nextTap ≠ 0 then 1 else 4))
    else (true, s)

/-- What the source returns, 1 or -1 for the two failures, with the index of the gap:
mirrors src/datasette/datasette.c:548-597 (`read_gap_backward_v1`) -/
def readGapBackwardV1 (s : Deck) : Int × Int × Deck :=
  let rememberFileSeekPosition := s.currentFileSeekPosition
  let s := s.move (-4)
  match scanBack t s.currentFileSeekPosition.toNat 0 s with
  | (false, s) => (1, 0, s)
  | (true, s) =>
    let limit := rememberFileSeekPosition - 4
    match walkForward t limit (limit - s.currentFileSeekPosition).toNat s with
    | (false, s) => (-1, 0, s)
    | (true, s) =>
      match moveBufferForward t 4 s with
      | (false, s) => (-1, 0, s)
      | (true, s) => (0, s.nextTap, s.move (rememberFileSeekPosition - s.currentFileSeekPosition))

/-- `fetch_gap`, and the position moved by what it says: mirrors src/datasette/datasette.c:627-631 -/
def takeGap (direction readTap : Int) (s : Deck) : Nat × Deck :=
  match fetchGap t s direction readTap with
  | none => (0, s)
  | some (gap, direction) => (gap, s.move direction)

/-- Direction 1: mirrors src/datasette/datasette.c:615-631 -/
def readGapForward (s : Deck) : Nat × Deck :=
  match moveBufferForward t 4 s with
  | (false, s) => (0, s)
  | (true, s) => takeGap t 1 s.nextTap s

/-- Direction -1: mirrors src/datasette/datasette.c:612-631 -/
def readGapBackward (s : Deck) : Nat × Deck :=
  match moveBufferBack t (-4) s with
  | (false, s) => (0, s)
  | (true, s) =>
    if t.version = 0 ∨ s.nextTap < 4 ∨ s.byte (s.nextTap - 4) ≠ 0 then
      takeGap t (-1) (s.nextTap - 1) s
    else
      let (status, readTap, s) := readGapBackwardV1 t s
      if status < 0 then (0, s) else takeGap t (-1) readTap s

/-- The two directions of `datasette_read_gap`. -/
inductive Direction
  | forward
  | rewind
  deriving DecidableEq

/-- mirrors src/datasette/datasette.c:599-631, :692 (`datasette_read_gap`) -/
def datasetteReadGap (direction : Direction) (s : Deck) : Nat × Deck :=
  match direction with
  | .forward => readGapForward t s
  | .rewind => readGapBackward t s

/-- `n` calls, with the gaps they returned. -/
def readGaps (direction : Direction) : Nat → Deck → List Nat × Deck
  | 0, s => ([], s)
  | n + 1, s =>
    let (gap, s) := datasetteReadGap t direction s
    let (gaps, s) := readGaps direction n s
    (gap :: gaps, s)

end

/-! ## The tape without the deck -/

namespace Tape
variable (t : Tape)

/-- The tape without the header. -/
def length : Nat := t.file.length - t.offset

def byteAt (p : Nat) : UInt8 := t.file.getD (t.offset + p) 0

/-- How long the gap that starts at `p` is written. -/
def step (p : Nat) : Nat := if t.version = 0 ∨ t.byteAt p ≠ 0 then 1 else 4

/-- And what it is worth. -/
def gap (p : Nat) : Nat :=
  let byte := (t.byteAt p).toNat
  if t.version = 0 ∨ byte ≠ 0 then if byte ≠ 0 then byte * 8 else t.zeroGapDelay
  else
    let gap := (t.byteAt (p + 1)).toNat + (t.byteAt (p + 2)).toNat <<< 8 +
      (t.byteAt (p + 3)).toNat <<< 16
    if gap ≠ 0 then gap else t.zeroGapDelay

/-- Where the next gap starts. -/
def next (p : Nat) : Nat := p + t.step p

/-- Gap by gap from the one position to the other. -/
inductive Chain : Nat → Nat → Prop
  | refl (p : Nat) : Chain p p
  | step {p q : Nat} (h : Chain (t.next p) q) : Chain p q

/-- A gap starts at `p`, or the tape ends after one. -/
def AtGap (p : Nat) : Prop := t.Chain 0 p ∧ p ≤ t.length

end Tape

end Vice.L4.Datasette
