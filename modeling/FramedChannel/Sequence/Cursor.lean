import FramedChannel.Sequence

/-!
# Cursors

A cursor stands at a byte of a sequence: in segment number `segment`, `offset`
bytes behind its start.  It also counts the bytes that it has moved past.  A
move that the caller must not ask for, and an access behind the last segment,
is a `Breach`; a read for which too few bytes are left is `none` and moves
nothing.
-/

namespace FramedChannel

/-- A place in a sequence. -/
structure Cursor where
  sequence : Sequence
  consumed : Nat := 0
  segment : Nat := 0
  offset : Nat := 0
  deriving DecidableEq, Repr

/-- The cursor before the first byte of a sequence. -/
def Sequence.cursor (s : Sequence) : Cursor :=
  { sequence := s }

namespace Cursor

/-- How many bytes the sequence has. -/
def length (c : Cursor) : Nat :=
  c.sequence.length

/-- How many bytes are left. -/
def remaining (c : Cursor) : Nat :=
  c.sequence.length - c.consumed

/-- Whether no byte is left. -/
def isEnd (c : Cursor) : Bool :=
  c.remaining == 0

/-- The bytes that are left. -/
def bytes (c : Cursor) : Bytes :=
  match c.sequence.segments.drop c.segment with
  | [] => []
  | segment :: rest => segment.drop c.offset ++ rest.flatten

/-! ## Moving -/

/-- The place `count` bytes further on. -/
def walk (segments : List Bytes) (segment offset count : Nat) : Except Breach (Nat × Nat) :=
  if count = 0 then .ok (segment, offset)
  else if hin : segment < segments.length then
    let left := segments[segment].length - offset
    if count < left then .ok (segment, offset + count)
    else walk segments (segment + 1) 0 (count - left)
  else .error .noSuchSegment
termination_by segments.length - segment

/-- The cursor `count` bytes further on. -/
def advance (c : Cursor) (count : Nat) : Except Breach Cursor := do
  if count ≤ c.remaining then
    let (segment, offset) ← walk c.sequence.segments c.segment c.offset count
    .ok { c with consumed := c.consumed + count, segment, offset }
  else .error .advancePastCursor

/-- The cursor `count` bytes further back: it starts over and moves to its new place. -/
def rewind (c : Cursor) (count : Nat) : Except Breach Cursor :=
  if count ≤ c.consumed then c.sequence.cursor.advance (c.consumed - count)
  else .error .rewindPastStart

/-! ## Reading -/

/-- The place of the next byte: segments that are used up are passed over. -/
def settle (segments : List Bytes) (segment offset : Nat) : Option (Nat × Nat) :=
  if hin : segment < segments.length then
    if offset < segments[segment].length then some (segment, offset)
    else settle segments (segment + 1) 0
  else none
termination_by segments.length - segment

/-- The run of bytes at the cursor that lies in one segment. -/
def current (c : Cursor) : Option Bytes :=
  match settle c.sequence.segments c.segment c.offset with
  | none => none
  | some (segment, offset) => (c.sequence.segments[segment]?).map (·.drop offset)

/-- The next byte. -/
def peek (c : Cursor) : Option UInt8 :=
  c.current.bind List.head?

/-- The `count` bytes from a place on. -/
def gather (segments : List Bytes) (segment offset count : Nat) : Except Breach Bytes :=
  if count = 0 then .ok []
  else if hin : segment < segments.length then
    let piece := (segments[segment].drop offset).take count
    (gather segments (segment + 1) 0 (count - piece.length)).map (piece ++ ·)
  else .error .noSuchSegment
termination_by segments.length - segment

/-- The next `count` bytes, if there are as many. -/
def peekInto (c : Cursor) (count : Nat) : Except Breach (Option Bytes) :=
  if count ≤ c.remaining then (gather c.sequence.segments c.segment c.offset count).map some
  else .ok none

/-- The `count` bytes from a place on, cut out of the first segment that is not used up there. -/
def cut (segments : List Bytes) (segment offset count : Nat) : Except Breach Bytes :=
  if hin : segment < segments.length then
    if segments[segment].length ≤ offset then cut segments (segment + 1) 0 count
    else .ok ((segments[segment].drop offset).take count)
  else .error .noSuchSegment
termination_by segments.length - segment

/-- The next `count` bytes, if there are as many, and the cursor behind them.  Bytes that lie in
one segment are cut out of it; others are gathered. -/
def readBytes (c : Cursor) (count : Nat) : Except Breach (Option Bytes × Cursor) := do
  if c.remaining < count then .ok (none, c)
  else if count = 0 then .ok (some [], c)
  else
    let inOne := c.current.any fun run => count ≤ run.length
    let read := if inOne then cut else gather
    let bytes ← read c.sequence.segments c.segment c.offset count
    let behind ← c.advance count
    .ok (some bytes, behind)

/-- The next `count` bytes as a big-endian number. -/
def readNumber (c : Cursor) (count : Nat) : Except Breach (Option Nat × Cursor) := do
  match ← c.peekInto count with
  | none => .ok (none, c)
  | some bytes =>
    let behind ← c.advance count
    .ok (some (Bytes.toNat bytes), behind)

/-- The next byte, and the cursor behind it. -/
def readByte (c : Cursor) : Except Breach (Option UInt8 × Cursor) := do
  match c.peek with
  | none => .ok (none, c)
  | some byte =>
    let behind ← c.advance 1
    .ok (some byte, behind)

/-- The smallest offset from the cursor, not below `start`, at which `delimiter` occurs.  An empty
delimiter occurs nowhere. -/
def positionOf (c : Cursor) (delimiter : Bytes) (start : Nat) : Option Nat :=
  if delimiter.isEmpty || c.remaining ≤ start then none
  else Bytes.slide delimiter [] start (c.bytes.drop start)

end Cursor

namespace Sequence

/-- The `count` bytes from `start` on, if they are all there. -/
def slice (s : Sequence) (start count : Nat) : Except Breach (Option Bytes) := do
  if s.length < start then .ok none
  else
    let c ← s.cursor.advance start
    let (bytes, _) ← c.readBytes count
    .ok bytes

/-- The text that the `count` bytes from `start` on encode. -/
def decodeText (s : Sequence) (start count : Nat) : Except Breach (Except Error String) := do
  match ← s.slice start count with
  | none => .ok (.error (.protocol .rangePastEnd))
  | some bytes =>
    .ok ((Utf8.decode bytes).mapError fun fault => .protocol (.rangeNotText fault))

end Sequence

end FramedChannel
