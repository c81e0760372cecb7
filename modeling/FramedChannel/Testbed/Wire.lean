import FramedChannel.Channel.Batch

/-!
# Wires

A wire is a transport in memory, seen from the channel's end.

* A duplex has one pipe in each direction, and a peer at the other end.
* A script yields given bytes, then ends in a given way, and takes what is
  written to it within given limits.

`Wire.read` and `Wire.write` answer a channel, and `Wire.canRead` and
`Wire.canWrite` say beforehand whether there is an answer.
-/

namespace FramedChannel.Testbed

/-! ## Pipes -/

/-- One direction of a duplex. -/
structure Pipe where
  capacity : Nat
  /-- The bytes that nobody has read. -/
  held : Bytes := []
  /-- Whether one end is closed.  What is held can still be read. -/
  isClosed : Bool := false
  deriving DecidableEq, Repr

namespace Pipe

/-- How many bytes fit. -/
def room (p : Pipe) : Nat :=
  p.capacity - p.held.length

/-- The pipe with one end closed. -/
def close (p : Pipe) : Pipe :=
  { p with isClosed := true }

/-- Reads at most `limit` bytes. -/
def read (p : Pipe) (limit : Nat) : Bytes × Pipe :=
  (p.held.take limit, { p with held := p.held.drop limit })

/-- Writes as many bytes as fit. -/
def write (p : Pipe) (bytes : Bytes) : Nat × Pipe :=
  let count := min p.room bytes.length
  (count, { p with held := p.held ++ bytes.take count })

end Pipe

/-! ## Scripts -/

/-- How reading a script ends. -/
inductive Ending where
  | finished
  | stalled
  | failed (fault : TransportFault)
  deriving DecidableEq, Repr

/-- A transport that follows a script. -/
structure Script where
  /-- The bytes that it yields, no read going past a chunk. -/
  chunks : List Bytes
  ending : Ending
  /-- The most bytes that it takes at once. -/
  maxWrite : Option Nat := none
  /-- How many bytes it takes altogether. -/
  writeLimit : Option Nat := none
  /-- How it fails behind the last byte that it takes.  Without a fault it takes nothing. -/
  writeFault : Option TransportFault := none
  /-- The bytes that it took. -/
  written : Bytes := []
  isShutDown : Bool := false
  deriving DecidableEq, Repr

namespace Script

/-- Whether it takes no more bytes. -/
def isExhausted (s : Script) : Bool :=
  s.writeLimit.any (· ≤ s.written.length)

/-- How many of some bytes it takes at once. -/
def accepts (s : Script) (offered : Nat) : Nat :=
  let count := min offered (s.maxWrite.getD offered)
  s.writeLimit.elim count fun limit => min count (limit - s.written.length)

/-- What it does with an offer. -/
def write (s : Script) (bytes : Bytes) : Writing × Script :=
  match s.isExhausted, s.writeFault with
  | true, some fault => (.failed fault, s)
  | _, _ =>
    let count := s.accepts bytes.length
    (.took count, { s with written := s.written ++ bytes.take count })

end Script

/-! ## Wires -/

/-- A transport in memory. -/
inductive Wire where
  | duplex (incoming outgoing : Pipe)
  | script (s : Script)
  deriving DecidableEq, Repr

/-- What reading from a wire gives. -/
inductive Reading where
  | bytes (bytes : Bytes)
  | finished
  | failed (fault : TransportFault)
  | blocked
  deriving DecidableEq, Repr

namespace Wire

/-- A duplex whose pipes hold `capacity` bytes each. -/
def ofCapacity (capacity : Nat) : Wire :=
  .duplex { capacity } { capacity }

/-- Whether reading gives anything. -/
def canRead : Wire → Bool
  | .duplex incoming _ => !incoming.held.isEmpty || incoming.isClosed
  | .script s => !(s.chunks.all List.isEmpty && s.ending == .stalled)

/-- Whether writing does anything. -/
def canWrite : Wire → Bool
  | .duplex _ outgoing => outgoing.isClosed || 0 < outgoing.room
  | .script _ => true

/-- Reads at most `limit` bytes. -/
def read (limit : Nat) : Wire → Reading × Wire
  | .duplex incoming outgoing =>
    if !incoming.held.isEmpty then
      let (bytes, incoming) := incoming.read limit
      (.bytes bytes, .duplex incoming outgoing)
    else if incoming.isClosed then (.finished, .duplex incoming outgoing)
    else (.blocked, .duplex incoming outgoing)
  | .script s =>
    match s.chunks.dropWhile List.isEmpty with
    | chunk :: rest =>
      (.bytes (chunk.take limit), .script { s with chunks := chunk.drop limit :: rest })
    | [] =>
      match s.ending with
      | .finished => (.finished, .script s)
      | .stalled => (.blocked, .script s)
      | .failed fault => (.failed fault, .script s)

/-- Offers slices. -/
def write (w : Wire) (slices : List Bytes) : Writing × Wire :=
  let bytes := slices.flatten
  match w with
  | .duplex incoming outgoing =>
    if outgoing.isClosed then (.failed .brokenPipe, w)
    else if outgoing.room = 0 then (.blocked, w)
    else
      let (count, outgoing) := outgoing.write bytes
      (.took count, .duplex incoming outgoing)
  | .script s =>
    let (writing, s) := s.write bytes
    (writing, .script s)

/-- A wire as a writer.  It passes on at once what it takes. -/
def writer : Batch.Writer Wire where
  write := write
  flush := fun w => (.written, w)

/-- Shuts the write side down. -/
def shutDown : Wire → Wire
  | .duplex incoming outgoing => .duplex incoming outgoing.close
  | .script s => .script { s with isShutDown := true }

/-- The channel lets go of its end. -/
def letGo : Wire → Wire
  | .duplex incoming outgoing => .duplex incoming.close outgoing.close
  | .script s => .script s

/-! ## The peer's end -/

/-- The peer writes what fits.  There is no count once the channel's end is closed. -/
def peerWrite (w : Wire) (bytes : Bytes) : Option Nat × Wire :=
  match w with
  | .duplex incoming outgoing =>
    if incoming.isClosed then (none, w)
    else
      let (count, incoming) := incoming.write bytes
      (some count, .duplex incoming outgoing)
  | .script _ => (none, w)

/-- The peer reads at most `limit` bytes. -/
def peerRead (w : Wire) (limit : Nat) : Bytes × Wire :=
  match w with
  | .duplex incoming outgoing =>
    let (bytes, outgoing) := outgoing.read limit
    (bytes, .duplex incoming outgoing)
  | .script _ => ([], w)

/-- Whether the peer is at the end of what it can read. -/
def isFinished : Wire → Bool
  | .duplex _ outgoing => outgoing.isClosed && outgoing.held.isEmpty
  | .script _ => true

/-- The peer ends its writing. -/
def peerShutDown : Wire → Wire
  | .duplex incoming outgoing => .duplex incoming.close outgoing
  | .script s => .script s

/-- The peer is gone. -/
def peerDrop : Wire → Wire
  | .duplex incoming outgoing => .duplex incoming.close outgoing.close
  | .script s => .script s

/-- How many bytes are on the wire. -/
def load : Wire → Nat
  | .duplex incoming outgoing => incoming.held.length + outgoing.held.length
  | .script s => Bytes.total s.chunks + s.chunks.length

end Wire

end FramedChannel.Testbed
