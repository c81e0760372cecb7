import FramedChannel.Package.FixedSize
import FramedChannel.Package.Reassembly
import FramedChannel.Package.Terminated
import FramedChannel.Sequence.Cursor

/-!
# Decoders that read at a cursor

`PackageDecoder.attempt` is given the bytes that wait as one string.  The bytes
lie in the segments in which they were received, and the decoders of lines, of
terminated packages and of packages of a fixed size read them there, at a cursor.

* `Terminated.cutAt` searches for a terminator from a cursor on, and reads what
  is in front of it.
* `Terminated.walk`, `LineDecoder.walk` and `FixedSize.walk` are the attempts of
  the three decoders.
* `Reassembly.passAt`, `passesAt` and `decodeAt` are the passes of a reassembly
  whose decoder reads so.
-/

namespace FramedChannel

/-- What a decoder did that reads at a cursor. -/
structure Walk (σ π : Type) where
  state : σ
  result : Except Error (Option π)
  /-- The cursor behind the bytes that were used. -/
  cursor : Cursor

/-- The same as an attempt, if the cursor began in front of all bytes. -/
def Walk.attempt {σ π : Type} (walk : Walk σ π) : Attempt σ π :=
  ⟨walk.state, walk.cursor.consumed, [], walk.result⟩

/-! ## The decoders -/

/-- The bytes in front of the next terminator, if it occurs, and the cursor behind it. -/
def Terminated.cutAt (t : Terminated) (c : Cursor) :
    Except Breach (Terminated × Option Bytes × Cursor) := do
  match c.positionOf t.terminator t.scanned with
  | none =>
    -- The terminator may begin in the last bytes that are there.
    return ({ t with scanned := c.remaining - (t.terminator.length - 1) }, none, c)
  | some position =>
    match ← c.readBytes position with
    | (none, c) => return (t, none, c)
    | (some package, c) =>
      let behind ← c.advance t.terminator.length
      return (t.reset, some package, behind)

def Terminated.walk (t : Terminated) (c : Cursor) : Except Breach (Walk Terminated Bytes) := do
  let (t, package, behind) ← t.cutAt c
  return ⟨t, .ok package, behind⟩

def LineDecoder.walk (d : LineDecoder) (c : Cursor) :
    Except Breach (Walk LineDecoder String) := do
  match ← d.packages.cutAt c with
  | (t, none, behind) => return ⟨⟨t⟩, .ok none, behind⟩
  | (t, some line, behind) =>
    match Utf8.decode line with
    | .ok text => return ⟨⟨t⟩, .ok (some text), behind⟩
    | .error fault => return ⟨⟨t⟩, .error (.protocol (.lineNotText fault)), behind⟩

def FixedSize.walk (d : FixedSize) (c : Cursor) : Except Breach (Walk FixedSize Bytes) := do
  let (package, behind) ← c.readBytes d.size
  return ⟨d, .ok package, behind⟩

/-! ## The passes -/

namespace Reassembly

variable {σ π : Type} [PackageDecoder σ π] (walk : σ → Cursor → Except Breach (Walk σ π))

/-- One call of a decoder that reads at a cursor in front of the bytes that wait. -/
def passAt (r : Reassembly σ) : Except Breach (List (Item π) × Verdict × Reassembly σ) := do
  let walked ← walk r.decoder r.pending.cursor
  return r.conclude walked.attempt

/-- Passes until one is the last, or until their number is used up. -/
def passesAt : Nat → Reassembly σ → Except Breach (List (Item π) × Verdict × Reassembly σ)
  | 0, r => return ([], .again, r)
  | count + 1, r => do
    match ← r.passAt walk with
    | (items, .again, r) =>
      let (more, verdict, r) ← passesAt count r
      return (items ++ more, verdict, r)
    | ended => return ended

/-- Everything that the buffered bytes complete. -/
def decodeAt (r : Reassembly σ) : Except Breach (List (Item π) × Verdict × Reassembly σ) :=
  passesAt walk (r.pending.length + 1) r

end Reassembly

end FramedChannel
