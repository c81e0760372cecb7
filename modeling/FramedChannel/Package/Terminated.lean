import FramedChannel.Package.Decoder

/-!
# Terminated packages and lines

A terminated package is everything before the next occurrence of a terminator,
which is used up and not part of the package.  Bytes that were searched in vain
are not searched again: `scanned` is the first offset at which an occurrence
can still start.

A line is a package that CR LF terminates and that must be text.
-/

namespace FramedChannel

/-! ## Terminated packages -/

/-- The decoder of packages before a terminator. -/
structure Terminated where
  terminator : Bytes
  /-- No occurrence of the terminator starts before this offset. -/
  scanned : Nat := 0
  deriving DecidableEq, Repr

namespace Terminated

/-- The decoder for a terminator, which must not be empty. -/
def of (terminator : Bytes) : Except Breach Terminated :=
  if terminator.isEmpty then .error .emptyTerminator else .ok { terminator }

/-- The decoder that searches from the first byte. -/
def reset (t : Terminated) : Terminated :=
  { t with scanned := 0 }

/-- The package in front of the terminator, if the terminator occurs, with the number of bytes
up to and including the terminator. -/
def split (t : Terminated) (bytes : Bytes) : Terminated × Option (Bytes × Nat) :=
  match Bytes.find t.terminator bytes t.scanned with
  | some position =>
    (t.reset, some (bytes.take position, position + t.terminator.length))
  | none => ({ t with scanned := bytes.length - (t.terminator.length - 1) }, none)

instance : PackageDecoder Terminated Bytes where
  attempt t bytes :=
    match t.split bytes with
    | (t, some (package, used)) => .complete t used package
    | (t, none) => .needMore t
  next? _ := none
  reset := reset
  discards _ := false
  withLimit t _ := t

end Terminated

/-! ## Lines -/

/-- The end of a line. -/
def crlf : Bytes :=
  [0x0D, 0x0A]

/-- The decoder of CR LF terminated text lines. -/
structure LineDecoder where
  packages : Terminated := { terminator := crlf }
  deriving DecidableEq, Repr

namespace LineDecoder

instance : PackageDecoder LineDecoder String where
  attempt d bytes :=
    match d.packages.split bytes with
    | (t, some (line, used)) =>
      match Utf8.decode line with
      | .ok text => .complete ⟨t⟩ used text
      | .error fault => .fail ⟨t⟩ used (.protocol (.lineNotText fault))
    | (t, none) => .needMore ⟨t⟩
  next? _ := none
  reset d := ⟨d.packages.reset⟩
  discards _ := false
  withLimit d _ := d

end LineDecoder

/-- The bytes of a line with its terminator. -/
def encodeLine (terminator : Bytes) (line : String) : Bytes :=
  Utf8.encode line ++ terminator

/-- What writes lines. -/
structure LineEncoder where
  terminator : Bytes := crlf
  deriving DecidableEq, Repr

namespace LineEncoder

/-- Writes a line with its terminator at the end of a buffer: the buffer, and how many bytes were
written. -/
def encode (encoder : LineEncoder) (buffer : Bytes) (line : String) : Bytes × Nat :=
  (buffer ++ Utf8.encode line ++ encoder.terminator,
    (Utf8.encode line).length + encoder.terminator.length)

/-- Writes lines one behind the other. -/
def encodeAll (encoder : LineEncoder) (buffer : Bytes) : List String → Bytes × List Nat
  | [] => (buffer, [])
  | line :: rest =>
    let (buffer, count) := encoder.encode buffer line
    let (buffer, counts) := encoder.encodeAll buffer rest
    (buffer, count :: counts)

end LineEncoder

end FramedChannel
