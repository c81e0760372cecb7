import FramedChannel.Bytes

/-!
# UTF-8

Text as bytes and back.  `Utf8.decode` runs a machine over the bytes that
knows, between two bytes of one character, how many continuation bytes are
owed and which range the next one lies in.  A refusal names the offset of the
first byte of the character that failed, and how many of its bytes were
acceptable, or that the input ended inside it.
-/

namespace FramedChannel.Utf8

/-- Why a byte string is not UTF-8. -/
inductive Fault where
  /-- The bytes at `offset` start no character; `length` of them were acceptable so far. -/
  | invalid (offset length : Nat)
  /-- The input ends inside the character that starts at `offset`. -/
  | incomplete (offset : Nat)
  deriving DecidableEq, Repr

namespace Fault

/-- The wording of a fault. -/
def message : Fault → String
  | invalid offset length => s!"invalid utf-8 sequence of {length} bytes from index {offset}"
  | incomplete offset => s!"incomplete utf-8 byte sequence from index {offset}"

end Fault

/-- A character of which some bytes have been read. -/
structure Open where
  /-- Continuation bytes still owed, the next one included. -/
  owed : Nat
  /-- The least value of the next byte. -/
  low : UInt8
  /-- The greatest value of the next byte. -/
  high : UInt8
  /-- The bits read so far. -/
  value : Nat
  /-- The bytes read so far. -/
  taken : Nat
  deriving DecidableEq, Repr

/-- What a lead byte opens: a whole character, a longer one, or nothing. -/
def lead (byte : UInt8) : Option (Char ⊕ Open) :=
  let n := byte.toNat
  if n < 0x80 then some (.inl (Char.ofNat n))
  else if n < 0xC2 then none
  else if n < 0xE0 then some (.inr ⟨1, 0x80, 0xBF, n - 0xC0, 1⟩)
  else if n = 0xE0 then some (.inr ⟨2, 0xA0, 0xBF, 0, 1⟩)
  else if n = 0xED then some (.inr ⟨2, 0x80, 0x9F, 13, 1⟩)
  else if n < 0xF0 then some (.inr ⟨2, 0x80, 0xBF, n - 0xE0, 1⟩)
  else if n = 0xF0 then some (.inr ⟨3, 0x90, 0xBF, 0, 1⟩)
  else if n < 0xF4 then some (.inr ⟨3, 0x80, 0xBF, n - 0xF0, 1⟩)
  else if n = 0xF4 then some (.inr ⟨3, 0x80, 0x8F, 4, 1⟩)
  else none

/-- The characters of a byte string whose first byte has offset `start`.  `cursor` holds the
character that is open, if one is, and `start` then is the offset of its first byte. -/
def decodeFrom (start : Nat) (cursor : Option Open) (done : List Char) :
    Bytes → Except Fault (List Char)
  | [] =>
    match cursor with
    | none => .ok done.reverse
    | some _ => .error (.incomplete start)
  | byte :: rest =>
    match cursor with
    | none =>
      match lead byte with
      | none => .error (.invalid start 1)
      | some (.inl c) => decodeFrom (start + 1) none (c :: done) rest
      | some (.inr opened) => decodeFrom start (some opened) done rest
    | some c =>
      if c.low ≤ byte ∧ byte ≤ c.high then
        let value := c.value * 64 + (byte.toNat - 0x80)
        if c.owed ≤ 1 then decodeFrom (start + c.taken + 1) none (Char.ofNat value :: done) rest
        else decodeFrom start (some ⟨c.owed - 1, 0x80, 0xBF, value, c.taken + 1⟩) done rest
      else .error (.invalid start c.taken)

/-- The text that a byte string encodes. -/
def decode (bytes : Bytes) : Except Fault String :=
  (decodeFrom 0 none [] bytes).map String.ofList

/-- The bytes of a text. -/
def encode (text : String) : Bytes :=
  text.toList.flatMap String.utf8EncodeChar

/-- Whether a byte string is the encoding of some text. -/
def isText (bytes : Bytes) : Bool :=
  (decode bytes).isOk

end FramedChannel.Utf8
