import FramedChannel.Bytes

/-!
# Frames

The base framing of RFC 6455, section 5.2.  A frame is an inductive record of
its header fields and its unmasked payload, and `Frame.bytes` is its wire form
in the shortest length form.

* `OpCode` has the six defined codes; the control codes are those with bit 3.
* `MaskKey.apply` masks and unmasks (`apply_apply`).
* `header` writes a frame header, `headerLength` says how long a header is
  whose second byte is known.
-/

namespace FramedChannel.WebSocket

/-! ## Operation codes -/

/-- What a frame carries. -/
inductive OpCode where
  | continuation
  | text
  | binary
  | close
  | ping
  | pong
  deriving DecidableEq, Repr

namespace OpCode

/-- The four bits of an operation code. -/
def code : OpCode → UInt8
  | continuation => 0x0
  | text => 0x1
  | binary => 0x2
  | close => 0x8
  | ping => 0x9
  | pong => 0xA

/-- The operation code with given bits. -/
def ofCode? (code : UInt8) : Option OpCode :=
  if code = 0x0 then some continuation
  else if code = 0x1 then some text
  else if code = 0x2 then some binary
  else if code = 0x8 then some close
  else if code = 0x9 then some ping
  else if code = 0xA then some pong
  else none

/-- Close, ping and pong are control codes. -/
def isControl (op : OpCode) : Bool :=
  op.code &&& 0x8 != 0

/-- The name of an operation code. -/
def name : OpCode → String
  | continuation => "Continuation"
  | text => "Text"
  | binary => "Binary"
  | close => "Close"
  | ping => "Ping"
  | pong => "Pong"

/-- All operation codes. -/
def all : List OpCode :=
  [continuation, text, binary, close, ping, pong]

/-- The operation code with a given name. -/
def ofName? (text : String) : Option OpCode :=
  all.find? (·.name == text)

@[simp] theorem ofCode?_code (op : OpCode) : ofCode? op.code = some op := by
  cases op <;> rfl

end OpCode

/-! ## Masking -/

/-- The four bytes of a masking key. -/
structure MaskKey where
  first : UInt8
  second : UInt8
  third : UInt8
  fourth : UInt8
  deriving DecidableEq, Repr

namespace MaskKey

/-- The byte of a key for the payload byte at an index. -/
def byte (key : MaskKey) (index : Nat) : UInt8 :=
  match index % 4 with
  | 0 => key.first
  | 1 => key.second
  | 2 => key.third
  | _ => key.fourth

/-- The key as it stands in a header. -/
def bytes (key : MaskKey) : Bytes :=
  [key.first, key.second, key.third, key.fourth]

/-- The key that starts a byte string. -/
def ofBytes? : Bytes → Option MaskKey
  | a :: b :: c :: d :: _ => some ⟨a, b, c, d⟩
  | _ => none

/-- A payload with every byte combined with its byte of the key. -/
def apply (key : MaskKey) (payload : Bytes) : Bytes :=
  payload.mapIdx fun index byte => byte ^^^ key.byte index

@[simp] theorem length_apply (key : MaskKey) (payload : Bytes) :
    (key.apply payload).length = payload.length := by
  simp [apply]

/-- Masking twice gives the payload back. -/
@[simp] theorem apply_apply (key : MaskKey) (payload : Bytes) :
    key.apply (key.apply payload) = payload := by
  apply List.ext_getElem
  · simp
  · intro i hi hj
    simp only [apply, List.getElem_mapIdx, UInt8.xor_assoc, UInt8.xor_self, UInt8.xor_zero]

end MaskKey

/-! ## Headers -/

/-- The bit of the first byte that marks the last frame of a message. -/
def finBit : UInt8 := 0x80

/-- The reserved bits of the first byte. -/
def reservedBits : UInt8 := 0x70

/-- The bit of the second byte that says that a masking key follows. -/
def maskBit : UInt8 := 0x80

/-- The most bytes that a control frame may carry. -/
def maxControlPayload : Nat := 125

/-- The length of a header with a given second byte. -/
def headerLength (second : UInt8) : Nat :=
  let extended :=
    if second &&& 0x7F = 126 then 2
    else if second &&& 0x7F = 127 then 8
    else 0
  let mask := if second &&& maskBit ≠ 0 then 4 else 0
  2 + extended + mask

/-- A frame header with the shortest form of the payload length. -/
def header (fin : Bool) (op : OpCode) (length : Nat) (mask : Option MaskKey) : Bytes :=
  let first := (if fin then finBit else 0) ||| op.code
  let bit := if mask.isSome then maskBit else 0
  let size :=
    if length < 126 then [bit ||| UInt8.ofNat length]
    else if length < 65536 then (bit ||| 126) :: Bytes.ofNat 2 length
    else (bit ||| 127) :: Bytes.ofNat 8 length
  first :: size ++ (mask.map MaskKey.bytes).getD []

/-! ## Frames -/

/-- A frame. -/
structure Frame where
  fin : Bool
  op : OpCode
  mask : Option MaskKey
  /-- The payload before masking. -/
  payload : Bytes
  deriving DecidableEq, Repr

/-- A payload as it stands in a frame with the given mask. -/
def masked (mask : Option MaskKey) (payload : Bytes) : Bytes :=
  match mask with
  | none => payload
  | some key => key.apply payload

/-- The wire form of a frame. -/
def Frame.bytes (frame : Frame) : Bytes :=
  header frame.fin frame.op frame.payload.length frame.mask ++ masked frame.mask frame.payload

end FramedChannel.WebSocket
