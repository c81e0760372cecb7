import FramedChannel.WebSocket.Message
import FramedChannel.WebSocket.Upgrade

/-!
# Outgoing messages

A message becomes the frames of `framesOf`: one frame, or consecutive slices of
its payload when it is a data message longer than a frame may be.  Draft-00 has
no frames: a text stands between two mark bytes, and a close is two bytes.

* `encodeFramed` writes the frames of a message.  Servers do not mask; clients
  mask each frame with a key of its own.
* `encodeDraft` writes a draft-00 message, or says what draft-00 cannot carry.
* `encodeFor` chooses between the two by the negotiated version.
* `Encoder.encode` does the same at the end of a buffer, where payloads are
  masked in place, and says how many bytes it wrote.  `Encoder.written` is what
  it writes into an empty one.
-/

namespace FramedChannel.WebSocket

/-- A list in consecutive slices of `size` elements, the last of which may be shorter. -/
def slices {α : Type} (size : Nat) (items : List α) : List (List α) :=
  if 0 < size ∧ 0 < items.length then items.take size :: slices size (items.drop size) else []
termination_by items.length
decreasing_by simp only [List.length_drop]; omega

/-- The payloads of the frames of a message: all in one, or slices of at most `maxPayload` bytes. -/
def payloadsOf (op : OpCode) (data : Bytes) (maxPayload : Nat) : List Bytes :=
  if op.isControl || maxPayload = 0 || data.isEmpty then [data] else slices maxPayload data

/-- Frames for payloads: the first has the operation code of the message and all others continue
it, and only the last is final.  `index` counts the frames, and `keys` gives their masks. -/
def framesFrom (op : OpCode) (keys : Nat → Option MaskKey) (index : Nat) :
    List Bytes → List Frame
  | [] => []
  | payload :: rest =>
    ⟨rest.isEmpty, op, keys index, payload⟩ :: framesFrom .continuation keys (index + 1) rest

/-- The frames of a message. -/
def framesOf (message : Message) (maxPayload : Nat) (keys : Nat → Option MaskKey) : List Frame :=
  framesFrom message.op keys 0 (payloadsOf message.op message.data maxPayload)

/-- The bytes of the frames of a message. -/
def encodeFramed (message : Message) (maxPayload : Nat) (keys : Nat → Option MaskKey) : Bytes :=
  (framesOf message maxPayload keys).flatMap Frame.bytes

/-- No masks, as servers send. -/
def unmasked : Nat → Option MaskKey :=
  fun _ => none

/-- The bytes of a draft-00 message. -/
def encodeDraft (message : Message) : Except Error Bytes :=
  match message.op with
  | .text =>
    if Utf8.isText message.data then .ok (0x00 :: message.data ++ [0xFF])
    else .error (.protocol .messageNotText)
  | .close => .ok [0xFF, 0x00]
  | _ => .error (.notImplemented .beyondTextAndClose)

/-- The bytes of a message for a version, as a server sends it. -/
def encodeFor (version : Version) (maxPayload : Nat) (message : Message) : Except Error Bytes :=
  if version.isFramed then .ok (encodeFramed message maxPayload unmasked)
  else encodeDraft message

/-! ## Buffers -/

/-- A buffer with all bytes from an offset on masked. -/
def maskFrom (mask : Option MaskKey) (offset : Nat) (buffer : Bytes) : Bytes :=
  buffer.take offset ++ masked mask (buffer.drop offset)

/-- A buffer with a frame at its end.  The payload is written behind the header as it is, and then
masked where it stands. -/
def appendFrame (buffer : Bytes) (frame : Frame) : Bytes :=
  let headed := buffer ++ header frame.fin frame.op frame.payload.length frame.mask
  maskFrom frame.mask headed.length (headed ++ frame.payload)

/-- A buffer with a frame for each part of a payload at its end. -/
def appendParts (op : OpCode) (keys : Nat → Option MaskKey) (index : Nat) (buffer : Bytes) :
    List Bytes → Bytes
  | [] => buffer
  | part :: rest =>
    appendParts .continuation keys (index + 1)
      (appendFrame buffer ⟨rest.isEmpty, op, keys index, part⟩) rest

/-- The size of the parts of a payload.  It is never 0. -/
def partSize (op : OpCode) (length maxPayload : Nat) : Nat :=
  if maxPayload = 0 || op.isControl then max length 1 else maxPayload

/-- A buffer with a message at its end.  A payload without parts makes one empty frame. -/
def appendMessage (buffer : Bytes) (message : Message) (maxPayload : Nat)
    (keys : Nat → Option MaskKey) : Bytes :=
  match slices (partSize message.op message.data.length maxPayload) message.data with
  | [] => buffer ++ header true message.op 0 (keys 0)
  | parts => appendParts message.op keys 0 buffer parts

/-- What writes messages. -/
inductive Encoder where
  /-- Frames without masks. -/
  | server (maxPayload : Nat)
  /-- Frames with a masking key each. -/
  | client (maxPayload : Nat) (keys : Nat → MaskKey)
  | draft

namespace Encoder

/-- The encoder of a server for a version. -/
def forVersion (version : Version) (maxPayload : Nat) : Encoder :=
  if version.isFramed then .server maxPayload else .draft

/-- Writes a message at the end of a buffer: the buffer, and how many bytes were written or why none
were. -/
def encode (encoder : Encoder) (buffer : Bytes) (message : Message) : Bytes × Except Error Nat :=
  match encoder with
  | .server maxPayload =>
    let written := appendMessage buffer message maxPayload unmasked
    (written, .ok (written.length - buffer.length))
  | .client maxPayload keys =>
    let written := appendMessage buffer message maxPayload fun index => some (keys index)
    (written, .ok (written.length - buffer.length))
  | .draft =>
    match message.op with
    | .text =>
      if Utf8.isText message.data then
        (buffer ++ [0x00] ++ message.data ++ [0xFF], .ok (message.data.length + 2))
      else (buffer, .error (.protocol .messageNotText))
    | .close => (buffer ++ [0xFF, 0x00], .ok 2)
    | _ => (buffer, .error (.notImplemented .beyondTextAndClose))

/-- What is written of a message into an empty buffer, if it can be written. -/
def written (encoder : Encoder) (message : Message) : Except Error Bytes :=
  let (buffer, result) := encoder.encode [] message
  result.map fun _ => buffer

/-- Writes messages one behind the other, whether or not some of them cannot be written. -/
def encodeAll (encoder : Encoder) (buffer : Bytes) :
    List Message → Bytes × List (Except Error Nat)
  | [] => (buffer, [])
  | message :: rest =>
    let (buffer, result) := encoder.encode buffer message
    let (buffer, results) := encoder.encodeAll buffer rest
    (buffer, result :: results)

end Encoder

end FramedChannel.WebSocket
