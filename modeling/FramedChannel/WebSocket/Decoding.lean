import FramedChannel.Options
import FramedChannel.Package.FixedSize
import FramedChannel.Package.Terminated
import FramedChannel.WebSocket.Message
import FramedChannel.WebSocket.Upgrade

/-!
# Incoming bytes of a WebSocket

The decoder walks through phases, and bytes that arrive with the end of one
phase are read by the next.

* `handshake` reads the upgrade request.
* `nonce` reads the eight bytes behind a draft-00 request.
* `frames` reads the frames of the framed versions, each in a header part and a
  payload part.
* `draftFrames` reads the messages of draft-00.
* `rejected` throws away whatever follows a request that was turned down.

What was negotiated, the header of the current frame and the fragments of the
current message live in a `Context` that all phases share.  `Context.beginFrame`
holds the rules for frame headers, and `Context.resolve` puts messages together.
-/

namespace FramedChannel.WebSocket

/-- What the decoder of a WebSocket hands out. -/
inductive Package where
  /-- The upgrade succeeded, and its reply is on the way. -/
  | handshake (info : HandshakeInfo)
  /-- No supported version was asked for, and a refusal is on the way. -/
  | rejected (request : Request)
  | message (message : Message)
  deriving DecidableEq, Repr

/-! ## The shared context -/

/-- What all phases of one connection share. -/
structure Context where
  options : WebSocketOptions
  version : Option Version := none
  subProtocol : Option String := none
  /-- The operation code of the current frame. -/
  op : OpCode := .continuation
  /-- Whether the current frame ends its message. -/
  fin : Bool := true
  /-- The payload length of the current frame. -/
  payloadLength : Nat := 0
  /-- The masking key of the current frame. -/
  mask : Option MaskKey := none
  /-- The operation code of the message whose fragments are being collected. -/
  messageOp : Option OpCode := none
  /-- The collected fragments, in order. -/
  fragments : List Bytes := []
  /-- How many bytes the collected fragments have. -/
  fragmentsLength : Nat := 0
  /-- The most bytes of a message, and 0 for no limit. -/
  maxMessageLength : Nat := 0
  deriving DecidableEq, Repr

namespace Context

/-- The context behind a completed upgrade. -/
def negotiated (context : Context) (version : Version) (subProtocol : Option String) : Context :=
  { context with version := some version, subProtocol }

/-- What is wrong with a data frame of the given length in this context. -/
def dataFault (context : Context) (op : OpCode) (length : Nat) : Option Violation :=
  let total := context.fragmentsLength + length
  if op = .continuation ∧ context.messageOp = none then some .strayContinuation
  else if op ≠ .continuation ∧ context.messageOp ≠ none then some .interleavedMessage
  else if 0 < context.maxMessageLength ∧ context.maxMessageLength < total then
    some (.messageTooLong total context.maxMessageLength)
  else none

/-- What is wrong with a control frame of the given length. -/
def controlFault (fin : Bool) (length : Nat) : Option Violation :=
  if !fin then some .fragmentedControl
  else if maxControlPayload < length then some (.controlTooLong length)
  else none

/-- The context whose current frame has the given header, or what is wrong with the header. -/
def beginFrame (context : Context) (first second : UInt8) (length : Nat) (mask : Option MaskKey) :
    Except Violation Context :=
  if first &&& reservedBits ≠ 0 then .error .reservedBits
  else
    match OpCode.ofCode? (first &&& 0x0F) with
    | none => .error (.unknownOpCode (first &&& 0x0F))
    | some op =>
      let fin := first &&& finBit != 0
      if context.options.requireMask ∧ second &&& maskBit = 0 then .error .unmaskedFrame
      else if 1 <<< 63 ≤ length then .error .lengthHighBit
      else
        let fault :=
          if op.isControl then controlFault fin length else context.dataFault op length
        match fault with
        | some violation => .error violation
        | none => .ok { context with op, fin, payloadLength := length, mask }

/-- The message that a finished frame completes.  A frame that is not the last of its message
becomes a fragment and completes none. -/
def resolve (context : Context) (payload : Bytes) : Context × Except Error (Option Package) :=
  if context.op.isControl then (context, .ok (some (.message ⟨context.op, payload⟩)))
  else if !context.fin then
    ({ context with
        messageOp := if context.op = .continuation then context.messageOp else some context.op
        fragments := context.fragments ++ [payload]
        fragmentsLength := context.fragmentsLength + payload.length },
      .ok none)
  else
    let (context, op, data) :=
      match context.messageOp with
      | none => (context, context.op, payload)
      | some op =>
        ({ context with messageOp := none, fragments := [], fragmentsLength := 0 }, op,
          (context.fragments ++ [payload]).flatten)
    if op = .text ∧ !Utf8.isText data then (context, .error (.protocol .messageNotText))
    else (context, .ok (some (.message ⟨op, data⟩)))

end Context

/-! ## Phases -/

/-- Which part of a frame comes next. -/
inductive FramePart where
  | header
  | payload
  deriving DecidableEq, Repr

/-- Where the decoder of draft-00 messages stands. -/
inductive DraftPart where
  /-- In front of a mark byte. -/
  | start
  | text (packages : Terminated)
  | close (packages : Terminated)
  deriving DecidableEq, Repr

/-- A phase of the protocol. -/
inductive Phase where
  | handshake (head : Terminated)
  /-- The request is gone once its nonce was tried. -/
  | nonce (info : Option HandshakeInfo)
  | frames (part : FramePart)
  | draftFrames (part : DraftPart)
  | rejected
  deriving DecidableEq, Repr

namespace Phase

/-- The name of a phase. -/
def name : Phase → String
  | handshake _ => "handshake"
  | nonce _ => "hybi00-nonce"
  | frames _ => "frames"
  | draftFrames _ => "hybi00-frames"
  | rejected => "rejected"

end Phase

/-- The decoder of the incoming bytes of a WebSocket. -/
structure Decoder where
  phase : Phase
  /-- The phase that follows, once the current one is over. -/
  next : Option Phase := none
  context : Context
  deriving DecidableEq, Repr

namespace Decoder

/-- The end of a header block. -/
def headTerminator : Bytes :=
  crlf ++ crlf

/-- How many bytes a draft-00 nonce has. -/
def nonceLength : Nat := 8

/-- The decoder that waits for an upgrade request. -/
def of (options : WebSocketOptions) : Decoder :=
  { phase := .handshake { terminator := headTerminator }, context := { options } }

/-- Reads an upgrade request, of which `head` is the block without its blank line. -/
def readRequest (decoder : Decoder) (head : Bytes) (used : Nat) : Attempt Decoder Package :=
  match Request.parse head with
  | .error error => .fail decoder used error
  | .ok request =>
    match Version.select request with
    | none =>
      ⟨{ decoder with next := some .rejected }, used, [rejectReply],
        .ok (some (.rejected request))⟩
    | some version =>
      let subProtocol :=
        negotiate (request.header "sec-websocket-protocol") decoder.context.options.subProtocols
      let info : HandshakeInfo :=
        { request, version, subProtocol, origin := request.header version.originHeader }
      if version = .hybi00 then
        .progress { decoder with next := some (.nonce (some info)) } used
      else
        match request.header "sec-websocket-key" with
        | none => .fail decoder used (.protocol .missingKey)
        | some key =>
          ⟨{ decoder with
              next := some (.frames .header)
              context := decoder.context.negotiated version subProtocol },
            used, [acceptReply key subProtocol], .ok (some (.handshake info))⟩

/-- Reads the nonce of a draft-00 upgrade, whose request is `info`. -/
def readNonce (decoder : Decoder) (info : Option HandshakeInfo) (bytes : Bytes) :
    Attempt Decoder Package :=
  if bytes.length < nonceLength then .needMore decoder
  else
    let tried := { decoder with phase := .nonce none }
    match info with
    | none => .fail tried nonceLength (.protocol .nonceWithoutRequest)
    | some info =>
      let key (name : String) := (info.request.header name).getD ""
      match challenge (key "sec-websocket-key1") (key "sec-websocket-key2")
          (bytes.take nonceLength) with
      | .error error => .fail tried nonceLength error
      | .ok answer =>
        ⟨{ tried with
            next := some (.draftFrames .start)
            context := decoder.context.negotiated info.version info.subProtocol },
          nonceLength, [draftReply info.request info.origin info.subProtocol answer],
          .ok (some (.handshake info))⟩

/-- The payload length in a frame header, and the bytes behind it. -/
def frameLength (second : UInt8) (rest : Bytes) : Nat × Bytes :=
  if second &&& 0x7F = 126 then (Bytes.toNat (rest.take 2), rest.drop 2)
  else if second &&& 0x7F = 127 then (Bytes.toNat (rest.take 8), rest.drop 8)
  else ((second &&& 0x7F).toNat, rest)

/-- Reads a frame header.  A frame without payload is finished at once. -/
def readHeader (decoder : Decoder) (bytes : Bytes) : Attempt Decoder Package :=
  match bytes with
  | first :: second :: rest =>
    let used := headerLength second
    if bytes.length < used then .needMore decoder
    else
      let (length, rest) := frameLength second rest
      let mask := if second &&& maskBit ≠ 0 then MaskKey.ofBytes? rest else none
      match decoder.context.beginFrame first second length mask with
      | .error violation => .fail decoder used (.protocol violation)
      | .ok context =>
        if length = 0 then
          let (context, result) := context.resolve []
          ⟨{ decoder with context }, used, [], result⟩
        else .progress { decoder with phase := .frames .payload, context } used
  | _ => .needMore decoder

/-- Reads the payload of the current frame. -/
def readPayload (decoder : Decoder) (bytes : Bytes) : Attempt Decoder Package :=
  let length := decoder.context.payloadLength
  if bytes.length < length then .needMore decoder
  else
    let (context, result) :=
      decoder.context.resolve (masked decoder.context.mask (bytes.take length))
    ⟨{ decoder with phase := .frames .header, context }, length, [], result⟩

/-- Reads the mark byte of a draft-00 message. -/
def readMark (decoder : Decoder) (bytes : Bytes) : Attempt Decoder Package :=
  match bytes with
  | [] => .needMore decoder
  | first :: _ =>
    if first = 0xFF then
      .progress { decoder with phase := .draftFrames (.close { terminator := [0x00] }) } 1
    else if first &&& 0x80 = 0 then
      .progress { decoder with phase := .draftFrames (.text { terminator := [0xFF] }) } 1
    else .fail decoder 0 (.notImplemented .lengthPrefixedFrame)

/-- Reads the rest of a draft-00 text. -/
def readDraftText (decoder : Decoder) (packages : Terminated) (bytes : Bytes) :
    Attempt Decoder Package :=
  match packages.split bytes with
  | (packages, none) => .needMore { decoder with phase := .draftFrames (.text packages) }
  | (packages, some (data, used)) =>
    if Utf8.isText data then
      .complete { decoder with phase := .draftFrames .start } used (.message ⟨.text, data⟩)
    else
      .fail { decoder with phase := .draftFrames (.text packages) } used
        (.protocol .messageNotText)

/-- Reads the rest of a draft-00 close. -/
def readDraftClose (decoder : Decoder) (packages : Terminated) (bytes : Bytes) :
    Attempt Decoder Package :=
  match packages.split bytes with
  | (packages, none) => .needMore { decoder with phase := .draftFrames (.close packages) }
  | (_, some (_, used)) =>
    .complete { decoder with phase := .draftFrames .start } used (.message ⟨.close, []⟩)

/-- One attempt in the current phase. -/
def attempt (decoder : Decoder) (bytes : Bytes) : Attempt Decoder Package :=
  match decoder.phase with
  | .handshake head =>
    match head.split bytes with
    | (head, none) => .needMore { decoder with phase := .handshake head }
    | (head, some (block, used)) =>
      readRequest { decoder with phase := .handshake head } block used
  | .nonce info => decoder.readNonce info bytes
  | .frames .header => decoder.readHeader bytes
  | .frames .payload => decoder.readPayload bytes
  | .draftFrames .start => decoder.readMark bytes
  | .draftFrames (.text packages) => decoder.readDraftText packages bytes
  | .draftFrames (.close packages) => decoder.readDraftClose packages bytes
  | .rejected => .progress decoder bytes.length

section Attempts

variable {decoder : Decoder}

theorem attempt_nonce {info : Option HandshakeInfo} (h : decoder.phase = .nonce info)
    (bytes : Bytes) : decoder.attempt bytes = decoder.readNonce info bytes := by
  rw [attempt, h]

theorem attempt_header (h : decoder.phase = .frames .header) (bytes : Bytes) :
    decoder.attempt bytes = decoder.readHeader bytes := by
  rw [attempt, h]

theorem attempt_payload (h : decoder.phase = .frames .payload) (bytes : Bytes) :
    decoder.attempt bytes = decoder.readPayload bytes := by
  rw [attempt, h]

theorem attempt_mark (h : decoder.phase = .draftFrames .start) (bytes : Bytes) :
    decoder.attempt bytes = decoder.readMark bytes := by
  rw [attempt, h]

theorem attempt_draftText {packages : Terminated}
    (h : decoder.phase = .draftFrames (.text packages)) (bytes : Bytes) :
    decoder.attempt bytes = decoder.readDraftText packages bytes := by
  rw [attempt, h]

theorem attempt_draftClose {packages : Terminated}
    (h : decoder.phase = .draftFrames (.close packages)) (bytes : Bytes) :
    decoder.attempt bytes = decoder.readDraftClose packages bytes := by
  rw [attempt, h]

theorem attempt_rejected (h : decoder.phase = .rejected) (bytes : Bytes) :
    decoder.attempt bytes = .progress decoder bytes.length := by
  rw [attempt, h]

end Attempts

/-- The phase at its beginning, as it stands behind a package. -/
def restart : Phase → Phase
  | .handshake head => .handshake head.reset
  | .nonce info => .nonce info
  | .frames _ => .frames .header
  | .draftFrames _ => .draftFrames .start
  | .rejected => .rejected

instance : PackageDecoder Decoder Package where
  attempt := attempt
  next? decoder := decoder.next.map fun phase => { decoder with phase, next := none }
  reset decoder := { decoder with phase := restart decoder.phase }
  discards decoder := decoder.phase = .rejected
  withLimit decoder limit :=
    { decoder with context := { decoder.context with maxMessageLength := limit } }

end Decoder

end FramedChannel.WebSocket
