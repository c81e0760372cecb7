import FramedChannel.Text.Quoted
import FramedChannel.Text.Utf8

/-!
# Errors and close reasons

Every failure of the library is a cause, and `Error.message` is the one place
that words it.

* `Violation` is what a peer, or a caller in its place, did against a protocol.
* `TransportFault` is how a byte stream failed.  `isDisconnect` holds of the
  faults that only say that the peer is gone.
* `CloseReason` is why a channel closed.  `Error.closeReason` and
  `TransportFault.closeReason` choose it.
-/

namespace FramedChannel

/-! ## Close reasons -/

/-- Why a channel closed. -/
inductive CloseReason where
  | localClosing
  | remoteClosing
  | protocolError
  | socketError
  | timeout
  | unknown
  deriving DecidableEq, Repr

namespace CloseReason

/-- The name of a close reason. -/
def name : CloseReason → String
  | localClosing => "local-closing"
  | remoteClosing => "remote-closing"
  | protocolError => "protocol-error"
  | socketError => "socket-error"
  | timeout => "timeout"
  | unknown => "unknown"

/-- All close reasons. -/
def all : List CloseReason :=
  [localClosing, remoteClosing, protocolError, socketError, timeout, unknown]

/-- The close reason with a given name. -/
def ofName? (text : String) : Option CloseReason :=
  all.find? (·.name == text)

end CloseReason

/-! ## Faults of a transport -/

/-- How reading from or writing to a byte stream failed. -/
inductive TransportFault where
  | connectionReset
  | connectionAborted
  | brokenPipe
  | unexpectedEnd
  | notConnected
  /-- The stream took no byte although it was offered some. -/
  | tookNothing
  | other
  deriving DecidableEq, Repr

namespace TransportFault

/-- A fault that says no more than that the peer is gone. -/
def isDisconnect : TransportFault → Bool
  | connectionReset | connectionAborted | brokenPipe | unexpectedEnd | notConnected => true
  | tookNothing | other => false

/-- Why a channel closes whose stream failed. -/
def closeReason (fault : TransportFault) : CloseReason :=
  if fault.isDisconnect then .remoteClosing else .socketError

end TransportFault

/-! ## Violations of a protocol -/

/-- What was done against a protocol. -/
inductive Violation where
  /-- A package needs more bytes than the limit allows. -/
  | packageTooLong (length limit : Nat)
  /-- A range reaches past the buffered bytes. -/
  | rangePastEnd
  /-- A range of buffered bytes is no text. -/
  | rangeNotText (fault : Utf8.Fault)
  /-- A line is no text. -/
  | lineNotText (fault : Utf8.Fault)
  | reservedBits
  | unknownOpCode (code : UInt8)
  | unmaskedFrame
  | lengthHighBit
  | fragmentedControl
  | controlTooLong (length : Nat)
  | strayContinuation
  | interleavedMessage
  | messageTooLong (length limit : Nat)
  | messageNotText
  | closePayloadOfOneByte
  | invalidCloseCode (code : UInt16)
  | closeReasonNotText
  | handshakeNotText
  | malformedRequestLine (line : String)
  | malformedHeaderLine (line : String)
  | missingKey
  /-- The nonce of a draft-00 handshake came while no request was waiting for it. -/
  | nonceWithoutRequest
  | keyWithoutSpaces
  | keyWithoutNumber
  /-- A message was sent before the upgrade handshake was over. -/
  | handshakeIncomplete
  /-- A violation that an application found and worded. -/
  | stated (text : String)
  deriving DecidableEq, Repr

namespace Violation

/-- The wording of a violation. -/
def message : Violation → String
  | packageTooLong length limit => s!"package of {length} bytes exceeds maximum {limit}"
  | rangePastEnd => "range exceeds buffered data"
  | rangeNotText fault => "invalid UTF-8: " ++ fault.message
  | lineNotText fault => "line is not valid UTF-8: " ++ fault.message
  | reservedBits => "reserved bits set without a negotiated extension"
  | unknownOpCode code => "unknown opcode 0x" ++ String.ofList (Text.hex code.toNat)
  | unmaskedFrame => "client frame is not masked"
  | lengthHighBit => "payload length has the high bit set"
  | fragmentedControl => "fragmented control frame"
  | controlTooLong length => s!"control frame payload of {length} bytes"
  | strayContinuation => "continuation frame without a message"
  | interleavedMessage => "new data frame while a fragmented message is in progress"
  | messageTooLong length limit => s!"message of {length} bytes exceeds maximum {limit}"
  | messageNotText => "text message is not valid UTF-8"
  | closePayloadOfOneByte => "close payload of one byte"
  | invalidCloseCode code => s!"invalid close code {code}"
  | closeReasonNotText => "close reason is not valid UTF-8"
  | handshakeNotText => "handshake is not valid UTF-8"
  | malformedRequestLine line => "malformed request line " ++ Text.quoted line
  | malformedHeaderLine line => "malformed header line " ++ Text.quoted line
  | missingKey => "missing Sec-WebSocket-Key"
  | nonceWithoutRequest => "draft-00 nonce without a request"
  | keyWithoutSpaces => "security key contains no spaces"
  | keyWithoutNumber => "security key has no usable digits"
  | handshakeIncomplete => "WebSocket handshake not complete"
  | stated text => text

end Violation

/-! ## Errors -/

/-- A part of a protocol that the library leaves out. -/
inductive Unsupported where
  | lengthPrefixedFrame
  /-- Draft-00 was asked for more than a text or a close frame. -/
  | beyondTextAndClose
  | stated (text : String)
  deriving DecidableEq, Repr

/-- The wording of an unsupported part. -/
def Unsupported.message : Unsupported → String
  | lengthPrefixedFrame => "draft-00 length-prefixed frames"
  | beyondTextAndClose => "draft-00 supports only text and close frames"
  | stated text => text

/-- What is wrong with a set of options. -/
inductive Misconfiguration where
  | notPositive (option : String)
  | emptySubProtocol
  | stated (text : String)
  deriving DecidableEq, Repr

/-- The wording of a misconfiguration. -/
def Misconfiguration.message : Misconfiguration → String
  | notPositive option => option ++ " must be greater than 0"
  | emptySubProtocol => "sub_protocols must not contain empty names"
  | stated text => text

/-- Why an operation failed. -/
inductive Error where
  | protocol (violation : Violation)
  | notImplemented (part : Unsupported)
  | channelClosed
  | alreadyRunning
  | backpressureTimeout
  | config (fault : Misconfiguration)
  /-- An option document does not read as the options it should hold. -/
  | document
  /-- The transport failed; `text` is what it said. -/
  | transport (fault : TransportFault) (text : String)
  deriving DecidableEq, Repr

namespace Error

/-- The wording of an error.  A document that does not read has none. -/
def message? : Error → Option String
  | protocol violation => some ("Protocol error: " ++ violation.message)
  | notImplemented part => some ("Not implemented: " ++ part.message)
  | channelClosed => some "Channel is closed"
  | alreadyRunning => some "Already running"
  | backpressureTimeout => some "Backpressure timeout"
  | config fault => some ("Invalid configuration: " ++ fault.message)
  | document => none
  | transport _ text => some ("I/O error: " ++ text)

/-- Why a channel closes that met this error while decoding. -/
def closeReason : Error → CloseReason
  | protocol _ | notImplemented _ => .protocolError
  | transport _ _ => .socketError
  | channelClosed | alreadyRunning | backpressureTimeout | config _ | document => .unknown

end Error

/-! ## Broken promises of a caller -/

/-- A precondition that a caller did not keep. -/
inductive Breach where
  | advancePastSequence
  | advancePastCursor
  | rewindPastStart
  /-- A cursor points behind the last segment. -/
  | noSuchSegment
  | emptyTerminator
  | emptyPackage
  /-- A queue was asked to hold nothing. -/
  | emptyQueue
  /-- A queue was asked to hold more than `limit` chunks. -/
  | queueTooLarge (limit : Nat)
  deriving DecidableEq, Repr

/-- The wording of a broken promise. -/
def Breach.message : Breach → String
  | advancePastSequence => "advance past end of sequence"
  | advancePastCursor => "advance past end of reader"
  | rewindPastStart => "rewind before start of reader"
  | noSuchSegment => "Out of bounds access"
  | emptyTerminator => "terminator must not be empty"
  | emptyPackage => "fixed package size must be positive"
  | emptyQueue => "mpsc bounded channel requires buffer > 0"
  | queueTooLarge limit => s!"a semaphore may not have more than MAX_PERMITS permits ({limit})"

end FramedChannel
