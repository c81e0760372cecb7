import FramedChannel.Address
import FramedChannel.Error
import FramedChannel.Options.Document
import FramedChannel.Text.Blank

/-!
# Options

Three sets of options: of a connection, of a listener and of a WebSocket.  Each
reads from a document, in which every field may be missing, and those with a
rule say with `validate` which one they break first.
-/

namespace FramedChannel

/-- The least number that does not fit in 64 bits. -/
def wordBound : Nat := UInt64.size

/-- What was read from a document, or the error of a document that holds something else. -/
def expected {α : Type} : Option α → Except Error α
  | some options => .ok options
  | none => .error .document

/-! ## Connections -/

/-- How a connection reads, queues and waits. -/
structure ConnectionOptions where
  /-- The most bytes of a package, and 0 for no limit. -/
  maxPackageLength : Nat := 4 * 1024 * 1024
  /-- The most bytes of one read. -/
  receiveBufferSize : Nat := 64 * 1024
  /-- How many chunks the send queue holds. -/
  sendQueueCapacity : Nat := 1024
  /-- How many chunks may be queued or about to be queued, and not yet written. -/
  maxPendingSends : Nat := 1024
  /-- How long a send waits for a slot, in milliseconds. -/
  sendTimeout : Nat := 5000
  deriving DecidableEq, Repr

namespace ConnectionOptions

/-- The names of the fields. -/
def fieldNames : List String :=
  ["max_package_length", "receive_buffer_size", "send_queue_capacity", "max_pending_sends",
    "send_timeout_ms"]

/-- The options in a document. -/
def ofDocument (document : Document) : Option ConnectionOptions := do
  match ← document.fields fieldNames with
  | [length, size, capacity, pending, timeout] =>
    let fallback : ConnectionOptions := {}
    let word := Document.natural? wordBound
    some {
      maxPackageLength := ← Document.fieldOr fallback.maxPackageLength word length
      receiveBufferSize := ← Document.fieldOr fallback.receiveBufferSize word size
      sendQueueCapacity := ← Document.fieldOr fallback.sendQueueCapacity word capacity
      maxPendingSends := ← Document.fieldOr fallback.maxPendingSends word pending
      sendTimeout := ← Document.fieldOr fallback.sendTimeout word timeout }
  | _ => none

/-- Reads, queues and pending sends need room for one at least. -/
def validate (options : ConnectionOptions) : Except Error Unit :=
  if options.receiveBufferSize = 0 then .error (.config (.notPositive "receive_buffer_size"))
  else if options.sendQueueCapacity = 0 then .error (.config (.notPositive "send_queue_capacity"))
  else if options.maxPendingSends = 0 then .error (.config (.notPositive "max_pending_sends"))
  else .ok ()

/-- The valid options that a text holds. -/
def parse (text : String) : Except Error ConnectionOptions := do
  let options ← expected ((Document.parse text).bind ofDocument)
  options.validate
  return options

end ConnectionOptions

/-! ## Listeners -/

/-- Where and how a listener accepts. -/
structure ListenOptions where
  ip : Ip := .loopback
  port : UInt16 := 0
  backlog : Nat := 1024
  noDelay : Bool := true
  deriving DecidableEq, Repr

namespace ListenOptions

/-- The names of the fields. -/
def fieldNames : List String :=
  ["ip", "port", "backlog", "no_delay"]

/-- The options in a document. -/
def ofDocument (document : Document) : Option ListenOptions := do
  match ← document.fields fieldNames with
  | [ip, port, backlog, noDelay] =>
    let fallback : ListenOptions := {}
    some {
      ip := ← Document.fieldOr fallback.ip (fun value => value.text?.bind Ip.parse) ip
      port := ← Document.fieldOr fallback.port
        (fun value => (value.natural? UInt16.size).map UInt16.ofNat) port
      backlog := ← Document.fieldOr fallback.backlog (Document.natural? UInt32.size) backlog
      noDelay := ← Document.fieldOr fallback.noDelay Document.boolean? noDelay }
  | _ => none

/-- The options that a text holds. -/
def parse (text : String) : Except Error ListenOptions :=
  expected ((Document.parse text).bind ofDocument)

/-- The options of a listener at a socket. -/
def ofSocket (socket : Socket) : ListenOptions :=
  { ip := socket.ip, port := socket.port }

/-- The socket of a listener. -/
def socket (options : ListenOptions) : Socket :=
  ⟨options.ip, options.port, 0⟩

end ListenOptions

/-- The key that datagrams from a socket share when no other is chosen: the text of the socket,
whatever the datagram holds. -/
def defaultSessionKey (remote : Socket) (_datagram : List UInt8) : String :=
  remote.text

/-! ## WebSockets -/

/-- How the server side of a WebSocket behaves. -/
structure WebSocketOptions where
  /-- The sub-protocols that the server supports. -/
  subProtocols : List String := []
  /-- Whether frames of the peer must be masked. -/
  requireMask : Bool := true
  /-- How long the upgrade may take, in seconds. -/
  openTimeout : Nat := 120
  /-- How long the closing handshake may take, in seconds. -/
  closeTimeout : Nat := 120
  /-- The time between two sweeps, in seconds. -/
  sweepInterval : Nat := 60
  /-- The most payload bytes of a frame, and 0 for no limit. -/
  maxFramePayload : Nat := 0
  deriving DecidableEq, Repr

namespace WebSocketOptions

/-- The names of the fields. -/
def fieldNames : List String :=
  ["sub_protocols", "require_mask", "open_handshake_timeout_secs", "close_handshake_timeout_secs",
    "handshake_sweep_interval_secs", "max_frame_payload"]

/-- The options in a document. -/
def ofDocument (document : Document) : Option WebSocketOptions := do
  match ← document.fields fieldNames with
  | [protocols, mask, opening, closing, interval, payload] =>
    let fallback : WebSocketOptions := {}
    let word := Document.natural? wordBound
    some {
      subProtocols := ← Document.fieldOr fallback.subProtocols Document.texts? protocols
      requireMask := ← Document.fieldOr fallback.requireMask Document.boolean? mask
      openTimeout := ← Document.fieldOr fallback.openTimeout word opening
      closeTimeout := ← Document.fieldOr fallback.closeTimeout word closing
      sweepInterval := ← Document.fieldOr fallback.sweepInterval word interval
      maxFramePayload := ← Document.fieldOr fallback.maxFramePayload word payload }
  | _ => none

/-- Sweeps need a time between them, and sub-protocols a name that is not blank. -/
def validate (options : WebSocketOptions) : Except Error Unit :=
  if options.sweepInterval = 0 then
    .error (.config (.notPositive "handshake_sweep_interval_secs"))
  else if options.subProtocols.any fun name => (Text.trim name.toList).isEmpty then
    .error (.config .emptySubProtocol)
  else .ok ()

/-- The valid options that a document holds. -/
def read (document : Document) : Except Error WebSocketOptions := do
  let options ← expected (ofDocument document)
  options.validate
  return options

/-- The valid options that a text holds. -/
def parse (text : String) : Except Error WebSocketOptions := do
  read (← expected (Document.parse text))

end WebSocketOptions

end FramedChannel
