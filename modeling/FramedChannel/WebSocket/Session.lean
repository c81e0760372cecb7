import FramedChannel.Channel.Step
import FramedChannel.WebSocket.Decoding
import FramedChannel.WebSocket.Encoding

/-!
# Sessions

A session is the server side of one WebSocket, on a channel that decodes
WebSocket packages.

* It is opened by the handshake that its event stream meets.
* It answers pings and the close message of the peer itself, when its event
  stream takes them from the channel, and hands everything else on.
* It closes with a handshake when it is asked to, or when the peer asks.

A call that sends waits for the channel, and `Session.onReturned` says what
happens when the send is over.  `Session.step` gives one step for a call or for
a step of the channel, and `Session.steps` those for a list of actions.
-/

namespace FramedChannel.WebSocket

/-! ## States -/

/-- How far a session is. -/
inductive SessionState where
  | awaitingHandshake
  | handshaking
  | opened
  /-- The session sent a close message first, and waits for the answer. -/
  | closingLocal
  /-- The peer sent a close message first. -/
  | closingRemote
  | closed
  deriving DecidableEq, Repr

namespace SessionState

/-- The name of a state. -/
def name : SessionState → String
  | awaitingHandshake => "awaiting-handshake"
  | handshaking => "handshaking"
  | opened => "open"
  | closingLocal => "closing-local"
  | closingRemote => "closing-remote"
  | closed => "closed"

/-- Whether the upgrade is not over. -/
def isPending : SessionState → Bool
  | awaitingHandshake | handshaking => true
  | _ => false

end SessionState

/-- What the event stream of a session hands to the application. -/
inductive Notice where
  | opened (info : HandshakeInfo)
  | rejected (request : Request)
  | message (message : Message)
  deriving DecidableEq, Repr

/-- What the event stream of a session is doing. -/
inductive Reader where
  | idle
  /-- It waits for a package. -/
  | waiting (call : Nat)
  /-- It answers a ping, and hands the ping on when that is over. -/
  | ponging (call : Nat) (ping : Message)
  /-- It answers a close message. -/
  | answering (call : Nat)
  deriving DecidableEq, Repr

/-! ## Sessions -/

/-- The server side of a WebSocket. -/
structure Session where
  channel : Channel Decoder Package
  options : WebSocketOptions
  /-- When the session was made. -/
  created : Nat
  /-- The state, which does not say whether the channel is closed. -/
  stored : SessionState := .awaitingHandshake
  version : Option Version := none
  subProtocol : Option String := none
  /-- When the session began to close. -/
  closeStarted : Option Nat := none
  /-- Whether a monitor watches the session. -/
  isTracked : Bool := false
  reader : Reader := .idle
  /-- The calls that wait for the event stream, the longest waiting first. -/
  queued : List Nat := []
  /-- The calls that close the session and whose close message is on its way. -/
  closers : List Nat := []

/-- What happens on a session. -/
inductive SessionEvent where
  | channel (event : Event Package)
  /-- Starting the session went well, or failed. -/
  | started (fault : Option Error)
  /-- A call that sends returned. -/
  | sent (call : Nat) (sent : Sent)
  /-- The event stream handed something on, or is at its end. -/
  | delivered (call : Nat) (notice : Option Notice)
  deriving DecidableEq, Repr

namespace Session

/-- A session on a channel that was not started. -/
def of (channel : Channel Decoder Package) (options : WebSocketOptions) : Session :=
  { channel, options, created := channel.now }

/-- The state of a session. -/
def state (s : Session) : SessionState :=
  if s.channel.closeReason.isSome then .closed else s.stored

/-- Whether messages can be sent. -/
def isOpen (s : Session) : Bool :=
  s.state == .opened

/-- Whether a monitor has a closing handshake to watch. -/
def isWatchedClosing (s : Session) : Bool :=
  s.isTracked && s.closeStarted.isSome

/-- Whether the channel has begun to close. -/
def isClosing (s : Session) : Bool :=
  s.channel.isClosing

/-! ## Starting and closing -/

/-- Starts the channel and the event stream, or says why they cannot be started. -/
def start (s : Session) : Option Error × Session :=
  match s.channel.run with
  | (some fault, channel) => (some fault, { s with channel })
  | (none, channel) =>
    (none, { s with
      channel
      stored := if s.stored = .awaitingHandshake then .handshaking else s.stored })

/-- Begins to close the channel without a handshake. -/
def forceClose (s : Session) (reason : CloseReason) : List SessionEvent × Session :=
  let (events, channel) := s.channel.abort reason
  (events.map .channel, { s with channel })

/-- A call closes the channel without a handshake and waits until it is closed. -/
def close (s : Session) (call : Nat) (reason : CloseReason) : List SessionEvent × Session :=
  let (events, channel) := s.channel.close call reason
  (events.map .channel, { s with channel })

/-- A call waits until the channel is closed. -/
def waitClosed (s : Session) (call : Nat) : Session :=
  { s with channel := s.channel.waitClosed call }

/-! ## The event stream -/

/-- The event stream begins to wait for a package. -/
def waitNext (s : Session) (call : Nat) : Session :=
  { s with channel := s.channel.next call, reader := .waiting call }

/-- A call asks the event stream, behind all calls that did so before. -/
def next (s : Session) (call : Nat) : Session :=
  match s.reader with
  | .idle => s.waitNext call
  | _ => { s with queued := s.queued ++ [call] }

/-- The event stream hands something on, and turns to the next call. -/
def deliver (s : Session) (call : Nat) (notice : Option Notice) : List SessionEvent × Session :=
  ([.delivered call notice],
    match s.queued with
    | [] => { s with reader := .idle }
    | call :: rest => { s with queued := rest }.waitNext call)

/-! ## Sending -/

/-- A send of the application is over.  Closing goes on without a handshake if the close message
could not be sent. -/
def onSent (s : Session) (call : Nat) (sent : Sent) : List SessionEvent × Session :=
  if call ∈ s.closers then
    let s := { s with closers := s.closers.erase call }
    match sent with
    | .done _ => ([.sent call sent], s)
    | .failed _ =>
      let (events, s) := s.forceClose .localClosing
      (events ++ [.sent call sent], s)
  else ([.sent call sent], s)

/-- What a session makes of a send that is over. -/
def onReturned (s : Session) (call : Nat) (sent : Sent) : List SessionEvent × Session :=
  if s.reader = .answering call then
    let (events, s) := s.forceClose .remoteClosing
    (events, s.waitNext call)
  else
    match s.reader with
    | .ponging reading ping =>
      if reading = call then s.deliver call (some (.message ping))
      else s.onSent call sent
    | _ => s.onSent call sent

/-- What a session makes of events that may end sends. -/
def absorbReturns (s : Session) : List (Event Package) → List SessionEvent × Session
  | [] => ([], s)
  | event :: rest =>
    let (first, s) :=
      match event with
      | .returned (.call call) sent => s.onReturned call sent
      | _ => ([], s)
    let (more, s) := s.absorbReturns rest
    (.channel event :: first ++ more, s)

/-- Sends a message in the encoding of the negotiated version, and goes on at once if the send is
over at once. -/
def post (s : Session) (call : Nat) (message : Message) : List SessionEvent × Session :=
  match s.version with
  | none => s.onReturned call (.failed (.protocol .handshakeIncomplete))
  | some version =>
    let encoder := Encoder.forVersion version s.options.maxFramePayload
    let load := Load.encoded (encoder.written message)
    let (events, channel) := s.channel.send ⟨.call call, load⟩
    { s with channel }.absorbReturns events

/-- A call refused with an error. -/
def refuse (s : Session) (call : Nat) (error : Error) : List SessionEvent × Session :=
  ([.sent call (.failed error)], s)

/-- A call sends a message.  The message has its place among the sends of the channel at once, so
that messages go out in the order of their calls. -/
def send (s : Session) (call : Nat) (message : Message) : List SessionEvent × Session :=
  match s.state with
  | .opened => s.post call message
  | .awaitingHandshake | .handshaking => s.refuse call (.protocol .handshakeIncomplete)
  | _ => s.refuse call .channelClosed

/-- A call sends bytes past the session. -/
def sendRaw (s : Session) (call : Nat) (bytes : Bytes) : List SessionEvent × Session :=
  let (events, channel) := s.channel.send ⟨.call call, .chunk bytes⟩
  { s with channel }.absorbReturns events

/-- A call closes the session with a handshake.  A session that is not open is closed without
one. -/
def closeHandshake (s : Session) (call : Nat) (status : UInt16) (reason : String) :
    List SessionEvent × Session :=
  if s.stored ≠ .opened || s.isClosing then
    let (events, s) := s.forceClose .localClosing
    (events ++ [.sent call (.done 0)], s)
  else
    let s := { s with
      stored := .closingLocal
      closeStarted := some s.channel.now
      closers := s.closers ++ [call] }
    s.post call (Message.close status reason)

/-! ## Incoming packages -/

/-- The close message that answers a close payload. -/
def closeReply (version : Option Version) (payload : Bytes) : Message :=
  if version = some .hybi00 then ⟨.close, []⟩
  else
    match Closing.parse payload with
    | .ok (some code, _) => Message.close code ""
    | .ok (none, _) => Message.close CloseStatus.normalClosure.code ""
    | .error _ => Message.close CloseStatus.protocolError.code ""

/-- The event stream meets a close message. -/
def onClose (s : Session) (call : Nat) (payload : Bytes) : List SessionEvent × Session :=
  match s.stored with
  | .closingLocal =>
    let (events, s) := s.forceClose .localClosing
    (events, s.waitNext call)
  | .opened =>
    let s := { s with stored := .closingRemote, reader := .answering call }
    s.post call (closeReply s.version payload)
  | _ => ([], s.waitNext call)

/-- The event stream gets a package from the channel, or its end. -/
def onReceived (s : Session) (call : Nat) : Option Package → List SessionEvent × Session
  | none => s.deliver call none
  | some (.handshake info) =>
    { s with stored := .opened, version := some info.version, subProtocol := info.subProtocol }
      |>.deliver call (some (.opened info))
  | some (.rejected request) => s.deliver call (some (.rejected request))
  | some (.message message) =>
    match message.op with
    | .close => s.onClose call message.data
    | .ping => { s with reader := .ponging call message }.post call ⟨.pong, message.data⟩
    | _ => s.deliver call (some (.message message))

/-- What a session makes of the events of its channel. -/
def absorb (s : Session) : List (Event Package) → List SessionEvent × Session
  | [] => ([], s)
  | event :: rest =>
    let (first, s) :=
      match event with
      | .returned (.call call) sent => s.onReturned call sent
      | .received call package => s.onReceived call package
      | _ => ([], s)
    let (more, s) := s.absorb rest
    (.channel event :: first ++ more, s)

/-! ## All steps -/

/-- What can happen to a session.  Every call goes on until it returns: calls of a session that the
application drops are left out, unlike those of a channel (`FramedChannel.Move.giveUp`). -/
inductive Action where
  | start
  | send (call : Nat) (message : Message)
  | sendRaw (call : Nat) (bytes : Bytes)
  | closeHandshake (call : Nat) (status : UInt16) (reason : String)
  | forceClose (reason : CloseReason)
  | close (call : Nat) (reason : CloseReason)
  | waitClosed (call : Nat)
  | next (call : Nat)
  /-- A monitor watches the session from now on. -/
  | track
  /-- The channel makes a step that needs no call. -/
  | channel (action : FramedChannel.Action)
  deriving DecidableEq, Repr

/-- The step of a session for an action, with what can be seen of it. -/
def step (s : Session) : Action → Option (List SessionEvent × Session)
  | .start =>
    let (fault, s) := s.start
    some ([.started fault], s)
  | .send call message => some (s.send call message)
  | .sendRaw call bytes => some (s.sendRaw call bytes)
  | .closeHandshake call status reason => some (s.closeHandshake call status reason)
  | .forceClose reason => some (s.forceClose reason)
  | .close call reason => some (s.close call reason)
  | .waitClosed call => some ([], s.waitClosed call)
  | .next call => if s.channel.isHeld then some ([], s.next call) else none
  | .track => some ([], { s with isTracked := true })
  | .channel action =>
    if action.isInternal then
      (s.channel.step action).map fun (events, channel) => { s with channel }.absorb events
    else none

/-- The steps for some actions, one after another, with all that can be seen of them. -/
def steps (s : Session) : List Action → Option (List SessionEvent × Session)
  | [] => some ([], s)
  | action :: rest => do
    let (first, s) ← s.step action
    let (more, s) ← s.steps rest
    some (first ++ more, s)

end Session

end FramedChannel.WebSocket
