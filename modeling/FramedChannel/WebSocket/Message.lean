import FramedChannel.Error
import FramedChannel.WebSocket.Frame

/-!
# Messages

A message is an operation code with its payload.  A close message carries
nothing, or a status code and a reason; `Closing.parse` reads the two back and
`Closing.isAllowed` says which codes a peer may send.
-/

namespace FramedChannel.WebSocket

/-- A message or a control frame. -/
structure Message where
  op : OpCode
  data : Bytes
  deriving DecidableEq, Repr

namespace Message

/-- A text message. -/
def text (content : String) : Message :=
  ⟨.text, Utf8.encode content⟩

/-- A close message with a status code and a reason. -/
def close (code : UInt16) (reason : String) : Message :=
  ⟨.close, Bytes.ofNat 2 code.toNat ++ Utf8.encode reason⟩

/-- The text of a text message whose payload is text. -/
def asText (message : Message) : Option String :=
  match message.op with
  | .text => (Utf8.decode message.data).toOption
  | _ => none

/-- Whether the message is a control frame. -/
def isControl (message : Message) : Bool :=
  message.op.isControl

end Message

/-! ## Closing -/

/-- The close statuses with a meaning of their own. -/
inductive CloseStatus where
  | normalClosure
  | goingAway
  | protocolError
  | unsupportedData
  | invalidPayload
  | policyViolation
  | tooLarge
  | unexpectedCondition
  deriving DecidableEq, Repr

namespace CloseStatus

/-- The code of a status. -/
def code : CloseStatus → UInt16
  | normalClosure => 1000
  | goingAway => 1001
  | protocolError => 1002
  | unsupportedData => 1003
  | invalidPayload => 1007
  | policyViolation => 1008
  | tooLarge => 1009
  | unexpectedCondition => 1011

/-- All statuses. -/
def all : List CloseStatus :=
  [normalClosure, goingAway, protocolError, unsupportedData, invalidPayload, policyViolation,
    tooLarge, unexpectedCondition]

/-- The status with a given code. -/
def ofCode? (code : UInt16) : Option CloseStatus :=
  all.find? (·.code == code)

/-- The name of a status. -/
def name : CloseStatus → String
  | normalClosure => "NormalClosure"
  | goingAway => "GoingAway"
  | protocolError => "ProtocolError"
  | unsupportedData => "UnsupportedData"
  | invalidPayload => "InvalidPayload"
  | policyViolation => "PolicyViolation"
  | tooLarge => "TooLarge"
  | unexpectedCondition => "UnexpectedCondition"

/-- Whether a peer may send the status. -/
def isSendable : CloseStatus → Bool
  | policyViolation | unexpectedCondition => false
  | _ => true

end CloseStatus

namespace Closing

/-- Whether a peer may send a close code.  Below 2000 only the sendable statuses are allowed,
from 2000 to 4999 all codes are, and above none is. -/
def isAllowed (code : UInt16) : Bool :=
  if code < 1000 then false
  else if code < 2000 then (CloseStatus.ofCode? code).any CloseStatus.isSendable
  else code < 5000

/-- The status code and the reason of a close payload.  An empty payload has neither. -/
def parse : Bytes → Except Error (Option UInt16 × String)
  | [] => .ok (none, "")
  | [_] => .error (.protocol .closePayloadOfOneByte)
  | high :: low :: reason =>
    let code := UInt16.ofNat (Bytes.toNat [high, low])
    if Closing.isAllowed code then
      match Utf8.decode reason with
      | .ok text => .ok (some code, text)
      | .error _ => .error (.protocol .closeReasonNotText)
    else .error (.protocol (.invalidCloseCode code))

end Closing

end FramedChannel.WebSocket
