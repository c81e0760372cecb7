import FramedChannel.Digest.Md5
import FramedChannel.Digest.Sha1
import FramedChannel.Error
import FramedChannel.Text.Base64
import FramedChannel.Text.Blank

/-!
# The upgrade handshake

A client opens a WebSocket with a request, a block of header lines, and the
server answers with a reply.

* `Request.parse` reads a request.  The values of a header that is given more
  than once are joined in order of appearance.
* `Version.select` finds the protocol generation that a request asks for, and
  `negotiate` the sub-protocol.
* `acceptKey` and `challenge` answer the client's proof of work, the second one
  by way of `keyNumber`.
* `acceptReply`, `draftReply` and `rejectReply` are the three replies.
-/

namespace FramedChannel.WebSocket

/-! ## Requests -/

/-- An upgrade request. -/
structure Request where
  method : String
  path : String
  /-- Header names in lower case with their values, in the order of the names. -/
  headers : List (String × String)
  deriving DecidableEq, Repr

namespace Request

/-- Headers with one more line: a new name goes to its place among the names, a known one gets its
values joined. -/
def addHeader (name value : String) : List (String × String) → List (String × String)
  | [] => [(name, value)]
  | (known, values) :: rest =>
    if name = known then (known, values ++ ", " ++ value) :: rest
    else if name < known then (name, value) :: (known, values) :: rest
    else (known, values) :: addHeader name value rest

/-- Lines with different names can come in either order. -/
theorem addHeader_comm {first second : String} (h : first ≠ second) (x y : String)
    (headers : List (String × String)) :
    addHeader first x (addHeader second y headers) =
      addHeader second y (addHeader first x headers) := by
  have htotal : first < second ∨ second < first := by
    by_cases hlt : first < second
    · exact .inl hlt
    · exact .inr (Std.lt_of_le_of_ne (String.not_lt.1 hlt) h.symm)
  induction headers with
  | nil => grind [addHeader, String.lt_asymm]
  | cons header rest ih => grind [addHeader, String.lt_asymm, String.lt_trans]

/-- The name and the value of a header line. -/
def headerLine (line : List Char) : Except Error (String × String) :=
  match Text.cutAt ':' line with
  | none => .error (.protocol (.malformedHeaderLine (String.ofList line)))
  | some (name, value) =>
    .ok (String.ofList (Text.lowercaseAscii (Text.trim name)), String.ofList (Text.trim value))

/-- The headers of some header lines, of which empty ones count for nothing. -/
def headerLines (headers : List (String × String)) :
    List (List Char) → Except Error (List (String × String))
  | [] => .ok headers
  | line :: lines =>
    if line.isEmpty then headerLines headers lines
    else
      match headerLine line with
      | .error error => .error error
      | .ok (name, value) => headerLines (addHeader name value headers) lines

/-- The first two words of a request line. -/
def requestLine (line : List Char) : Except Error (String × String) :=
  match Text.nextWord line with
  | none => .error (.protocol (.malformedRequestLine (String.ofList line)))
  | some (method, rest) =>
    match Text.nextWord rest with
    | none => .error (.protocol (.malformedRequestLine (String.ofList line)))
    | some (path, _) => .ok (String.ofList method, String.ofList path)

/-- The request that a header block, without the blank line at its end, stands for. -/
def parse (head : Bytes) : Except Error Request :=
  match Utf8.decode head with
  | .error _ => .error (.protocol .handshakeNotText)
  | .ok text =>
    let lines := Text.crlfLines text.toList
    match requestLine (lines.headD []) with
    | .error error => .error error
    | .ok (method, path) =>
      (headerLines [] lines.tail).map fun headers => { method, path, headers }

/-- The value of a header, whose name is compared without regard to ASCII case. -/
def header (request : Request) (name : String) : Option String :=
  request.headers.lookup (String.ofList (Text.lowercaseAscii name.toList))

/-- The host that the request names. -/
def host (request : Request) : Option String :=
  request.header "host"

end Request

/-! ## Versions -/

/-- A generation of the protocol. -/
inductive Version where
  /-- Key pair, MD5 challenge and end-mark framing. -/
  | hybi00
  /-- Version header 8. -/
  | hybi10
  /-- Version header 13. -/
  | rfc6455
  deriving DecidableEq, Repr

namespace Version

/-- The versions in the order in which they are tried. -/
def negotiationOrder : List Version :=
  [rfc6455, hybi10, hybi00]

/-- The name of a version. -/
def name : Version → String
  | hybi00 => "hybi-00"
  | hybi10 => "hybi-10"
  | rfc6455 => "rfc6455"

/-- The version with a given name. -/
def ofName? (text : String) : Option Version :=
  negotiationOrder.find? (·.name == text)

/-- The number of a version in a version header. -/
def number : Version → Nat
  | hybi00 => 0
  | hybi10 => 8
  | rfc6455 => 13

/-- Whether the version has the binary framing. -/
def isFramed : Version → Bool
  | hybi00 => false
  | hybi10 | rfc6455 => true

/-- The header that carries the client's origin. -/
def originHeader : Version → String
  | hybi10 => "sec-websocket-origin"
  | hybi00 | rfc6455 => "origin"

/-- Whether a request asks for the version. -/
def isRequestedBy (version : Version) (request : Request) : Bool :=
  match version with
  | rfc6455 => request.header "sec-websocket-version" == some "13"
  | hybi10 => request.header "sec-websocket-version" == some "8"
  | hybi00 =>
    (request.header "sec-websocket-version").isNone &&
      (request.header "sec-websocket-key1").isSome &&
      (request.header "sec-websocket-key2").isSome

/-- The first version that a request asks for. -/
def select (request : Request) : Option Version :=
  negotiationOrder.find? (·.isRequestedBy request)

/-- The versions named to a client that asks for none of them. -/
def advertised : String := "13, 8"

end Version

/-- The first sub-protocol that the client offers and the server supports. -/
def negotiate (offered : Option String) (supported : List String) : Option String :=
  offered.bind fun offer =>
    ((Text.piecesAt ',' offer.toList).map fun piece => String.ofList (Text.trim piece)).find?
      fun protocol => !protocol.isEmpty && supported.contains protocol

/-- What a completed handshake agreed on. -/
structure HandshakeInfo where
  request : Request
  version : Version
  subProtocol : Option String
  origin : Option String
  deriving DecidableEq, Repr

/-! ## Proofs of work -/

/-- The text that the server appends to the client's key. -/
def keySuffix : String := "258EAFA5-E914-47DA-95CA-C5AB0DC85B11"

/-- The answer to a client's key: the digest of the key with the suffix, in Base64. -/
def acceptKey (key : String) : String :=
  String.ofList (Base64.encode (Digest.Sha1.digest (Utf8.encode key ++ Utf8.encode keySuffix)))

/-- The number that some decimal digits write. -/
def decimal (digits : List Char) : Nat :=
  digits.foldl (fun n c => n * 10 + (c.toNat - '0'.toNat)) 0

/-- The number hidden in a draft-00 key: its digits, read as one number, divided by how many
spaces it has.  The number must be below 2 to the power 64, and 32 bits of the quotient are kept. -/
def keyNumber (key : String) : Except Error UInt32 :=
  let digits := key.toList.filter Char.isDigit
  let spaces := key.toList.count ' '
  if spaces = 0 then .error (.protocol .keyWithoutSpaces)
  else if digits.isEmpty || decimal digits ≥ UInt64.size then .error (.protocol .keyWithoutNumber)
  else .ok (UInt32.ofNat (decimal digits / spaces))

/-- The answer to a draft-00 key pair and nonce. -/
def challenge (key1 key2 : String) (nonce : Bytes) : Except Error Bytes := do
  let first ← keyNumber key1
  let second ← keyNumber key2
  .ok (Digest.Md5.digest
    (Bytes.ofNat 4 first.toNat ++ Bytes.ofNat 4 second.toNat ++ nonce))

/-! ## Replies -/

/-- A block of header lines with the blank line at its end. -/
def headerBlock (lines : List String) : Bytes :=
  Utf8.encode (String.join (lines.map (· ++ "\r\n")) ++ "\r\n")

/-- The line that names a negotiated sub-protocol. -/
def subProtocolLine (subProtocol : Option String) : List String :=
  subProtocol.toList.map ("Sec-WebSocket-Protocol: " ++ ·)

/-- The reply that accepts a framed version. -/
def acceptReply (key : String) (subProtocol : Option String) : Bytes :=
  headerBlock
    (["HTTP/1.1 101 Switching Protocols", "Upgrade: WebSocket", "Connection: Upgrade",
      "Sec-WebSocket-Accept: " ++ acceptKey key] ++ subProtocolLine subProtocol)

/-- The reply that accepts draft-00, with the answer to the challenge behind the header block. -/
def draftReply (request : Request) (origin subProtocol : Option String) (answer : Bytes) : Bytes :=
  headerBlock
    (["HTTP/1.1 101 WebSocket Protocol Handshake", "Upgrade: WebSocket", "Connection: Upgrade"] ++
      origin.toList.map ("Sec-WebSocket-Origin: " ++ ·) ++
      ["Sec-WebSocket-Location: ws://" ++ request.host.getD "" ++ request.path] ++
      subProtocolLine subProtocol) ++ answer

/-- The reply to a request for a version that is not supported. -/
def rejectReply : Bytes :=
  headerBlock
    ["HTTP/1.1 400 Bad Request", "Upgrade: WebSocket", "Connection: Upgrade",
      "Sec-WebSocket-Version: " ++ Version.advertised]

end FramedChannel.WebSocket
