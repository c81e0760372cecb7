import FramedChannel.Channel

/-!
# Connections

A connection is a transport that was accepted and has no decoder yet.  It
becomes a channel when it is bound to one, with options.

* `Connection.bind` takes options that were validated.
* `Connection.intoChannel` validates them first.
* A `Creator` has options that were validated once, and makes a channel of any
  number of connections, each with a decoder of its own.
-/

namespace FramedChannel

/-- A transport that is not bound to a decoder. -/
structure Connection where
  /-- The socket of the peer, if the transport has one. -/
  remote : Option Socket
  deriving DecidableEq, Repr

namespace Connection

variable {σ π : Type} [PackageDecoder σ π]

/-- The connection of a stream that the application supplied. -/
def ofStream : Connection :=
  { remote := none }

/-- A channel of a connection, with options that were validated. -/
def bind (connection : Connection) (decoder : σ) (options : ConnectionOptions) :
    Except Breach (Channel σ π) := do
  let c ← Channel.assemble decoder options none
  match connection.remote with
  | some remote => return c.withRemote remote
  | none => return c

/-- A channel of a connection, unless the options are invalid. -/
def intoChannel (connection : Connection) (decoder : σ) (options : ConnectionOptions) :
    Except Error (Except Breach (Channel σ π)) := do
  options.validate
  return connection.bind decoder options

end Connection

/-- What makes channels of connections. -/
structure Creator (σ : Type) where
  options : ConnectionOptions
  /-- The decoder of each new channel. -/
  factory : Unit → σ
  valid : options.validate = .ok ()

namespace Creator

variable {σ π : Type}

/-- A creator, unless the options are invalid. -/
def of (options : ConnectionOptions) (factory : Unit → σ) : Except Error (Creator σ) :=
  match valid : options.validate with
  | .ok () => .ok { options, factory, valid }
  | .error fault => .error fault

/-- The channel of a connection. -/
def create [PackageDecoder σ π] (creator : Creator σ) (connection : Connection) :
    Except Breach (Channel σ π) :=
  connection.bind (creator.factory ()) creator.options

end Creator

end FramedChannel
