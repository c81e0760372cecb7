import FramedChannel.Testbed.Rig
import FramedChannel.WebSocket.Monitor

/-!
# Networks

A network has any number of sessions, each on a duplex of its own, and one
monitor that watches them.  All of them share one clock.

`Network.perform` is an action of one session: a closing handshake that begins
goes to the monitor, and everything settles.
-/

namespace FramedChannel.Testbed

open WebSocket (Session SessionEvent Monitor)

/-- A channel by itself. -/
def channelMachine {σ π : Type} [PackageDecoder σ π] :
    Machine (Channel σ π) Action (Event π) σ π :=
  ⟨id, id, Channel.step⟩

/-- A session with the channel that it is on. -/
def sessionMachine :
    Machine Session Session.Action SessionEvent WebSocket.Decoder WebSocket.Package :=
  ⟨Session.channel, .channel, Session.step⟩

/-- A session on a duplex. -/
abbrev Site := Rig Session SessionEvent

/-- Sessions under one monitor. -/
structure Network where
  connection : ConnectionOptions
  /-- How many bytes each direction of a duplex holds. -/
  capacity : Nat
  monitor : Monitor
  now : Nat := 0
  sites : List Site := []

namespace Network

/-- A network without sessions. -/
def of (options : WebSocketOptions) (connection : ConnectionOptions) (capacity : Nat) : Network :=
  { connection, capacity, monitor := { options } }

/-- A network with one more session, unless no channel can be made for it. -/
def add (n : Network) : Except Error (Except Breach Network) := do
  let options := n.monitor.options
  let channel ← Channel.ofStream (WebSocket.Decoder.of options) n.connection
  return channel.map fun channel =>
    let session := Session.of { channel with now := n.now } options
    { n with sites := n.sites ++ [⟨session, Wire.ofCapacity n.capacity, [], []⟩] }

/-- A network in which one site was replaced. -/
def setSite (n : Network) (index : Nat) (site : Site) : Network :=
  { n with sites := n.sites.set index site }

/-- An action of the session of a site, and everything settles.  A monitor that watches the session
hears of a closing handshake that begins. -/
def perform (n : Network) (index : Nat) (site : Site) (action : Session.Action) : Network :=
  let wasClosing := site.machine.closeStarted.isSome
  let site := site.perform sessionMachine action
  let monitor :=
    if site.machine.isWatchedClosing && !wasClosing then n.monitor.watchClosing index
    else n.monitor
  { n with monitor }.setSite index site

/-- Gives every site its session back, and lets it settle. -/
def putSessions (n : Network) (sessions : List Session) : Network :=
  { n with
    sites := n.sites.zipWith (fun site session => site.replace sessionMachine session) sessions }

/-- The sessions of all sites. -/
def sessions (n : Network) : List Session :=
  n.sites.map (·.machine)

/-- The monitor watches a session. -/
def track (n : Network) (index : Nat) (site : Site) : Network :=
  { n with monitor := n.monitor.track index }.perform index site .track

/-- Sweeps now.  The result has the number of sessions that were closed. -/
def sweep (n : Network) : Nat × Network :=
  let (forced, monitor, sessions) := n.monitor.sweep n.now n.sessions
  (forced, { n with monitor }.putSessions sessions)

/-- Time passes at once, for the sessions first and then for the monitor. -/
def advance (n : Network) (time : Nat) : Network :=
  let n := { n with
    now := n.now + time
    sites := n.sites.map fun (site : Site) => site.advance sessionMachine time }
  let (monitor, sessions) := n.monitor.tick n.now n.sessions
  { n with monitor }.putSessions sessions

end Network

end FramedChannel.Testbed
