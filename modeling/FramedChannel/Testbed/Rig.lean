import FramedChannel.Channel.Step
import FramedChannel.Testbed.Wire

/-!
# Rigs

A rig runs one channel on a wire until nothing can move.  The channel may be
part of something larger, which `Machine` describes.

* A task is a loop of the channel or a call that waits.  `move?` gives the next
  move of a task, if it can move.
* Tasks take turns.  A task moves until it has to wait, and a task that becomes
  able to move queues behind the others.
* `settle` gives out turns until no task can move.
-/

namespace FramedChannel.Testbed

/-- Something with a channel in it, whose actions are in `α` and whose events are in `ε`. -/
structure Machine (μ α ε σ π : Type) where
  channel : μ → Channel σ π
  /-- An action of the channel as an action of the machine. -/
  lift : Action → α
  step : μ → α → Option (List ε × μ)

/-- What can have a turn. -/
inductive Task where
  | drain
  | fill
  | supervisor
  | call (id : Nat)
  deriving DecidableEq, Repr

/-- What a task does next. -/
inductive Move where
  /-- It reads from the wire. -/
  | read
  /-- It writes to the wire. -/
  | write
  | act (action : Action)
  deriving DecidableEq, Repr

/-! ## Moves -/

section Moves

variable {σ π : Type}

/-- The next move of the drain loop. -/
def drainMove? (c : Channel σ π) (w : Wire) : Option Move :=
  match c.drain with
  | .idle =>
    if c.isClosing then some (.act (.drain .flush))
    else if c.outbox.queue.isEmpty then none
    else some (.act (.drain .take))
  | .writing .. =>
    if w.canWrite then some .write
    else if c.isClosing then some (.act (.drain .abandon))
    else none
  | .flushing _ _ deadline =>
    if w.canWrite then some .write
    else if deadline ≤ c.now then some (.act (.drain .expire))
    else none
  | .shutting _ => some (.act (.drain .shutDown))
  | .ended => none

/-- The next move of the send that holds the lock, if it belongs to a given sender. -/
def sendMove? (c : Channel σ π) (sender : Sender) : Option Move :=
  match c.outbox.holder with
  | some holder =>
    if holder.sender = sender ∧ c.outbox.canProceed c.now then some (.act .proceed) else none
  | none => none

/-- The next move of the fill loop. -/
def fillMove? (c : Channel σ π) (w : Wire) : Option Move :=
  match c.fill with
  | .reading =>
    if Channel.maxReadBuffer < c.options.receiveBufferSize then some (.act (.fill .overflow))
    else if c.isClosing then some (.act (.fill .stop))
    else if w.canRead then some .read
    else none
  | .delivering (.reply _ :: _) _ => some (.act (.fill .reply))
  | .delivering _ _ =>
    if c.isClosing then some (.act (.fill .stop))
    else if c.isUnread || c.packages.length < Channel.packageCapacity then
      some (.act (.fill .deliver))
    else none
  | .replying .. => sendMove? c .reply
  | .ended _ => none

/-- The next move of the supervisor. -/
def supervisorMove? (c : Channel σ π) : Option Move :=
  let isDue :=
    match c.supervisor with
    | .watchingFill => c.fill.isOver
    | .watchingDrain => c.drain.isOver
    | .ended => false
  if isDue then some (.act .supervise) else none

/-- The next move of a call. -/
def callMove? (c : Channel σ π) (id : Nat) : Option Move :=
  match sendMove? c (.call id) with
  | some move => some move
  | none =>
    if c.readers.head? = some id ∧ (c.isDry || !c.packages.isEmpty) then some (.act .receive)
    else if c.closing.signal.isSome ∧ id ∈ c.closers then some (.act (.notice id))
    else none

/-- The next move of a task. -/
def move? (c : Channel σ π) (w : Wire) : Task → Option Move
  | .drain => if c.isStarted then drainMove? c w else none
  | .fill => if c.isStarted then fillMove? c w else none
  | .supervisor => if c.isStarted then supervisorMove? c else none
  | .call id => callMove? c id

/-- The tasks that may be able to move, in the order in which they queue when they become able at
once. -/
def tasks (c : Channel σ π) : List Task :=
  let holder :=
    match c.outbox.holder with
    | some ⟨.call id, _⟩ => [id]
    | _ => []
  [.drain, .fill, .supervisor] ++ (holder ++ c.readers.head?.toList ++ c.closers).map .call

/-- When a task stops waiting because time is over. -/
def deadline? (c : Channel σ π) : Task → Option Nat
  | .drain =>
    match c.drain with
    | .flushing _ _ deadline | .shutting deadline => some deadline
    | _ => none
  | task =>
    match c.outbox.holder with
    | some ⟨sender, .reserving _ deadline _⟩ =>
      let own : Task :=
        match sender with
        | .reply => .fill
        | .call id => .call id
      if task = own then some deadline else none
    | _ => none

/-- The actions that a move comes to, and the wire behind them. -/
def actions (c : Channel σ π) (w : Wire) : Move → List Action × Wire
  | .act action =>
    ([action], if action = .drain .shutDown then w.shutDown else w)
  | .read =>
    match w.read c.options.receiveBufferSize with
    | (.bytes bytes, w) => ([.fill (.read bytes)], w)
    | (.finished, w) => ([.fill .finish], w)
    | (.failed fault, w) => ([.fill (.fail fault)], w)
    | (.blocked, w) => ([], w)
  | .write =>
    match c.drain with
    | .writing batch taken | .flushing batch taken _ =>
      let (outcome, total, w) := Batch.write Wire.writer batch taken w
      let writes : List Action := if taken < total then [.drain (.write (total - taken))] else []
      let ends : List Action :=
        match outcome with
        | .written => [.drain .confirm]
        | .failed fault => [.drain (.fail fault)]
        | .blocked => []
      (writes ++ ends, w)
    | _ => ([], w)

/-- An upper bound for the moves that can follow before all tasks wait: bytes, chunks, items and
calls each need a few. -/
def patience (c : Channel σ π) (w : Wire) : Nat :=
  let items :=
    match c.fill with
    | .delivering items _ | .replying items _ => items.length
    | _ => 0
  let batch :=
    match c.drain with
    | .writing batch _ | .flushing batch _ _ => batch.length
    | _ => 0
  1000 + 16 * (w.load + c.reassembly.pending.length + items + batch + c.outbox.queue.length
    + c.outbox.waiting.length + c.packages.length + c.readers.length + c.closers.length)

/-- How many bytes of a channel wait to be written. -/
def unwritten (c : Channel σ π) : Nat :=
  let batch :=
    match c.drain with
    | .writing batch _ | .flushing batch _ _ => Batch.size batch
    | _ => 0
  let bytes : Load → Bytes
    | .chunk bytes | .written bytes _ => bytes
  let held :=
    match c.outbox.holder with
    | some ⟨_, .entered load⟩ => (bytes load).length
    | some ⟨_, .reserving chunk ..⟩ | some ⟨_, .queueing chunk _⟩ => chunk.length
    | none => 0
  batch + held + Batch.size c.outbox.queue +
    Bytes.total (c.outbox.waiting.map fun send => bytes send.load)

end Moves

/-! ## Rigs -/

/-- A machine on a wire. -/
structure Rig (μ ε : Type) where
  machine : μ
  wire : Wire
  /-- The tasks that have a turn coming, the next one first. -/
  ready : List Task := []
  /-- What happened and was not looked at, the latest first. -/
  log : List ε := []

namespace Rig

variable {μ α ε σ π : Type}

/-- Queues the tasks that became able to move. -/
def wake (m : Machine μ α ε σ π) (rig : Rig μ ε) : Rig μ ε :=
  let c := m.channel rig.machine
  let woken := (tasks c).filter fun task =>
    !rig.ready.contains task && (move? c rig.wire task).isSome
  { rig with ready := rig.ready ++ woken }

/-- Takes a machine that something happened to.  Loops that were just started queue for their first
turn. -/
def update (m : Machine μ α ε σ π) (rig : Rig μ ε) (events : List ε) (machine : μ) : Rig μ ε :=
  let started := (m.channel machine).isStarted && !(m.channel rig.machine).isStarted
  let wire := if (m.channel machine).hasLetGo then rig.wire.letGo else rig.wire
  let ready := if started then rig.ready ++ [.drain, .fill, .supervisor] else rig.ready
  wake m { machine, wire, ready, log := events.reverse ++ rig.log }

/-- Makes the steps of the machine for some actions, as far as it allows them. -/
def act (m : Machine μ α ε σ π) (rig : Rig μ ε) : List α → Rig μ ε
  | [] => rig
  | action :: rest =>
    match m.step rig.machine action with
    | none => rig
    | some (events, machine) => act m (rig.update m events machine) rest

/-- The task whose turn it is makes a move, or gives its turn away.  There is no turn if no task
waits for one. -/
def turn (m : Machine μ α ε σ π) (rig : Rig μ ε) : Option (Rig μ ε) :=
  match rig.ready with
  | [] => none
  | task :: rest =>
    let c := m.channel rig.machine
    match move? c rig.wire task with
    | none => some { rig with ready := rest }
    | some move =>
      let (steps, wire) := actions c rig.wire move
      some (act m { rig with wire } (steps.map m.lift))

/-- A number of turns. -/
def turns (m : Machine μ α ε σ π) : Nat → Rig μ ε → Rig μ ε
  | 0, rig => rig
  | count + 1, rig =>
    match rig.turn m with
    | none => rig
    | some rig => turns m count rig

/-- Lets the tasks move until all of them wait. -/
def settle (m : Machine μ α ε σ π) (rig : Rig μ ε) : Rig μ ε :=
  let rig := wake m rig
  turns m (patience (m.channel rig.machine) rig.wire) rig

/-- An action, and everything settles. -/
def perform (m : Machine μ α ε σ π) (rig : Rig μ ε) (action : α) : Rig μ ε :=
  settle m (rig.act m [action])

/-- The machine was changed from outside, and everything settles. -/
def replace (m : Machine μ α ε σ π) (rig : Rig μ ε) (machine : μ) : Rig μ ε :=
  settle m (rig.update m [] machine)

/-- Something happened to the wire, and everything settles. -/
def rewire (m : Machine μ α ε σ π) (rig : Rig μ ε) (wire : Wire) : Rig μ ε :=
  settle m { rig with wire }

/-- Time passes at once, and everything settles.  The tasks whose time is over have their turns in
the order of their deadlines. -/
def advance (m : Machine μ α ε σ π) (rig : Rig μ ε) (time : Nat) : Rig μ ε :=
  match m.step rig.machine (m.lift (.tick time)) with
  | none => rig
  | some (events, machine) =>
    let c := m.channel machine
    let due := (tasks c).filterMap fun task =>
      match deadline? c task with
      | some deadline => if deadline ≤ c.now then some (deadline, task) else none
      | none => none
    let ready := (due.mergeSort fun a b => a.1 ≤ b.1).map (·.2)
    settle m { rig with machine, log := events.reverse ++ rig.log, ready := rig.ready ++ ready }

/-- What happened since the last look. -/
def takeLog (rig : Rig μ ε) : List ε × Rig μ ε :=
  (rig.log.reverse, { rig with log := [] })

/-! ## The peer -/

/-- How far the peer came with writing. -/
structure PeerWrite where
  count : Nat
  /-- Whether the channel's end was closed. -/
  isBroken : Bool

/-- The peer writes at most `rounds` times, each time what fits, and everything settles behind each
write. -/
def peerWrites (m : Machine μ α ε σ π) : Nat → Rig μ ε → Bytes → Nat → PeerWrite × Rig μ ε
  | 0, rig, _, count => (⟨count, false⟩, rig)
  | rounds + 1, rig, bytes, count =>
    if bytes.isEmpty then (⟨count, false⟩, rig)
    else
      match rig.wire.peerWrite bytes with
      | (none, _) => (⟨count, true⟩, rig)
      | (some 0, _) => (⟨count, false⟩, rig)
      | (some n, wire) => peerWrites m rounds (rig.rewire m wire) (bytes.drop n) (count + n)

/-- The peer writes until all is written or nothing fits. -/
def peerWrite (m : Machine μ α ε σ π) (rig : Rig μ ε) (bytes : Bytes) : PeerWrite × Rig μ ε :=
  peerWrites m bytes.length rig bytes 0

/-- What the peer read. -/
structure PeerRead where
  bytes : Bytes
  /-- Whether the peer met the end. -/
  isFinished : Bool

/-- The peer reads at most `rounds` times, and everything settles behind each read. -/
def peerReads (m : Machine μ α ε σ π) :
    Nat → Rig μ ε → Option Nat → Bytes → PeerRead × Rig μ ε
  | 0, rig, _, bytes => (⟨bytes, false⟩, rig)
  | rounds + 1, rig, limit, bytes =>
    if limit = some 0 then (⟨bytes, false⟩, rig)
    else if rig.wire.isFinished then (⟨bytes, true⟩, rig)
    else
      match rig.wire.peerRead (limit.getD rig.wire.load) with
      | ([], _) => (⟨bytes, false⟩, rig)
      | (piece, wire) =>
        peerReads m rounds (rig.rewire m wire) (limit.map (· - piece.length)) (bytes ++ piece)

/-- The peer reads until nothing comes any more, or until it has `limit` bytes. -/
def peerRead (m : Machine μ α ε σ π) (rig : Rig μ ε) (limit : Option Nat) : PeerRead × Rig μ ε :=
  let c := m.channel rig.machine
  peerReads m (patience c rig.wire + 16 * unwritten c) rig limit []

/-- The peer ends its writing, and everything settles. -/
def peerShutDown (m : Machine μ α ε σ π) (rig : Rig μ ε) : Rig μ ε :=
  rig.rewire m rig.wire.peerShutDown

/-- The peer goes away, and everything settles. -/
def peerDrop (m : Machine μ α ε σ π) (rig : Rig μ ε) : Rig μ ε :=
  rig.rewire m rig.wire.peerDrop

end Rig

end FramedChannel.Testbed
