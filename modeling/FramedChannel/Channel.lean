import FramedChannel.Channel.Batch
import FramedChannel.Channel.Closing
import FramedChannel.Channel.Outbox
import FramedChannel.Package.Reassembly

/-!
# Channels

A channel turns a byte stream into packages and chunks into a byte stream.
Three loops run once it is started.

* The fill loop reads bytes, decodes them, sends the replies of the decoder and
  queues the packages.
* The drain loop takes chunks out of the outbox and writes them in batches.
  Once the channel is cancelled it closes the outbox, writes what is left
  within a time limit and shuts the write side down; but a cancellation in the
  middle of a batch ends it at once.
* The supervisor waits for the fill loop, records its reason, cancels the
  channel, waits for the drain loop and fires the close signal.

This module has the state and the calls that an application makes.  The steps
of the loops are in `FramedChannel.Channel.Step`.
-/

namespace FramedChannel

/-! ## Loops -/

/-- Where the fill loop is. -/
inductive Fill (π : Type) where
  | reading
  /-- It hands out what the last read gave, and ends behind it if there is a reason. -/
  | delivering (items : List (Item π)) (ending : Option CloseReason)
  /-- A reply is on its way into the outbox; the other items come later. -/
  | replying (items : List (Item π)) (ending : Option CloseReason)
  | ended (reason : Option CloseReason)
  deriving DecidableEq, Repr

namespace Fill

variable {π : Type}

/-- The fill loop with items to hand out, or past the last of them. -/
def resume (items : List (Item π)) (ending : Option CloseReason) : Fill π :=
  match items, ending with
  | [], none => reading
  | [], some reason => ended (some reason)
  | item :: rest, ending => delivering (item :: rest) ending

/-- Whether the loop is over. -/
def isOver : Fill π → Bool
  | ended _ => true
  | _ => false

end Fill

/-- Where the drain loop is. -/
inductive Drain where
  | idle
  /-- It writes a batch, of which `taken` bytes are written.  With all of them written, the
  transport has yet to pass them on. -/
  | writing (batch : List Bytes) (taken : Nat)
  /-- The channel closes, and the loop writes what was left. -/
  | flushing (batch : List Bytes) (taken deadline : Nat)
  /-- The loop shuts the write side down. -/
  | shutting (deadline : Nat)
  | ended
  deriving DecidableEq, Repr

/-- Whether the drain loop is over. -/
def Drain.isOver : Drain → Bool
  | ended => true
  | _ => false

/-- Where the supervisor is. -/
inductive Supervisor where
  | watchingFill
  | watchingDrain
  | ended
  deriving DecidableEq, Repr

/-! ## Channels -/

/-- How far a channel is with running. -/
inductive Stage where
  /-- Its transport and its decoder wait for the start. -/
  | assembled
  | started
  /-- It was closed before it was started. -/
  | dropped
  deriving DecidableEq, Repr

/-- Who has the stream of packages. -/
inductive Consumer where
  | unclaimed
  | claimed
  /-- The consumer let go of it, and no new call can come. -/
  | released
  deriving DecidableEq, Repr

/-- A channel with a decoder in `σ` and packages in `π`. -/
structure Channel (σ π : Type) where
  options : ConnectionOptions
  remote : Option Socket := none
  /-- The time in milliseconds. -/
  now : Nat := 0
  stage : Stage := .assembled
  closing : Closing := {}
  outbox : Outbox
  reassembly : Reassembly σ
  fill : Fill π := .reading
  drain : Drain := .idle
  supervisor : Supervisor := .watchingFill
  /-- The packages that no call has taken, the oldest first. -/
  packages : List π := []
  consumer : Consumer := .unclaimed
  /-- The calls that wait for a package, the longest waiting first. -/
  readers : List Nat := []
  /-- The calls that wait for the close signal. -/
  closers : List Nat := []

/-- What happens on a channel and can be seen from outside. -/
inductive Event (π : Type) where
  /-- Starting the loops went well, or failed. -/
  | started (fault : Option Error)
  /-- Claiming the stream of packages went well, or failed. -/
  | claimed (fault : Option Error)
  /-- A chunk went into the queue of the outbox. -/
  | queued (sender : Sender) (chunk : Bytes)
  /-- A send returned. -/
  | returned (sender : Sender) (sent : Sent)
  /-- The transport took bytes. -/
  | written (bytes : Bytes)
  /-- The write side of the transport was shut down. -/
  | shutDown
  /-- A call got a package, or the end of the stream. -/
  | received (call : Nat) (package : Option π)
  /-- The packages that could be had at once, and whether the stream ends behind them. -/
  | collected (packages : List π) (isEnd : Bool)
  /-- An attempt to close said whether it was the first. -/
  | aborted (reason : CloseReason) (first : Bool)
  /-- The close signal fired. -/
  | closed (reason : CloseReason)
  /-- A call saw the close signal. -/
  | noticed (call : Nat) (reason : CloseReason)
  deriving DecidableEq, Repr

namespace Channel

variable {σ π : Type}

/-- How many packages wait for the consumer at most. -/
def packageCapacity : Nat := 64

/-- How many chunks a batch has at most while the channel is open. -/
def maxBatch : Nat := 64

/-- How long the last batch may take, and again how long the shutdown may take, in milliseconds. -/
def flushTimeout : Nat := 1000

/-- The most chunks that a queue can be made for. -/
def maxQueueCapacity : Nat := 1 <<< 61 - 1

/-- The largest buffer that a read can be given. -/
def maxReadBuffer : Nat := 1 <<< 63 - 1

/-! ## Assembling -/

/-- A queue holds one entry at least, and `maxQueueCapacity` at most. -/
def checkQueue (capacity : Nat) : Except Breach Unit :=
  if capacity = 0 then .error .emptyQueue
  else if maxQueueCapacity < capacity then .error (.queueTooLarge maxQueueCapacity)
  else .ok ()

theorem checkQueue_of_le {capacity : Nat} (hpos : 0 < capacity) (hle : capacity ≤ maxQueueCapacity) :
    checkQueue capacity = .ok () := by
  rw [checkQueue, if_neg (Nat.ne_of_gt hpos), if_neg (Nat.not_lt.2 hle)]

theorem checkQueue_of_lt {capacity : Nat} (h : maxQueueCapacity < capacity) :
    checkQueue capacity = .error (.queueTooLarge maxQueueCapacity) := by
  rw [checkQueue, if_neg (Nat.ne_of_gt (Nat.zero_lt_of_lt h)), if_pos h]

/-- A channel with options that were validated.  It has a queue for chunks and one for packages. -/
def assemble [PackageDecoder σ π] (decoder : σ) (options : ConnectionOptions)
    (remote : Option Socket) : Except Breach (Channel σ π) := do
  checkQueue options.sendQueueCapacity
  checkQueue packageCapacity
  return {
    options, remote
    outbox := Outbox.of options
    reassembly := Reassembly.of decoder options.maxPackageLength }

/-- A channel over the two halves of a transport, unless the options are invalid. -/
def create [PackageDecoder σ π] (decoder : σ) (options : ConnectionOptions) :
    Except Error (Except Breach (Channel σ π)) := do
  options.validate
  return assemble decoder options none

/-- A channel over a stream, which is split into its halves. -/
def ofStream [PackageDecoder σ π] (decoder : σ) (options : ConnectionOptions) :
    Except Error (Except Breach (Channel σ π)) :=
  create decoder options

/-- The channel with the socket of its peer, unless that is known already. -/
def withRemote (c : Channel σ π) (socket : Socket) : Channel σ π :=
  { c with remote := some (c.remote.getD socket) }

/-! ## State -/

/-- Whether the channel was started. -/
def isStarted (c : Channel σ π) : Bool :=
  c.stage == .started

/-- Whether closing has begun. -/
def isClosing (c : Channel σ π) : Bool :=
  c.closing.cancelled

/-- Why the channel closed, once it is closed. -/
def closeReason (c : Channel σ π) : Option CloseReason :=
  c.closing.signal

/-- The number of slots that are taken. -/
def pendingCount (c : Channel σ π) : Nat :=
  c.outbox.slots.taken.toNat

/-- Whether no package will come any more. -/
def isDry (c : Channel σ π) : Bool :=
  c.stage == .dropped || c.fill.isOver

/-- Whether somebody has the stream of packages, and can make calls on it. -/
def isHeld (c : Channel σ π) : Bool :=
  c.consumer == .claimed

/-- Whether nobody will take a package any more. -/
def isUnread (c : Channel σ π) : Bool :=
  c.consumer == .released && c.readers.isEmpty

/-- Whether the channel has let go of its transport. -/
def hasLetGo (c : Channel σ π) : Bool :=
  c.stage == .dropped || (c.fill.isOver && c.drain.isOver)

/-! ## Calls -/

/-- Starts the loops, or says why they cannot be started. -/
def start (c : Channel σ π) : Option Error × Channel σ π :=
  match c.stage with
  | .assembled => (none, { c with stage := .started })
  | _ => (some (if c.isClosing then .channelClosed else .alreadyRunning), c)

/-- Claims the stream of packages, and starts the channel if nobody has.  The stream is lost if the
channel is closed. -/
def run (c : Channel σ π) : Option Error × Channel σ π :=
  match c.consumer with
  | .unclaimed =>
    match c.start with
    | (some .channelClosed, c) => (some .channelClosed, { c with consumer := .released })
    | (_, c) => (none, { c with consumer := .claimed })
  | _ => (some .alreadyRunning, c)

/-- The consumer lets go of the stream.  Calls that wait still get their package. -/
def release (c : Channel σ π) : Channel σ π :=
  { c with consumer := .released }

/-- A call begins to wait for a package. -/
def next (c : Channel σ π) (call : Nat) : Channel σ π :=
  { c with readers := c.readers ++ [call] }

/-- A call begins to wait for the close signal. -/
def waitClosed (c : Channel σ π) (call : Nat) : Channel σ π :=
  { c with closers := c.closers ++ [call] }

/-- A send begins.  Once the channel is closing it returns at once. -/
def send (c : Channel σ π) (send : Send) : List (Event π) × Channel σ π :=
  if c.isClosing then ([.returned send.sender (.failed .channelClosed)], c)
  else ([], { c with outbox := c.outbox.enter send })

/-- The close signal fires, unless it fired before. -/
def finish (c : Channel σ π) : List (Event π) × Channel σ π :=
  let closing := c.closing.finish
  let events :=
    match c.closing.signal, closing.signal with
    | none, some reason => [.closed reason]
    | _, _ => []
  (events, { c with closing })

/-- Begins to close.  A channel that was never started is closed at once. -/
def abort (c : Channel σ π) (reason : CloseReason) : List (Event π) × Channel σ π :=
  let first := c.closing.recorded.isNone && !c.closing.cancelled
  let c := { c with closing := (c.closing.record reason).cancel }
  match c.stage with
  | .assembled =>
    let (events, c) :=
      { c with stage := .dropped, outbox := c.outbox.discard }.finish
    (.aborted reason first :: events, c)
  | _ => ([.aborted reason first], c)

/-- Begins to close, and waits for the close signal. -/
def close (c : Channel σ π) (call : Nat) (reason : CloseReason) :
    List (Event π) × Channel σ π :=
  let (events, c) := c.abort reason
  (events, c.waitClosed call)

/-- Takes the packages that can be had without waiting, unless a call waits for one. -/
def collect (c : Channel σ π) : List (Event π) × Channel σ π :=
  if c.readers.isEmpty then ([.collected c.packages c.isDry], { c with packages := [] })
  else ([.collected [] false], c)

end Channel

end FramedChannel
