import FramedChannel.Channel

/-!
# Steps of a channel

`Channel.step` gives one step of a channel for every action: a call of the
application, a step of one of the loops with what the transport answered, or
the passing of time.  An action that the state does not allow has no step, so
any order of actions that has steps is an interleaving of the calls and loops.

A step is what runs between two moments in which a loop or a call has to wait.
`Channel.steps` makes the steps for a list of actions, and gives what could be
seen of them as a history.
-/

namespace FramedChannel

/-- A step of the fill loop. -/
inductive FillAction where
  /-- The transport gave bytes. -/
  | read (bytes : Bytes)
  /-- The transport is at its end. -/
  | finish
  /-- Reading failed. -/
  | fail (fault : TransportFault)
  /-- No buffer of the wanted size can be had. -/
  | overflow
  /-- The loop sees that the channel is cancelled. -/
  | stop
  /-- The next item is a package, and goes to the consumer. -/
  | deliver
  /-- The next item is a reply, and goes to the outbox. -/
  | reply
  deriving DecidableEq, Repr

/-- A step of the drain loop. -/
inductive DrainAction where
  /-- The loop takes a batch out of the queue. -/
  | take
  /-- The transport took that many bytes of the batch. -/
  | write (count : Nat)
  /-- The transport passed on all of a batch that it took. -/
  | confirm
  /-- Writing failed, or passing on what was written, or shutting the write side down. -/
  | fail (fault : TransportFault)
  /-- The loop sees in the middle of a batch that the channel is cancelled. -/
  | abandon
  /-- The loop sees between two batches that the channel is cancelled. -/
  | flush
  /-- The write side is shut down. -/
  | shutDown
  /-- The time for the last batch, or for the shutdown, is over. -/
  | expire
  deriving DecidableEq, Repr

/-- What can happen to a channel. -/
inductive Action where
  | start
  | run
  | release
  | abort (reason : CloseReason)
  | close (call : Nat) (reason : CloseReason)
  | send (send : Send)
  | next (call : Nat)
  | collect
  | waitClosed (call : Nat)
  /-- The send that holds the lock makes a step. -/
  | proceed
  /-- The first call that waits for a package gets one, or the end. -/
  | receive
  /-- A call sees the close signal. -/
  | notice (call : Nat)
  | fill (action : FillAction)
  | drain (action : DrainAction)
  | supervise
  /-- Time passes. -/
  | tick (time : Nat)
  deriving DecidableEq, Repr

/-- Whether an action needs no call of the application. -/
def Action.isInternal : Action → Bool
  | proceed | receive | notice _ | fill _ | drain _ | supervise | tick _ => true
  | _ => false

namespace Channel

variable {σ π : Type}

/-! ## The fill loop -/

/-- The fill loop with the items and the verdict of a read. -/
def filled (items : List (Item π)) : Verdict → Fill π
  | .failed error => Fill.resume items (some error.closeReason)
  | _ => Fill.resume items none

/-- A step of the fill loop. -/
def stepFill [PackageDecoder σ π] (c : Channel σ π) :
    FillAction → Option (List (Event π) × Channel σ π)
  | .read bytes =>
    match c.fill with
    | .reading =>
      if 0 < bytes.length ∧ bytes.length ≤ c.options.receiveBufferSize then
        let (items, verdict, reassembly) := (c.reassembly.extend bytes).decode
        some ([], { c with reassembly, fill := filled items verdict })
      else none
    | _ => none
  | .finish =>
    match c.fill with
    | .reading => some ([], { c with fill := .ended (some .remoteClosing) })
    | _ => none
  | .fail fault =>
    match c.fill with
    | .reading => some ([], { c with fill := .ended (some fault.closeReason) })
    | _ => none
  | .overflow =>
    match c.fill with
    | .reading =>
      if maxReadBuffer < c.options.receiveBufferSize then
        some ([], { c with fill := .ended (some .unknown) })
      else none
    | _ => none
  | .stop =>
    match c.fill with
    | .reading | .delivering (.package _ :: _) _ =>
      if c.isClosing then some ([], { c with fill := .ended none }) else none
    | _ => none
  | .deliver =>
    match c.fill with
    | .delivering (.package package :: rest) ending =>
      if c.isUnread then some ([], { c with fill := Fill.resume rest ending })
      else if c.packages.length < packageCapacity then
        some ([], { c with
          packages := c.packages ++ [package], fill := Fill.resume rest ending })
      else none
    | _ => none
  | .reply =>
    match c.fill with
    | .delivering (.reply bytes :: rest) ending =>
      if c.isClosing then
        some ([.returned .reply (.failed .channelClosed)], { c with fill := .ended none })
      else
        some ([], { c with
          fill := .replying rest ending, outbox := c.outbox.enter ⟨.reply, .chunk bytes⟩ })
    | _ => none

/-- The fill loop behind a reply that was sent or could not be sent. -/
def replied (c : Channel σ π) (sent : Sent) : Channel σ π :=
  match c.fill, sent with
  | .replying items ending, .done _ => { c with fill := Fill.resume items ending }
  | .replying .., .failed _ => { c with fill := .ended none }
  | _, _ => c

/-! ## Sends -/

/-- A step of the send that holds the lock. -/
def stepSend (c : Channel σ π) : Option (List (Event π) × Channel σ π) :=
  match c.outbox.proceed c.now with
  | none => none
  | some (sender, progress) =>
    let c := { c with outbox := progress.outbox }
    let queued : List (Event π) := (progress.queued.map (.queued sender)).toList
    match progress.sent with
    | none => some (queued, c)
    | some sent =>
      let c := if sender = .reply then c.replied sent else c
      some (queued ++ [.returned sender sent], c)

/-! ## The drain loop -/

/-- The drain loop has a batch, or has nothing to write when the batch is empty. -/
def beginBatch (c : Channel σ π) (batch : List Bytes) : Channel σ π :=
  if Batch.size batch = 0 then { c with outbox := c.outbox.release batch.length, drain := .idle }
  else { c with drain := .writing batch 0 }

/-- The drain loop is over.  What is left in the queue is gone. -/
def endDrain (c : Channel σ π) : Channel σ π :=
  { c with drain := .ended, outbox := c.outbox.discard }

/-- The last batch is done with, and the write side is to be shut down. -/
def beginShutdown (c : Channel σ π) (batch : List Bytes) : Channel σ π :=
  { c with
    outbox := c.outbox.release batch.length
    drain := .shutting (c.now + flushTimeout) }

/-- The bytes of a batch between two positions. -/
def piece (batch : List Bytes) (taken count : Nat) : Bytes :=
  (batch.flatten.drop taken).take count

/-- Whether the transport can take that many bytes of a batch. -/
def fits (batch : List Bytes) (taken count : Nat) : Prop :=
  0 < count ∧ taken + count ≤ Batch.size batch

instance (batch : List Bytes) (taken count : Nat) : Decidable (fits batch taken count) :=
  inferInstanceAs (Decidable (_ ∧ _))

/-- A step of the drain loop. -/
def stepDrain (c : Channel σ π) : DrainAction → Option (List (Event π) × Channel σ π)
  | .take =>
    match c.drain with
    | .idle =>
      if c.isClosing || c.outbox.queue.isEmpty then none
      else
        let batch := c.outbox.queue.take maxBatch
        let outbox := { c.outbox with queue := c.outbox.queue.drop maxBatch }
        some ([], { c with outbox }.beginBatch batch)
    | _ => none
  | .write count =>
    match c.drain with
    | .writing batch taken =>
      if fits batch taken count then
        some ([.written (piece batch taken count)],
          { c with drain := .writing batch (taken + count) })
      else none
    | .flushing batch taken deadline =>
      if fits batch taken count then
        some ([.written (piece batch taken count)],
          { c with drain := .flushing batch (taken + count) deadline })
      else none
    | _ => none
  | .confirm =>
    match c.drain with
    | .writing batch taken =>
      if taken = Batch.size batch then
        some ([], { c with drain := .idle, outbox := c.outbox.release batch.length })
      else none
    | .flushing batch taken _ =>
      if taken = Batch.size batch then some ([], c.beginShutdown batch) else none
    | _ => none
  | .fail fault =>
    match c.drain with
    | .writing batch _ =>
      let closing := (c.closing.record fault.closeReason).cancel
      some ([], { c with closing, outbox := c.outbox.release batch.length }.endDrain)
    | .flushing batch _ _ => some ([], c.beginShutdown batch)
    | .shutting _ => some ([], c.endDrain)
    | _ => none
  | .abandon =>
    match c.drain with
    | .writing batch _ =>
      if c.isClosing then
        some ([], { c with outbox := c.outbox.release batch.length }.endDrain)
      else none
    | _ => none
  | .flush =>
    match c.drain with
    | .idle =>
      if c.isClosing then
        let batch := c.outbox.queue
        let c := { c with outbox := c.outbox.discard }
        if Batch.size batch = 0 then some ([], c.beginShutdown batch)
        else some ([], { c with drain := .flushing batch 0 (c.now + flushTimeout) })
      else none
    | _ => none
  | .shutDown =>
    match c.drain with
    | .shutting _ => some ([.shutDown], c.endDrain)
    | _ => none
  | .expire =>
    match c.drain with
    | .flushing batch _ deadline => if deadline ≤ c.now then some ([], c.beginShutdown batch) else none
    | .shutting deadline => if deadline ≤ c.now then some ([], c.endDrain) else none
    | _ => none

/-! ## The supervisor and the calls that wait -/

/-- A step of the supervisor. -/
def stepSupervisor (c : Channel σ π) : Option (List (Event π) × Channel σ π) :=
  match c.supervisor, c.fill, c.drain with
  | .watchingFill, .ended reason, _ =>
    let closing := (reason.elim c.closing c.closing.record).cancel
    some ([], { c with closing, supervisor := .watchingDrain })
  | .watchingDrain, _, .ended => some { c with supervisor := .ended }.finish
  | _, _, _ => none

/-- The first call that waits for a package gets one, or the end. -/
def stepReader (c : Channel σ π) : Option (List (Event π) × Channel σ π) :=
  match c.readers, c.packages with
  | call :: readers, package :: packages =>
    some ([.received call (some package)], { c with readers, packages })
  | call :: readers, [] =>
    if c.isDry then some ([.received call none], { c with readers }) else none
  | [], _ => none

/-- A call that waits for the close signal sees it. -/
def stepCloser (c : Channel σ π) (call : Nat) : Option (List (Event π) × Channel σ π) :=
  match c.closing.signal with
  | some reason =>
    if call ∈ c.closers then
      some ([.noticed call reason], { c with closers := c.closers.erase call })
    else none
  | none => none

/-! ## All steps -/

/-- The step of a channel for an action, with what can be seen of it. -/
def step [PackageDecoder σ π] (c : Channel σ π) : Action → Option (List (Event π) × Channel σ π)
  | .start =>
    let (fault, c) := c.start
    some ([.started fault], c)
  | .run =>
    let (fault, c) := c.run
    some ([.claimed fault], c)
  | .release => if c.isHeld then some ([], c.release) else none
  | .abort reason => some (c.abort reason)
  | .close call reason => some (c.close call reason)
  | .send send => some (c.send send)
  | .next call => if c.isHeld then some ([], c.next call) else none
  | .collect => if c.isHeld then some c.collect else none
  | .waitClosed call => some ([], c.waitClosed call)
  | .proceed => c.stepSend
  | .receive => c.stepReader
  | .notice call => c.stepCloser call
  | .fill action => if c.isStarted then c.stepFill action else none
  | .drain action => if c.isStarted then c.stepDrain action else none
  | .supervise => if c.isStarted then c.stepSupervisor else none
  | .tick time => some ([], { c with now := c.now + time })

/-- The steps for some actions, one after another, with all that can be seen of them. -/
def steps [PackageDecoder σ π] (c : Channel σ π) :
    List Action → Option (List (Event π) × Channel σ π)
  | [] => some ([], c)
  | action :: rest => do
    let (first, c) ← c.step action
    let (more, c) ← c.steps rest
    some (first ++ more, c)

end Channel

end FramedChannel
