import FramedChannel.Backpressure
import FramedChannel.Options

/-!
# Outboxes

An outbox takes chunks from any number of sends and hands them on in order.

* All sends share one lock, which they get in the order in which they asked.
* The send that holds the lock gets its chunk together, waits for a slot, waits
  for room in the queue, and leaves.
* A send either carries a finished chunk, or a writer that appends to the
  scratch buffer of the outbox.  A writer that fails leaves the buffer empty.

`Outbox.proceed` is one step of the send that holds the lock, and
`Outbox.canProceed` says whether there is one.
-/

namespace FramedChannel

/-! ## Sends -/

/-- Who waits for a send to return. -/
inductive Sender where
  /-- The channel itself, which answers the peer. -/
  | reply
  | call (id : Nat)
  deriving DecidableEq, Repr

/-- What a send carries. -/
inductive Load where
  | chunk (bytes : Bytes)
  /-- A writer that appends some bytes, and fails behind them if there is a fault.  Every writer
  comes to an end: one that breaks down, and leaves what it appended in the scratch buffer, is left
  out. -/
  | written (bytes : Bytes) (fault : Option Error)
  deriving DecidableEq, Repr

/-- The load that carries an encoded package, or the failure of its encoder. -/
def Load.encoded : Except Error Bytes → Load
  | .ok bytes => .written bytes none
  | .error fault => .written [] (some fault)

/-- A send that has not begun. -/
structure Send where
  sender : Sender
  load : Load
  deriving DecidableEq, Repr

/-- How a send returned. -/
inductive Sent where
  /-- It went well, and its writer found a scratch buffer of that length. -/
  | done (before : Nat)
  | failed (error : Error)
  deriving DecidableEq, Repr

/-- How far the send is that holds the lock. -/
inductive Holding where
  | entered (load : Load)
  /-- It has a chunk and waits for a slot. -/
  | reserving (chunk : Bytes) (deadline before : Nat)
  /-- It has a chunk and a slot, and waits for room in the queue. -/
  | queueing (chunk : Bytes) (before : Nat)
  deriving DecidableEq, Repr

/-- The send that holds the lock. -/
structure Holder where
  sender : Sender
  holding : Holding
  deriving DecidableEq, Repr

/-! ## The outbox -/

/-- The side of a channel that takes chunks. -/
structure Outbox where
  slots : Slots
  /-- How many chunks the queue holds. -/
  capacity : Nat
  /-- How long a send waits for a slot, in milliseconds. -/
  timeout : Nat
  /-- The chunks that wait to be written, the oldest first. -/
  queue : List Bytes := []
  /-- Whether the queue takes chunks. -/
  isOpen : Bool := true
  /-- The buffer that writers append to. -/
  scratch : Bytes := []
  holder : Option Holder := none
  /-- The sends that wait for the lock, the longest waiting first. -/
  waiting : List Send := []
  deriving DecidableEq, Repr

namespace Outbox

/-- An empty outbox. -/
def of (options : ConnectionOptions) : Outbox :=
  { slots := { limit := options.maxPendingSends }
    capacity := options.sendQueueCapacity
    timeout := options.sendTimeout }

/-- A send gets the lock, or waits for it behind all others.  The lock is fair: a send has its place
from the moment on in which it is called, not only from its first attempt to go on, and whoever
called before it gets the lock before it. -/
def enter (o : Outbox) (send : Send) : Outbox :=
  match o.holder with
  | none => { o with holder := some ⟨send.sender, .entered send.load⟩ }
  | some _ => { o with waiting := o.waiting ++ [send] }

/-- The lock goes to the send that waits longest. -/
def leave (o : Outbox) : Outbox :=
  match o.waiting with
  | [] => { o with holder := none }
  | send :: rest =>
    { o with holder := some ⟨send.sender, .entered send.load⟩, waiting := rest }

/-- Whether a call holds the lock. -/
def isHeldBy (o : Outbox) (call : Nat) : Bool :=
  o.holder.any (·.sender == .call call)

/-- A call is dropped before it returned.  It lets go of the lock, or does not wait for it any more.
A slot that it took stays taken. -/
def giveUp (o : Outbox) (call : Nat) : Outbox :=
  if o.isHeldBy call then o.leave
  else { o with waiting := o.waiting.eraseP (·.sender == .call call) }

/-- The queue takes no more chunks. -/
def shut (o : Outbox) : Outbox :=
  { o with isOpen := false }

/-- The queue is gone, with what it held.  The slots of its chunks stay taken. -/
def discard (o : Outbox) : Outbox :=
  { o with isOpen := false, queue := [] }

/-- Slots given back. -/
def release (o : Outbox) (count : Nat) : Outbox :=
  { o with slots := o.slots.release count }

/-- What a step of the holder did. -/
structure Progress where
  outbox : Outbox
  /-- The chunk that went into the queue. -/
  queued : Option Bytes := none
  /-- What the send gave back, if it returned. -/
  sent : Option Sent := none

/-- The send that holds the lock returns. -/
def returning (o : Outbox) (sent : Sent) (queued : Option Bytes) : Progress :=
  { outbox := o.leave, queued, sent := some sent }

/-- The holder goes on to another state. -/
def holdingOn (o : Outbox) (sender : Sender) (holding : Holding) : Progress :=
  { outbox := { o with holder := some ⟨sender, holding⟩ } }

/-- A step of a holder in a given state, unless it has to wait. -/
def proceedFrom (o : Outbox) (now : Nat) (sender : Sender) : Holding → Option Progress
  | .entered (.chunk bytes) => some (o.holdingOn sender (.reserving bytes (now + o.timeout) 0))
  | .entered (.written bytes fault) =>
    let before := o.scratch.length
    let chunk := o.scratch ++ bytes
    let o := { o with scratch := [] }
    match fault with
    | some error => some (o.returning (.failed error) none)
    | none =>
      if chunk.isEmpty then some (o.returning (.done before) none)
      else some (o.holdingOn sender (.reserving chunk (now + o.timeout) before))
  | .reserving chunk deadline before =>
    match o.slots.take? with
    | some slots => some ({ o with slots }.holdingOn sender (.queueing chunk before))
    | none =>
      if deadline ≤ now then some (o.returning (.failed .backpressureTimeout) none) else none
  | .queueing chunk before =>
    if !o.isOpen then some ((o.release 1).returning (.failed .channelClosed) none)
    else if o.queue.length < o.capacity then
      some ({ o with queue := o.queue ++ [chunk] }.returning (.done before) (some chunk))
    else none

/-- A step of the send that holds the lock, with its sender.  There is none if no send holds the
lock, or if the holder has to wait. -/
def proceed (o : Outbox) (now : Nat) : Option (Sender × Progress) :=
  match o.holder with
  | none => none
  | some holder => (o.proceedFrom now holder.sender holder.holding).map (holder.sender, ·)

/-- Whether the send that holds the lock can make a step. -/
def canProceed (o : Outbox) (now : Nat) : Bool :=
  match o.holder with
  | none => false
  | some ⟨_, .entered _⟩ => true
  | some ⟨_, .reserving _ deadline _⟩ => !o.slots.isFull || deadline ≤ now
  | some ⟨_, .queueing ..⟩ => !o.isOpen || o.queue.length < o.capacity

theorem isSome_proceed (o : Outbox) (now : Nat) : (o.proceed now).isSome = o.canProceed now := by
  unfold proceed canProceed
  rcases o.holder with _ | ⟨sender, holding⟩
  · rfl
  · cases holding with
    | entered load =>
      cases load with
      | chunk bytes => simp [proceedFrom]
      | written bytes fault =>
        cases fault with
        | none => by_cases h : (o.scratch ++ bytes).isEmpty <;> simp [proceedFrom, h]
        | some error => simp [proceedFrom]
    | reserving chunk deadline before =>
      by_cases hfull : o.slots.isFull <;> by_cases hdue : deadline ≤ now <;>
        simp [proceedFrom, Slots.take?, hfull, hdue]
    | queueing chunk before =>
      by_cases hopen : o.isOpen <;> by_cases hroom : o.queue.length < o.capacity <;>
        simp [proceedFrom, hopen, hroom]

end Outbox

end FramedChannel
