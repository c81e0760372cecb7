import FramedChannel.WebSocket.Session

/-!
# Handshake monitors

A monitor closes sessions whose opening or closing handshake takes too long.
Sessions enter the opening queue when they are tracked, and the closing queue
when a tracked session sends its close message.

A sweep goes through the opening queue and then through the closing queue.  It
drops sessions that need no watching, keeps those that are in time, and closes
those that are overdue.  `Fate` is the decision for one session.

Sessions are named by their place in a list, and a queue may hold one twice.
-/

namespace FramedChannel.WebSocket

/-- What a sweep does with a session in a queue. -/
inductive Fate where
  /-- It needs no watching. -/
  | dropped
  /-- It is in time. -/
  | kept
  | overdue
  deriving DecidableEq, Repr

namespace Fate

/-- The fate of a session whose handshake began at some time. -/
def ofAge (now began timeout : Nat) : Fate :=
  if now - began < timeout then kept else overdue

/-- The fate of a session in the opening queue. -/
def opening (now timeout : Nat) (s : Session) : Fate :=
  if s.isClosing || !s.stored.isPending then dropped else ofAge now s.created timeout

/-- The fate of a session in the closing queue. -/
def closing (now timeout : Nat) (s : Session) : Fate :=
  if s.isClosing then dropped
  else
    match s.closeStarted with
    | none => dropped
    | some began => ofAge now began timeout

end Fate

/-- What is left of a queue and of the sessions behind a sweep. -/
structure Swept where
  /-- How many sessions were closed. -/
  forced : Nat
  queue : List Nat
  sessions : List Session

/-- Goes through a queue. -/
def sweepQueue (fate : Session → Fate) : List Nat → List Session → Swept
  | [], sessions => ⟨0, [], sessions⟩
  | index :: rest, sessions =>
    match (sessions[index]?).map fate with
    | none | some .dropped => sweepQueue fate rest sessions
    | some .kept =>
      let swept := sweepQueue fate rest sessions
      { swept with queue := index :: swept.queue }
    | some .overdue =>
      let swept := sweepQueue fate rest
        (sessions.modify index fun s => (s.forceClose .timeout).2)
      { swept with forced := swept.forced + 1 }

/-- What is left of both queues and of the sessions behind a sweep. -/
structure SweptQueues where
  /-- How many sessions were closed. -/
  forced : Nat
  opening : List Nat
  closing : List Nat
  sessions : List Session

/-- Goes through the opening queue, and then through the closing queue. -/
def sweepQueues (now openTimeout closeTimeout : Nat) (opening closing : List Nat)
    (sessions : List Session) : SweptQueues :=
  let first := sweepQueue (Fate.opening now openTimeout) opening sessions
  let second := sweepQueue (Fate.closing now closeTimeout) closing first.sessions
  { forced := first.forced + second.forced
    opening := first.queue
    closing := second.queue
    sessions := second.sessions }

/-- A monitor. -/
structure Monitor where
  options : WebSocketOptions
  /-- Sessions that wait for their opening handshake. -/
  opening : List Nat := []
  /-- Sessions that wait for the peer's close message. -/
  closing : List Nat := []
  /-- When the next sweep is due, while the monitor runs. -/
  nextSweep : Option Nat := none
  deriving Repr

namespace Monitor

/-- Milliseconds in seconds. -/
def milliseconds (seconds : Nat) : Nat :=
  seconds * 1000

/-- Watches a session, from its opening handshake on. -/
def track (m : Monitor) (index : Nat) : Monitor :=
  { m with opening := m.opening ++ [index] }

/-- Watches the closing handshake of a session. -/
def watchClosing (m : Monitor) (index : Nat) : Monitor :=
  { m with closing := m.closing ++ [index] }

/-- Sweeps both queues.  The result has the number of sessions that were closed. -/
def sweep (m : Monitor) (now : Nat) (sessions : List Session) :
    Nat × Monitor × List Session :=
  let swept :=
    sweepQueues now (milliseconds m.options.openTimeout) (milliseconds m.options.closeTimeout)
      m.opening m.closing sessions
  (swept.forced, { m with opening := swept.opening, closing := swept.closing }, swept.sessions)

/-- Whether the monitor sweeps by itself. -/
def isRunning (m : Monitor) : Bool :=
  m.nextSweep.isSome

/-- Begins to sweep, for the first time after one interval. -/
def start (m : Monitor) (now : Nat) : Except Error Unit × Monitor :=
  match m.nextSweep with
  | some _ => (.error .alreadyRunning, m)
  | none => (.ok (), { m with nextSweep := some (now + milliseconds m.options.sweepInterval) })

/-- Sweeps by itself no more. -/
def stop (m : Monitor) : Monitor :=
  { m with nextSweep := none }

/-- The first time behind `now` that is due some intervals after `due`. -/
def nextDue (now interval due : Nat) : Nat :=
  if due ≤ now then due + ((now - due) / interval + 1) * interval else due

/-- Sweeps if a sweep is due.  Sweeps that were missed are made up for by one. -/
def tick (m : Monitor) (now : Nat) (sessions : List Session) : Monitor × List Session :=
  match m.nextSweep with
  | none => (m, sessions)
  | some due =>
    if due ≤ now then
      let (_, m, sessions) := m.sweep now sessions
      let interval := milliseconds m.options.sweepInterval
      ({ m with nextSweep := some (nextDue now interval due) }, sessions)
    else (m, sessions)

end Monitor

end FramedChannel.WebSocket
