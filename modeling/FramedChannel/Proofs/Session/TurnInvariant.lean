import FramedChannel.Proofs.Channel.Intake
import FramedChannel.WebSocket.Session

/-!
# Turns of a session

A step of a session makes a move of its channel, and may make others because of
what came out of it.  This module cuts a step into turns, each of which makes
one move at most and changes the session in one way.

* `Core` is the part of a session that decides what it does.
* `Turn` lists what can happen in a turn, and `Turns` are any number of them.
  `Turns.channel` says that the channel of a session does nothing else.
* `Core.Sane` is what every turn keeps: who waits for a package, and in which
  states the version is known.
-/

namespace FramedChannel.WebSocket

/-! ## Events -/

/-- What can be seen of the channel in an event of its session. -/
def SessionEvent.ofChannel? : SessionEvent → Option (Event Package)
  | channel event => some event
  | started fault => some (.claimed fault)
  | _ => none

/-- What the event stream handed to the application in an event. -/
def SessionEvent.notice? : SessionEvent → Option Notice
  | delivered _ notice => notice
  | _ => none

/-- The events of the channel among those of its session. -/
def channelEvents (events : List SessionEvent) : List (Event Package) :=
  events.filterMap SessionEvent.ofChannel?

/-- What the event stream handed to the application, in order. -/
def noticesOf (events : List SessionEvent) : List Notice :=
  events.filterMap SessionEvent.notice?

section Events

variable (events more : List SessionEvent)

@[simp] theorem channelEvents_append :
    channelEvents (events ++ more) = channelEvents events ++ channelEvents more :=
  List.filterMap_append

@[simp] theorem noticesOf_append :
    noticesOf (events ++ more) = noticesOf events ++ noticesOf more :=
  List.filterMap_append

variable (channels : List (Event Package))

@[simp] theorem channelEvents_map : channelEvents (channels.map .channel) = channels := by
  induction channels with
  | nil => rfl
  | cons event rest ih => exact congrArg (event :: ·) ih

@[simp] theorem noticesOf_map : noticesOf (channels.map .channel) = [] := by
  induction channels with
  | nil => rfl
  | cons event rest ih => exact ih

end Events

/-! ## Cores -/

/-- The calls of a reader that wait for a package. -/
def Reader.calls : Reader → List Nat
  | waiting call => [call]
  | _ => []

/-- The call whose package a reader answers. -/
def Reader.answers? : Reader → Option Nat
  | ponging call _ | answering call => some call
  | _ => none

/-- The part of a session that decides what it does. -/
structure Core where
  channel : Channel Decoder Package
  options : WebSocketOptions
  stored : SessionState
  version : Option Version
  reader : Reader
  queued : List Nat

/-- The core of a session. -/
def Session.core (s : Session) : Core :=
  ⟨s.channel, s.options, s.stored, s.version, s.reader, s.queued⟩

namespace Core

/-- The send of a message in the encoding of a version. -/
def sending (c : Core) (call : Nat) (version : Version) (message : Message) : Send :=
  ⟨.call call, .encoded (encodeFor version c.options.maxFramePayload message)⟩

/-- What the event stream makes of a package, or of the end, as far as it needs no send. -/
def meet (c : Core) (call : Nat) : Option Package → List SessionEvent × Core
  | none => ([.delivered call none], { c with reader := .idle })
  | some (.handshake info) =>
    ([.delivered call (some (.opened info))],
      { c with stored := .opened, version := some info.version, reader := .idle })
  | some (.rejected request) =>
    ([.delivered call (some (.rejected request))], { c with reader := .idle })
  | some (.message message) =>
    match message.op with
    | .close =>
      ([], { c with reader := if c.stored = .opened then .answering call else .idle })
    | .ping => ([], { c with reader := .ponging call message })
    | _ => ([.delivered call (some (.message message))], { c with reader := .idle })

end Core

/-! ## Turns -/

/-- A move that has nothing to do with the calls of an application that send or wait for packages,
but for the steps of sends. -/
def asideMove : Move → Bool
  | .act action =>
    match action with
    | .abort _ | .close .. | .waitClosed _ | .proceed | .notice _ | .fill _ | .drain _
    | .supervise | .tick _ => true
    | _ => false
  | .giveUp _ => false

/-- What happens in a turn of a session, with the move of its channel.  The predicate says which
actions the application takes. -/
inductive Turn (asked : Session.Action → Prop) (c : Core) :
    Option Move → List SessionEvent → Core → Prop where
  /-- A call that sends returns. -/
  | returns (call : Nat) (sent : Sent) : Turn asked c none [.sent call sent] c
  | aside {move : Move} {events : List (Event Package)} {channel : Channel Decoder Package}
      (haside : asideMove move = true) (hmove : c.channel.move move = some (events, channel))
      (hasked : ∀ action, move = .act (.fill action) → asked (.channel (.fill action))) :
      Turn asked c (some move) (events.map .channel) { c with channel }
  | starts {fault : Option Error} {channel : Channel Decoder Package}
      (hrun : c.channel.run = (fault, channel)) :
      Turn asked c (some (.act .run)) [.started fault]
        { c with
          channel
          stored :=
            if fault = none ∧ c.stored = .awaitingHandshake then .handshaking else c.stored }
  /-- A call asks the event stream while it serves another one. -/
  | asks (call : Nat) (hheld : c.channel.isHeld = true) :
      Turn asked c none [] { c with queued := c.queued ++ [call] }
  /-- The event stream begins to wait for a package. -/
  | waits {call : Nat} {queued : List Nat} (hidle : c.reader = .idle)
      (hheld : c.channel.isHeld = true) :
      Turn asked c (some (.act (.next call))) []
        { c with channel := c.channel.next call, reader := .waiting call, queued }
  /-- The event stream gets a package, or the end. -/
  | meets {call : Nat} {package : Option Package} {channel : Channel Decoder Package}
      (hmove : c.channel.move (.act .receive) = some ([.received call package], channel)) :
      Turn asked c (some (.act .receive))
        (.channel (.received call package) :: ({ c with channel }.meet call package).1)
        ({ c with channel }.meet call package).2
  /-- A ping was answered, or could not be. -/
  | pongs {call : Nat} {ping : Message} (hreader : c.reader = .ponging call ping) :
      Turn asked c none [.delivered call (some (.message ping))] { c with reader := .idle }
  /-- A close message was answered, or could not be, and the session closes its channel. -/
  | answers {call : Nat} {events : List (Event Package)} {channel : Channel Decoder Package}
      (hreader : c.reader = .answering call)
      (hmove : c.channel.move (.act (.abort .remoteClosing)) = some (events, channel)) :
      Turn asked c (some (.act (.abort .remoteClosing))) (events.map .channel)
        { c with channel, reader := .idle }
  /-- The session sends a message: one of the application while it is open, or a pong for the call
  that met a ping. -/
  | posts {call : Nat} {version : Version} {message : Message} {events : List (Event Package)}
      {channel : Channel Decoder Package}
      (hallowed : asked (.send call message) ∧ c.stored = .opened ∨
        message.op = .pong ∧ c.reader.answers? = some call)
      (hversion : c.version = some version)
      (hmove : c.channel.move (.act (.send (c.sending call version message))) =
        some (events, channel)) :
      Turn asked c (some (.act (.send (c.sending call version message)))) (events.map .channel)
        { c with channel }
  /-- The session begins to close, and sends a close message: that of the application, or one for
  the call that met the close message of the peer. -/
  | closes {call : Nat} {version : Version} {message : Message} {stored : SessionState}
      {events : List (Event Package)} {channel : Channel Decoder Package}
      (hopened : c.stored = .opened) (hclose : message.op = .close)
      (hallowed : (∃ status reason, asked (.closeHandshake call status reason) ∧
        message = .close status reason) ∨ c.reader.answers? = some call)
      (hstored : stored = .closingLocal ∨ stored = .closingRemote)
      (hversion : c.version = some version)
      (hmove : c.channel.move (.act (.send (c.sending call version message))) =
        some (events, channel)) :
      Turn asked c (some (.act (.send (c.sending call version message)))) (events.map .channel)
        { c with channel, stored }
  /-- The application sends bytes past the session. -/
  | bypasses {call : Nat} {bytes : Bytes} {events : List (Event Package)}
      {channel : Channel Decoder Package} (hasked : asked (.sendRaw call bytes))
      (hmove : c.channel.move (.act (.send ⟨.call call, .chunk bytes⟩)) = some (events, channel)) :
      Turn asked c (some (.act (.send ⟨.call call, .chunk bytes⟩))) (events.map .channel)
        { c with channel }

/-- Turns one after another, with all moves and events. -/
inductive Turns (asked : Session.Action → Prop) :
    Core → List Move → List SessionEvent → Core → Prop where
  | refl (c : Core) : Turns asked c [] [] c
  | tail {c middle after : Core} {moves : List Move} {move : Option Move}
      {events more : List SessionEvent} (hturns : Turns asked c moves events middle)
      (hturn : Turn asked middle move more after) :
      Turns asked c (moves ++ move.toList) (events ++ more) after

variable {asked : Session.Action → Prop} {c middle after : Core} {move : Option Move}
  {moves others : List Move} {events more : List SessionEvent}

theorem Turn.turns (h : Turn asked c move events after) : Turns asked c move.toList events after :=
  .tail (.refl c) h

theorem Turns.trans (h : Turns asked c moves events middle)
    (h' : Turns asked middle others more after) :
    Turns asked c (moves ++ others) (events ++ more) after := by
  induction h' with
  | refl =>
    rw [List.append_nil, List.append_nil]
    exact h
  | tail _ hturn ih =>
    rw [← List.append_assoc, ← List.append_assoc]
    exact .tail ih hturn

/-! ## The channel of a session -/

@[simp] theorem Core.channel_meet (c : Core) (call : Nat) (package : Option Package) :
    (c.meet call package).2.channel = c.channel := by
  unfold Core.meet
  repeat' split
  all_goals rfl

@[simp] theorem Core.channelEvents_meet (c : Core) (call : Nat) (package : Option Package) :
    channelEvents (c.meet call package).1 = [] := by
  unfold Core.meet
  repeat' split
  all_goals rfl

/-- With a package that is met, nothing but the package is seen of the channel. -/
@[simp] theorem Core.channelEvents_received (c : Core) (call : Nat) (package : Option Package) :
    channelEvents (.channel (.received call package) :: (c.meet call package).1) =
      [.received call package] := by
  rw [← List.singleton_append, channelEvents_append, Core.channelEvents_meet]
  rfl

/-- The channel makes the move of a turn. -/
theorem Turn.channel (h : Turn asked c move events after) :
    c.channel.moves move.toList = some (channelEvents events, after.channel) := by
  cases h with
  | returns | asks | pongs => rfl
  | aside _ hmove | answers _ hmove | posts _ _ hmove | closes _ _ _ _ _ hmove
  | bypasses _ hmove =>
    rw [channelEvents_map]
    simp [Channel.moves, hmove]
  | starts hrun =>
    have hmove : c.channel.move (.act .run) = some ([.claimed c.channel.run.1], c.channel.run.2) :=
      rfl
    rw [hrun] at hmove
    simp [Channel.moves, hmove, channelEvents, SessionEvent.ofChannel?]
  | @waits call _ _ hheld =>
    have hmove : c.channel.move (.act (.next call)) = some ([], c.channel.next call) :=
      if_pos hheld
    simp [Channel.moves, hmove, channelEvents]
  | @meets call package channel hmove =>
    rw [Core.channelEvents_received, Core.channel_meet]
    simp [Channel.moves, hmove]

/-- The channel makes the moves of turns, and nothing else happens to it. -/
theorem Turns.channel (h : Turns asked c moves events after) :
    c.channel.moves moves = some (channelEvents events, after.channel) := by
  induction h with
  | refl => rfl
  | tail _ hturn ih =>
    rw [channelEvents_append]
    exact Channel.moves_append ih hturn.channel

/-- The fill loop only does what it is asked to. -/
theorem Turns.asked_fill (h : Turns asked c moves events after) {action : FillAction}
    (hmem : .act (.fill action) ∈ moves) : asked (.channel (.fill action)) := by
  induction h with
  | refl => cases hmem
  | tail _ hturn ih =>
    rcases List.mem_append.1 hmem with hmem | hmem
    · exact ih hmem
    · rw [Option.mem_toList] at hmem
      cases hturn with
      | aside _ _ hasked => exact hasked action (Option.some.inj hmem)
      | _ => cases hmem

/-! ## The calls that wait -/

section Channel

variable {channel reached : Channel Decoder Package} {seen : List (Event Package)} {step : Move}

/-- A step of a send gives the consumer nothing, and leaves its calls alone. -/
theorem stepSend_aside (h : channel.stepSend = some (seen, reached)) :
    takenOf seen = [] ∧ reached.consumer = channel.consumer ∧
      reached.readers = channel.readers := by
  unfold Channel.stepSend at h
  split at h
  · cases h
  · rename_i sender progress _
    have hqueued : takenOf (progress.queued.map (.queued (π := Package) sender)).toList = [] := by
      cases progress.queued <;> rfl
    dsimp only at h
    split at h
    · cases h
      exact ⟨hqueued, rfl, rfl⟩
    · cases h
      refine ⟨by rw [takenOf_append, hqueued]; rfl, ?_⟩
      split
      · unfold Channel.replied
        split <;> exact ⟨rfl, rfl⟩
      · exact ⟨rfl, rfl⟩

/-- The drain loop has nothing to do with the consumer. -/
theorem stepDrain_aside {action : DrainAction}
    (h : channel.stepDrain action = some (seen, reached)) :
    takenOf seen = [] ∧ reached.consumer = channel.consumer ∧
      reached.readers = channel.readers := by
  cases action with
  | take =>
    simp only [Channel.stepDrain] at h
    repeat' split at h
    all_goals cases h
    unfold Channel.beginBatch
    split <;> exact ⟨rfl, rfl, rfl⟩
  | _ =>
    simp only [Channel.stepDrain] at h
    repeat' split at h
    all_goals cases h
    all_goals exact ⟨rfl, rfl, rfl⟩

/-- A move beside the calls of the application leaves the consumer and its calls alone. -/
theorem aside_move (haside : asideMove step = true)
    (h : channel.move step = some (seen, reached)) :
    takenOf seen = [] ∧ reached.consumer = channel.consumer ∧
      reached.readers = channel.readers := by
  cases step with
  | giveUp call => cases haside
  | act action =>
    change channel.step action = some (seen, reached) at h
    cases action with
    | start | run | release | send _ | next _ | collect | receive => cases haside
    | abort reason =>
      obtain ⟨hevents, hafter⟩ := Channel.intake_abort channel reason
      rw [show channel.abort reason = (seen, reached) from Option.some.inj h] at hevents hafter
      exact ⟨hevents, congrArg Channel.Intake.consumer hafter,
        congrArg Channel.Intake.readers hafter⟩
    | close call reason =>
      obtain ⟨hevents, hafter⟩ := Channel.intake_abort channel reason
      simp only [Channel.step, Channel.close, Option.some.injEq, Prod.mk.injEq] at h
      obtain ⟨rfl, rfl⟩ := h
      exact ⟨hevents, congrArg Channel.Intake.consumer hafter,
        congrArg Channel.Intake.readers hafter⟩
    | waitClosed _ | tick _ =>
      cases h
      exact ⟨rfl, rfl, rfl⟩
    | proceed => exact stepSend_aside h
    | notice call =>
      simp only [Channel.step, Channel.stepCloser] at h
      repeat' split at h
      all_goals cases h
      exact ⟨rfl, rfl, rfl⟩
    | fill action =>
      simp only [Channel.step, Channel.stepFill] at h
      repeat' split at h
      all_goals cases h
      all_goals exact ⟨rfl, rfl, rfl⟩
    | drain action =>
      simp only [Channel.step] at h
      split at h
      · exact stepDrain_aside h
      · cases h
    | supervise =>
      simp only [Channel.step, Channel.stepSupervisor] at h
      split at h
      · split at h
        · cases h
          exact ⟨rfl, rfl, rfl⟩
        · have hevents := Channel.takenOf_finish { channel with supervisor := .ended }
          rw [Option.some.injEq, Prod.ext_iff] at h
          obtain ⟨rfl, rfl⟩ := h
          exact ⟨hevents, rfl, rfl⟩
        · cases h
      · cases h

/-- A send of the application has nothing to do with the consumer. -/
theorem send_aside {send : Send} (h : channel.move (.act (.send send)) = some (seen, reached)) :
    takenOf seen = [] ∧ reached.consumer = channel.consumer ∧
      reached.readers = channel.readers := by
  simp only [Channel.move, Channel.step, Channel.send, Option.some.injEq] at h
  split at h <;> cases h <;> exact ⟨rfl, rfl, rfl⟩

/-- Who has the stream keeps it, and running a channel gives it to nobody else but for the one who
asks first. -/
theorem run_consumer {fault : Option Error} (h : channel.run = (fault, reached)) :
    reached.readers = channel.readers ∧ (channel.isHeld = true → reached.isHeld = true) ∧
      (reached.isHeld = true → fault = none ∨ channel.isHeld = true) := by
  unfold Channel.run at h
  split at h
  · rename_i hunclaimed
    have hreaders : channel.start.2.readers = channel.readers := by
      unfold Channel.start
      split <;> rfl
    have hnobody : channel.isHeld = true → reached.isHeld = true := by
      simp [Channel.isHeld, hunclaimed]
    split at h
    · rename_i started hstarted
      rw [hstarted] at hreaders
      cases h
      exact ⟨hreaders, hnobody, (fun habsurd => by cases habsurd)⟩
    · rename_i started hstarted
      rw [hstarted] at hreaders
      cases h
      exact ⟨hreaders, hnobody, fun _ => .inl rfl⟩
  · cases h
    exact ⟨rfl, id, .inr⟩

/-- The reader of a package is the call that waits longest. -/
theorem receive_aside {call : Nat} {package : Option Package}
    (h : channel.move (.act .receive) = some ([.received call package], reached)) :
    channel.readers = call :: reached.readers ∧ reached.consumer = channel.consumer := by
  simp only [Channel.move, Channel.step, Channel.stepReader] at h
  split at h
  · rename_i hreaders _
    cases h
    exact ⟨hreaders, rfl⟩
  · rename_i hreaders _
    split at h
    · cases h
      exact ⟨hreaders, rfl⟩
    · cases h
  · cases h

end Channel

/-- What every turn keeps. -/
structure Core.Sane (c : Core) : Prop where
  /-- The version is known as soon as the upgrade is over. -/
  pending : c.stored.isPending = c.version.isNone
  /-- That the channel is closed is no state of its own. -/
  stays : c.stored ≠ .closed
  /-- Who does not have the stream has no calls on it. -/
  idle : c.channel.isHeld = false → c.reader = .idle ∧ c.queued = []
  readers : c.channel.readers = c.reader.calls
  started : c.channel.isHeld = true → c.stored ≠ .awaitingHandshake

theorem isHeld_of_consumer {channel channel' : Channel Decoder Package}
    (h : channel'.consumer = channel.consumer) : channel'.isHeld = channel.isHeld := by
  rw [Channel.isHeld, h]
  rfl

/-- A channel that keeps its consumer and the calls of it keeps the rest as well. -/
theorem Core.Sane.channel (h : c.Sane) {channel : Channel Decoder Package}
    (hconsumer : channel.consumer = c.channel.consumer)
    (hreaders : channel.readers = c.channel.readers) : { c with channel }.Sane := by
  have hheld : channel.isHeld = c.channel.isHeld := isHeld_of_consumer hconsumer
  refine ⟨h.pending, h.stays, ?_, hreaders.trans h.readers, ?_⟩
  · rw [hheld]
    exact h.idle
  · rw [hheld]
    exact h.started

/-- The version of a session that is open is known. -/
theorem Core.Sane.version_of_opened (h : c.Sane) (hopened : c.stored = .opened) :
    ∃ version, c.version = some version := by
  have hpending := h.pending
  rw [hopened] at hpending
  exact Option.isSome_iff_exists.1 (by simpa [SessionState.isPending] using hpending)

/-- A reader that does something has the stream. -/
theorem Core.Sane.isHeld (h : c.Sane) (hbusy : c.reader ≠ .idle) : c.channel.isHeld = true := by
  by_contra hfree
  exact hbusy (h.idle (by simpa using hfree)).1

/-- For a session that has the stream there is less to show. -/
theorem Core.Sane.of_held (hpending : c.stored.isPending = c.version.isNone)
    (hstays : c.stored ≠ .closed) (hheld : c.channel.isHeld = true)
    (hreaders : c.channel.readers = c.reader.calls) (hstarted : c.stored ≠ .awaitingHandshake) :
    c.Sane := by
  refine ⟨hpending, hstays, ?_, hreaders, fun _ => hstarted⟩
  intro hfree
  rw [hheld] at hfree
  cases hfree

/-- A package is met by the call that the reader serves. -/
theorem Core.Sane.waiting (h : c.Sane) {call : Nat} {package : Option Package}
    {channel : Channel Decoder Package}
    (hmove : c.channel.move (.act .receive) = some ([.received call package], channel)) :
    c.reader = .waiting call ∧ channel.readers = [] := by
  obtain ⟨hreaders, _⟩ := receive_aside hmove
  have hcalls := h.readers
  rw [hreaders] at hcalls
  cases hreader : c.reader with
  | waiting other =>
    rw [hreader] at hcalls
    obtain ⟨rfl, hnone⟩ := List.cons.inj hcalls
    exact ⟨rfl, hnone⟩
  | _ =>
    rw [hreader] at hcalls
    cases hcalls

theorem Core.Sane.meet (h : c.Sane) {call : Nat} {package : Option Package}
    {channel : Channel Decoder Package}
    (hmove : c.channel.move (.act .receive) = some ([.received call package], channel)) :
    ({ c with channel }.meet call package).2.Sane := by
  obtain ⟨hreader, hnone⟩ := h.waiting hmove
  have hbefore : c.channel.isHeld = true := h.isHeld (by rw [hreader]; exact Reader.noConfusion)
  have hheld : channel.isHeld = true := by
    rw [isHeld_of_consumer (receive_aside hmove).2, hbefore]
  have hstarted := h.started hbefore
  rcases package with _ | info | request | message
  · exact .of_held h.pending h.stays hheld hnone hstarted
  · exact .of_held rfl SessionState.noConfusion hheld hnone SessionState.noConfusion
  · exact .of_held h.pending h.stays hheld hnone hstarted
  · unfold Core.meet
    dsimp only
    split
    · refine .of_held h.pending h.stays hheld ?_ hstarted
      dsimp only
      rw [hnone]
      split <;> rfl
    · exact .of_held h.pending h.stays hheld hnone hstarted
    · exact .of_held h.pending h.stays hheld hnone hstarted

theorem Turn.sane (h : c.Sane) (hturn : Turn asked c move events after) : after.Sane := by
  cases hturn with
  | returns => exact h
  | aside haside hmove =>
    obtain ⟨_, hconsumer, hreaders⟩ := aside_move haside hmove
    exact h.channel hconsumer hreaders
  | posts _ _ hmove | bypasses _ hmove =>
    obtain ⟨_, hconsumer, hreaders⟩ := send_aside hmove
    exact h.channel hconsumer hreaders
  | @starts fault channel hrun =>
    obtain ⟨hreaders, hkeeps, hgiven⟩ := run_consumer hrun
    refine ⟨?_, ?_, ?_, hreaders.trans h.readers, ?_⟩
    · dsimp only
      split
      · rename_i hfirst
        rw [← h.pending, hfirst.2]
        rfl
      · exact h.pending
    · dsimp only
      split
      · exact SessionState.noConfusion
      · exact h.stays
    · intro hfree
      exact h.idle (by by_contra habsurd; simp [hkeeps (by simpa using habsurd)] at hfree)
    · intro hheld
      dsimp only
      split
      · exact SessionState.noConfusion
      · rename_i hlater
        rcases hgiven hheld with hnone | hbefore
        · exact fun hawaiting => hlater ⟨hnone, hawaiting⟩
        · exact h.started hbefore
  | asks call hheld =>
    refine ⟨h.pending, h.stays, ?_, h.readers, h.started⟩
    intro hfree
    rw [hheld] at hfree
    cases hfree
  | waits hidle hheld =>
    refine .of_held h.pending h.stays hheld ?_ (h.started hheld)
    have hnone := h.readers
    rw [hidle] at hnone
    show c.channel.readers ++ _ = _
    rw [hnone]
    rfl
  | meets hmove => exact h.meet hmove
  | pongs hreader =>
    have hheld := h.isHeld (by rw [hreader]; exact Reader.noConfusion)
    refine .of_held h.pending h.stays hheld ?_ (h.started hheld)
    rw [h.readers, hreader]
    rfl
  | answers hreader hmove =>
    have hheld := h.isHeld (by rw [hreader]; exact Reader.noConfusion)
    obtain ⟨_, hconsumer, hreaders⟩ := aside_move rfl hmove
    refine .of_held h.pending h.stays ?_ ?_ (h.started hheld)
    · rw [isHeld_of_consumer hconsumer, hheld]
    · rw [hreaders, h.readers, hreader]
      rfl
  | closes hopened _ _ hstored _ hmove =>
    obtain ⟨_, hconsumer, hreaders⟩ := send_aside hmove
    have hsane := h.channel hconsumer hreaders
    have hpending := h.pending
    rw [hopened] at hpending
    refine ⟨?_, ?_, hsane.idle, hsane.readers, ?_⟩
    · rw [← hpending]
      rcases hstored with rfl | rfl <;> rfl
    · rcases hstored with rfl | rfl <;> exact SessionState.noConfusion
    · rcases hstored with rfl | rfl <;> exact fun _ => SessionState.noConfusion

theorem Turns.sane (h : c.Sane) (hturns : Turns asked c moves events after) : after.Sane := by
  induction hturns with
  | refl => exact h
  | tail _ hturn ih => exact hturn.sane ih

end FramedChannel.WebSocket
