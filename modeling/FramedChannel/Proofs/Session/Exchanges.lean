import FramedChannel.Proofs.Channel.InFlight
import FramedChannel.Proofs.Session.Legible

/-!
# Pings and their pongs

The event stream answers a ping before it hands it on.  This module follows the
answers through the steps of a session.

* `Exchange` is what can be seen of an answer: the ping is taken, the pong goes
  into the queue, and the application is told.  `answerTo` is a whole answer.
* `Underway` says what the event stream has begun, and which of its sends are on
  their way for that.
* `Answers` is the invariant: one whole answer behind the other, and the begun
  one behind them.  There is one lemma for each function of the session, and
  `step_answers` puts them together.

The calls that ask the event stream are told from all others by a predicate, and
no send of theirs may fail.
-/

namespace FramedChannel.WebSocket

/-! ## What can be seen -/

/-- What can be seen of the answer to a ping, with the call for which the event stream works. -/
inductive Exchange where
  /-- The event stream takes a ping from the channel. -/
  | taken (call : Nat) (data : Bytes)
  /-- A pong goes into the queue. -/
  | queued (call : Nat) (chunk : Bytes)
  /-- The application is told of a ping. -/
  | told (call : Nat) (data : Bytes)
  deriving DecidableEq, Repr

/-- A chunk begins like a pong: with the last frame of a message, and that operation code. -/
def isPong (chunk : Bytes) : Bool :=
  chunk.head? == some (finBit ||| OpCode.pong.code)

/-- What can be seen of answers in an event, given which calls ask the event stream. -/
def SessionEvent.exchange? (asks : Nat → Bool) : SessionEvent → Option Exchange
  | .channel (.received call (some (.message message))) =>
    if message.op = .ping then some (.taken call message.data) else none
  | .channel (.queued (.call call) chunk) =>
    if asks call && isPong chunk then some (.queued call chunk) else none
  | .delivered call (some (.message message)) =>
    if message.op = .ping then some (.told call message.data) else none
  | _ => none

/-- All that can be seen of answers, in order. -/
def exchangesOf (asks : Nat → Bool) (events : List SessionEvent) : List Exchange :=
  events.filterMap (SessionEvent.exchange? asks)

/-- The frame that answers a ping. -/
def pongFor (data : Bytes) : Bytes :=
  encodeFramed ⟨.pong, data⟩ 0 unmasked

/-- The whole answer to a ping that a call met. -/
def answerTo (ping : Nat × Bytes) : List Exchange :=
  [.taken ping.1 ping.2, .queued ping.1 (pongFor ping.2), .told ping.1 ping.2]

variable {asks : Nat → Bool} {history first rest : List Exchange} {s : Session}
  {events more : List SessionEvent} {seen : List (Event Package)}
  {channel : Channel Decoder Package} {call : Nat} {sent : Sent}

@[simp] theorem exchangesOf_append :
    exchangesOf asks (events ++ more) = exchangesOf asks events ++ exchangesOf asks more :=
  List.filterMap_append

/-- Nothing is seen where no package is taken and no chunk is queued. -/
theorem exchangesOf_map (htaken : takenOf seen = []) (hqueued : queuedOf seen = []) :
    exchangesOf asks (seen.map .channel) = [] := by
  induction seen with
  | nil => rfl
  | cons event rest ih =>
    rw [takenOf, List.flatMap_cons, List.append_eq_nil_iff] at htaken
    rw [queuedOf, List.filterMap_cons] at hqueued
    cases event with
    | received => cases htaken.1
    | queued => cases hqueued
    | _ => exact ih htaken.2 hqueued

/-- A message is told, and seen if it is a ping. -/
theorem exchangesOf_delivered {message : Message} (hop : message.op ≠ .ping) :
    exchangesOf asks [.delivered call (some (.message message))] = [] := by
  simp [exchangesOf, SessionEvent.exchange?, hop]

/-! ## The bytes of a pong -/

/-- An encoded control message is a single frame without a mask. -/
theorem encodeFramed_of_control (message : Message) (hcontrol : message.isControl = true)
    (maxPayload : Nat) :
    encodeFramed message maxPayload unmasked =
      header true message.op message.data.length none ++ message.data := by
  rw [encodeFramed, framesOf, payloadsOf_control hcontrol]
  exact List.append_nil _

theorem isControl_pong : OpCode.isControl .pong = true := by decide

theorem pongFor_eq (data : Bytes) : pongFor data = header true .pong data.length none ++ data :=
  encodeFramed_of_control ⟨.pong, data⟩ isControl_pong 0

theorem isPong_pongFor (data : Bytes) : isPong (pongFor data) = true := by
  rw [pongFor_eq]
  exact beq_self_eq_true _

/-- Unless it fails, the send of a pong is worth the frame that answers. -/
theorem chunks_pong {version : Version} {maxPayload : Nat} {data : Bytes}
    (hfault : (Load.encoded (encodeFor version maxPayload ⟨.pong, data⟩)).fault = none) :
    (Load.encoded (encodeFor version maxPayload ⟨.pong, data⟩)).chunks = [pongFor data] := by
  cases hframed : version.isFramed with
  | true =>
    rw [chunks_of_framed _ maxPayload hframed, pongFor_eq]
    exact congrArg (fun chunk => [chunk])
      (encodeFramed_of_control ⟨.pong, data⟩ isControl_pong maxPayload)
  | false =>
    rw [encodeFor, hframed] at hfault
    cases hfault

/-- The first byte of an encoded message has its operation code. -/
theorem head?_encodeFramed (message : Message) (maxPayload : Nat) :
    ∃ fin : Bool, (encodeFramed message maxPayload unmasked).head? =
      some ((if fin then finBit else 0) ||| message.op.code) := by
  have hsome := payloadsOf_ne_nil message.op message.data maxPayload
  unfold encodeFramed framesOf
  cases hpayloads : payloadsOf message.op message.data maxPayload with
  | nil => exact absurd hpayloads hsome
  | cons payload rest => exact ⟨rest.isEmpty, rfl⟩

/-- A message that begins like a pong is one. -/
theorem op_of_isPong {version : Version} {maxPayload : Nat} {message : Message} {chunk : Bytes}
    (hmem : chunk ∈ (Load.encoded (encodeFor version maxPayload message)).chunks)
    (hpong : isPong chunk = true) : message.op = .pong := by
  cases hframed : version.isFramed with
  | true =>
    rw [chunks_of_framed _ maxPayload hframed] at hmem
    obtain rfl := List.mem_singleton.1 hmem
    obtain ⟨fin, hhead⟩ := head?_encodeFramed message maxPayload
    rw [isPong, hhead] at hpong
    revert hpong
    cases fin <;> cases message.op <;> decide
  | false =>
    have hdraft : encodeFor version maxPayload message = encodeDraft message := by
      simp [encodeFor, hframed]
    rw [hdraft, encodeDraft] at hmem
    split at hmem
    · split at hmem
      · obtain rfl := List.mem_singleton.1 hmem
        cases hpong
      · cases hmem
    · obtain rfl := List.mem_singleton.1 hmem
      cases hpong
    · cases hmem

/-- A close message is no pong. -/
theorem not_isPong_of_close {version : Version} {maxPayload : Nat} {message : Message}
    (hop : message.op = .close) :
    ∀ chunk ∈ (Load.encoded (encodeFor version maxPayload message)).chunks,
      isPong chunk = false := by
  intro chunk hmem
  rw [Bool.eq_false_iff]
  intro hpong
  cases hop.symm.trans (op_of_isPong hmem hpong)

/-! ## The invariant -/

/-- Whether a send is one of the event stream. -/
def ofStream (asks : Nat → Bool) (send : Send) : Bool :=
  match send.sender with
  | .call call => asks call
  | .reply => false

/-- What the event stream is doing, with its sends on their way and what can be seen of an answer
that it has begun. -/
inductive Underway : Reader → List Send → List Exchange → Prop where
  | idle : Underway .idle [] []
  | waiting (call : Nat) : Underway (.waiting call) [] []
  | ponging {call : Nat} {ping : Message} {load : Load} (hop : ping.op = .ping)
      (hload : load.fault = none → load.chunks = [pongFor ping.data]) :
      Underway (.ponging call ping) [⟨.call call, load⟩] [.taken call ping.data]
  | answering {call : Nat} {load : Load} (hload : ∀ chunk ∈ load.chunks, isPong chunk = false) :
      Underway (.answering call) [⟨.call call, load⟩] []

/-- What can be seen of answers are whole ones, one behind the other, and the one that the event
stream has begun. -/
def Answers (asks : Nat → Bool) (history : List Exchange) (s : Session) : Prop :=
  ∃ (pings : List (Nat × Bytes)) (sends : List Send) (rest : List Exchange),
    history = pings.flatMap answerTo ++ rest ∧ InFlight s.channel.outbox sends ∧
      Underway s.reader (sends.filter (ofStream asks)) rest

/-- The event stream has begun no answer. -/
def Rests (asks : Nat → Bool) (history : List Exchange) (o : Outbox) : Prop :=
  ∃ (pings : List (Nat × Bytes)) (sends : List Send), history = pings.flatMap answerTo ∧
    InFlight o sends ∧ sends.filter (ofStream asks) = []

/-- The invariant holds behind some events. -/
def AnswersBehind (asks : Nat → Bool) (history : List Exchange)
    (result : List SessionEvent × Session) : Prop :=
  Answers asks (history ++ exchangesOf asks result.1) result.2

/-- No send of the event stream fails. -/
def SendsWell (asks : Nat → Bool) (events : List SessionEvent) : Prop :=
  ∀ call error, asks call = true → (.call call, .failed error) ∉ returnsOf (channelEvents events)

theorem SendsWell.of_append (h : SendsWell asks (events ++ more)) :
    SendsWell asks events ∧ SendsWell asks more := by
  simp only [SendsWell, channelEvents_append, returnsOf_append, List.mem_append, not_or] at h
  exact ⟨fun call error hcall => (h call error hcall).1,
    fun call error hcall => (h call error hcall).2⟩

theorem SendsWell.of_cons {event : SessionEvent} (h : SendsWell asks (event :: more)) :
    SendsWell asks more := by
  have hboth : SendsWell asks ([event] ++ more) := h
  exact hboth.of_append.2

theorem Rests.answers (h : Rests asks history s.channel.outbox)
    (hreader : s.reader.answers? = none) : Answers asks history s := by
  obtain ⟨pings, sends, rfl, hflight, hnone⟩ := h
  refine ⟨pings, sends, [], (List.append_nil _).symm, hflight, ?_⟩
  rw [hnone]
  cases hsame : s.reader with
  | idle => exact .idle
  | waiting call => exact .waiting call
  | ponging | answering => rw [hsame] at hreader; cases hreader

theorem Answers.rests (h : Answers asks history s) (hreader : s.reader.answers? = none) :
    Rests asks history s.channel.outbox := by
  obtain ⟨pings, sends, rest, rfl, hflight, hunder⟩ := h
  refine ⟨pings, sends, ?_⟩
  generalize sends.filter (ofStream asks) = own at hunder ⊢
  generalize s.reader = reader at hunder hreader
  cases hunder with
  | idle | waiting => exact ⟨List.append_nil _, hflight, rfl⟩
  | ponging | answering => cases hreader

/-- The event stream only answers for calls that asked it. -/
theorem Answers.caller (h : Answers asks history s) (hreader : s.reader.answers? = some call) :
    asks call = true := by
  obtain ⟨pings, sends, rest, -, -, hunder⟩ := h
  have hown : ∀ send ∈ sends.filter (ofStream asks), ofStream asks send = true :=
    fun send hmem => (List.mem_filter.1 hmem).2
  generalize sends.filter (ofStream asks) = own at hunder hown
  generalize s.reader = reader at hunder hreader
  cases hunder with
  | idle | waiting => cases hreader
  | ponging | answering =>
    cases hreader
    exact hown _ List.mem_cons_self

/-- Events in which nothing is seen leave the invariant to be shown of the session. -/
theorem Answers.behind (h : Answers asks history s) (hnothing : exchangesOf asks events = []) :
    AnswersBehind asks history (events, s) := by
  rw [AnswersBehind, hnothing, List.append_nil]
  exact h

/-- Events one behind the other. -/
theorem AnswersBehind.prepend
    (h : AnswersBehind asks (history ++ exchangesOf asks events) (more, s)) :
    AnswersBehind asks history (events ++ more, s) := by
  rw [AnswersBehind, exchangesOf_append, ← List.append_assoc]
  exact h

/-- Events in which nothing is seen may stand in front of others. -/
theorem AnswersBehind.before (h : AnswersBehind asks history (more, s))
    (hnothing : exchangesOf asks events = []) : AnswersBehind asks history (events ++ more, s) := by
  refine prepend ?_
  rw [hnothing, List.append_nil]
  exact h

theorem AnswersBehind.cons {event : SessionEvent} (h : AnswersBehind asks history (more, s))
    (hnothing : event.exchange? asks = none) :
    AnswersBehind asks history (event :: more, s) := by
  have hnone : exchangesOf asks [event] = [] := by simp [exchangesOf, hnothing]
  have hboth := h.before hnone
  exact hboth

theorem AnswersBehind.after {result : List SessionEvent × Session}
    (h : AnswersBehind asks history result) (hnothing : exchangesOf asks more = []) :
    AnswersBehind asks history (result.1 ++ more, result.2) := by
  rw [AnswersBehind, exchangesOf_append, hnothing, List.append_nil]
  exact h

/-! ## Steps of the channel -/

section Channel

variable {action : FramedChannel.Action}
  (hstep : s.channel.step action = some (seen, channel)) (hother : action ≠ .proceed)
  (hforeign : ∀ send ∈ s.channel.admits action, ofStream asks send = false)

include hstep hother hforeign

/-- A step that lets in no send of the event stream leaves those alone that are on their way. -/
theorem flight_of_step {sends : List Send} (h : InFlight s.channel.outbox sends) :
    ∃ others, InFlight channel.outbox others ∧
      others.filter (ofStream asks) = sends.filter (ofStream asks) := by
  refine ⟨_, h.step hother hstep, ?_⟩
  have hnone : (s.channel.admits action).filter (ofStream asks) = [] := by
    rw [List.filter_eq_nil_iff]
    intro send hmem
    simp [hforeign send hmem]
  rw [List.filter_append, hnone, List.append_nil]

theorem Answers.of_step (h : Answers asks history s) : Answers asks history { s with channel } := by
  obtain ⟨pings, sends, rest, hhistory, hflight, hunder⟩ := h
  obtain ⟨others, hflight', hsame⟩ := flight_of_step hstep hother hforeign hflight
  exact ⟨pings, others, rest, hhistory, hflight', hsame ▸ hunder⟩

theorem Rests.of_step (h : Rests asks history s.channel.outbox) :
    Rests asks history channel.outbox := by
  obtain ⟨pings, sends, hhistory, hflight, hnone⟩ := h
  obtain ⟨others, hflight', hsame⟩ := flight_of_step hstep hother hforeign hflight
  exact ⟨pings, others, hhistory, hflight', hsame.trans hnone⟩

end Channel

namespace Session

/-! ## The event stream -/

theorem exchangesOf_forceClose (s : Session) (reason : CloseReason) :
    exchangesOf asks (s.forceClose reason).1 = [] :=
  exchangesOf_map (Channel.intake_abort s.channel reason).1
    (Channel.abort_effect s.channel reason).1

theorem forceClose_answers (h : Answers asks history s) (reason : CloseReason) :
    AnswersBehind asks history (s.forceClose reason) := by
  have hstep : s.channel.step (.abort reason) = some (s.channel.abort reason) := rfl
  have hclosed := h.of_step hstep nofun fun _ hmem => by cases hmem
  exact hclosed.behind (exchangesOf_forceClose s reason)

/-- The session closes its channel without a handshake, and the event stream waits for the end. -/
theorem abort_answers (h : Rests asks history s.channel.outbox) (reason : CloseReason)
    (call : Nat) :
    AnswersBehind asks history
      ((s.forceClose reason).1, (s.forceClose reason).2.waitNext call) := by
  have hstep : s.channel.step (.abort reason) = some (s.channel.abort reason) := rfl
  have hclosed : Rests asks history (s.channel.abort reason).2.outbox :=
    h.of_step hstep nofun fun _ hmem => by cases hmem
  have hwaits : Rests asks history ((s.forceClose reason).2.waitNext call).channel.outbox := hclosed
  exact (hwaits.answers rfl).behind (exchangesOf_forceClose s reason)

/-- The event stream hands something on that ends an answer, or has nothing to do with one. -/
theorem deliver_answers {notice : Option Notice}
    (h : Rests asks (history ++ exchangesOf asks [.delivered call notice]) s.channel.outbox) :
    AnswersBehind asks history (s.deliver call notice) := by
  unfold deliver
  split
  · have hidle : Rests asks _ { s with reader := .idle }.channel.outbox := h
    exact hidle.answers rfl
  · rename_i next rest _
    have hwaits : Rests asks _ ({ s with queued := rest }.waitNext next).channel.outbox := h
    exact hwaits.answers rfl

/-! ## Sends of others -/

theorem onSent_answers (h : Answers asks history s) (call : Nat) (sent : Sent) :
    AnswersBehind asks history (s.onSent call sent) := by
  let forgotten := { s with closers := s.closers.erase call }
  have hforgotten : Answers asks history forgotten := h
  unfold onSent
  split
  · cases sent with
    | done before => exact hforgotten.behind rfl
    | failed error => exact (forceClose_answers hforgotten .localClosing).after rfl
  · exact h.behind rfl

variable (hcall : asks call = false)

include hcall

/-- The return of a send of another call is no matter of the event stream. -/
theorem onReturned_foreign (h : Answers asks history s) (sent : Sent) :
    AnswersBehind asks history (s.onReturned call sent) := by
  have hother : s.reader.answers? ≠ some call := by
    intro hsame
    rw [h.caller hsame] at hcall
    cases hcall
  unfold onReturned
  split
  · rename_i hreader
    exact absurd (congrArg Reader.answers? hreader) hother
  · split
    · rename_i reading ping hreader
      split
      · rename_i hsame
        exact absurd (by rw [hreader, ← hsame]; rfl) hother
      · exact onSent_answers h call sent
    · exact onSent_answers h call sent

/-- Another call sends something. -/
theorem absorbReturns_foreign (h : Answers asks history s) (load : Load) :
    AnswersBehind asks history
      ({ s with channel := (s.channel.send ⟨.call call, load⟩).2 }.absorbReturns
        (s.channel.send ⟨.call call, load⟩).1) := by
  have hstep : s.channel.step (.send ⟨.call call, load⟩) =
      some (s.channel.send ⟨.call call, load⟩) := rfl
  have hforeign : ∀ send ∈ s.channel.admits (.send ⟨.call call, load⟩),
      ofStream asks send = false := by
    intro send hmem
    simp only [Channel.admits] at hmem
    split at hmem
    · cases hmem
    · rw [List.mem_singleton.1 hmem]
      exact hcall
  have hlet : Answers asks history { s with channel := (s.channel.send ⟨.call call, load⟩).2 } :=
    h.of_step hstep (by rintro ⟨⟩) hforeign
  unfold Channel.send at hlet ⊢
  split at hlet
  · rename_i hclosing
    simp only [hclosing, if_true, absorbReturns, List.append_nil] at hlet ⊢
    have hreturned : AnswersBehind asks history (s.onReturned call (.failed .channelClosed)) :=
      onReturned_foreign hcall hlet _
    exact hreturned.cons rfl
  · rename_i hopen
    simp only [hopen]
    exact hlet.behind rfl

theorem post_foreign (h : Answers asks history s) (message : Message) :
    AnswersBehind asks history (s.post call message) := by
  cases hversion : s.version with
  | none =>
    unfold post
    rw [hversion]
    exact onReturned_foreign hcall h _
  | some version =>
    rw [post_eq_of_version hversion]
    exact absorbReturns_foreign hcall h _

theorem send_foreign (h : Answers asks history s) (message : Message) :
    AnswersBehind asks history (s.send call message) := by
  unfold send
  split
  · exact post_foreign hcall h message
  all_goals exact h.behind rfl

theorem closeHandshake_foreign (h : Answers asks history s) (status : UInt16) (reason : String) :
    AnswersBehind asks history (s.closeHandshake call status reason) := by
  unfold closeHandshake
  split
  · exact (forceClose_answers h .localClosing).after rfl
  · let closing := { s with
      stored := .closingLocal
      closeStarted := some s.channel.now
      closers := s.closers ++ [call] }
    have hclosing : Answers asks history closing := h
    exact post_foreign hcall hclosing _

omit hcall

/-! ## Sends of the event stream -/

/-- The event stream begins to answer.  Its send is on its way, since it does not fail at once. -/
theorem post_answers {version : Version} {message : Message}
    (h : Rests asks history s.channel.outbox) (hversion : s.version = some version)
    (hcall : asks call = true) (hwell : SendsWell asks (s.post call message).1)
    (hunder : Underway s.reader
      [⟨.call call, .encoded (encodeFor version s.options.maxFramePayload message)⟩] first) :
    AnswersBehind asks (history ++ first) (s.post call message) := by
  obtain ⟨pings, sends, rfl, hflight, hnone⟩ := h
  rw [post_eq_of_version hversion] at hwell ⊢
  cases hclosing : s.channel.isClosing with
  | true =>
    exfalso
    simp only [Channel.send, hclosing, if_true, absorbReturns] at hwell
    exact hwell call .channelClosed hcall List.mem_cons_self
  | false =>
    simp only [Channel.send, hclosing]
    refine Answers.behind ⟨pings, _, first, rfl, hflight.enter _, ?_⟩ rfl
    have hown : ofStream asks (s.core.sending call version message) = true := hcall
    rw [List.filter_append, hnone, List.filter_cons_of_pos hown]
    exact hunder

/-- The pong was sent, and the ping is handed on. -/
theorem onReturned_ponging {ping : Message} (hreader : s.reader = .ponging call ping)
    (h : Rests asks (history ++ exchangesOf asks [.delivered call (some (.message ping))])
      s.channel.outbox) (sent : Sent) :
    AnswersBehind asks history (s.onReturned call sent) := by
  unfold onReturned
  rw [hreader, if_neg Reader.noConfusion]
  dsimp only
  rw [if_pos rfl]
  exact deliver_answers h

/-- The answer to a close message was sent, and the channel begins to close. -/
theorem onReturned_answering (hreader : s.reader = .answering call)
    (h : Rests asks history s.channel.outbox) (sent : Sent) :
    AnswersBehind asks history (s.onReturned call sent) := by
  unfold onReturned
  rw [if_pos hreader]
  exact abort_answers h _ call

/-! ## Incoming packages -/

theorem onClose_answers (h : Rests asks history s.channel.outbox) (hcall : asks call = true)
    (hopens : s.stored = .opened → ∃ version, s.version = some version) (payload : Bytes)
    (hwell : SendsWell asks (s.onClose call payload).1) :
    AnswersBehind asks history (s.onClose call payload) := by
  unfold onClose at hwell ⊢
  split at hwell
  · exact abort_answers h _ call
  · rename_i hopened
    obtain ⟨version, hversion⟩ := hopens hopened
    let answering := { s with stored := .closingRemote, reader := .answering call }
    have hrests : Rests asks history answering.channel.outbox := h
    have hposted := post_answers hrests hversion hcall hwell
      (.answering (not_isPong_of_close (op_closeReply s.version payload)))
    rwa [List.append_nil] at hposted
  · have hwaits : Rests asks history (s.waitNext call).channel.outbox := h
    exact (hwaits.answers rfl).behind rfl

/-- The event stream meets a package.  The version is known when it is a message. -/
theorem onReceived_answers (h : Rests asks history s.channel.outbox) (hcall : asks call = true)
    {package : Option Package}
    (hknown : ∀ message, package = some (.message message) → ∃ version, s.version = some version)
    (hwell : SendsWell asks (s.onReceived call package).1) :
    AnswersBehind asks history
      (.channel (.received call package) :: (s.onReceived call package).1,
        (s.onReceived call package).2) := by
  have hdelivers : ∀ (other : Session) {notice : Option Notice},
      other.channel.outbox = s.channel.outbox →
      SessionEvent.exchange? asks (.channel (.received call package)) = none →
      exchangesOf asks [.delivered call notice] = [] →
      AnswersBehind asks history (.channel (.received call package) ::
        (other.deliver call notice).1, (other.deliver call notice).2) := by
    intro other notice hsame htaken htold
    refine (deliver_answers ?_).cons htaken
    rw [htold, List.append_nil, hsame]
    exact h
  rcases package with _ | info | request | message
  · exact hdelivers s rfl rfl rfl
  · exact hdelivers { s with stored := _, version := _, subProtocol := _ } rfl rfl rfl
  · exact hdelivers s rfl rfl rfl
  · cases hop : message.op with
    | close =>
      simp only [onReceived, hop] at hwell ⊢
      have hclosed := onClose_answers h hcall (fun _ => hknown message rfl) message.data hwell
      refine hclosed.cons ?_
      simp [SessionEvent.exchange?, hop]
    | ping =>
      simp only [onReceived, hop] at hwell ⊢
      obtain ⟨version, hversion⟩ := hknown message rfl
      let ponging := { s with reader := .ponging call message }
      have hrests : Rests asks history ponging.channel.outbox := h
      have hposted := post_answers hrests hversion hcall hwell (.ponging hop chunks_pong)
      have htaken : exchangesOf asks [.channel (.received call (some (.message message)))] =
          [.taken call message.data] := by
        simp [exchangesOf, SessionEvent.exchange?, hop]
      rw [← htaken] at hposted
      exact hposted.prepend
    | _ =>
      simp only [onReceived, hop]
      have hother : message.op ≠ .ping := by
        rw [hop]
        exact OpCode.noConfusion
      refine hdelivers s rfl ?_ (exchangesOf_delivered hother)
      simp [SessionEvent.exchange?, hother]

/-! ## Steps -/

/-- The events of a send that returns, with what the session makes of them. -/
theorem absorb_returned (s : Session) (call : Nat) (queued : Option Bytes) (sent : Sent) :
    s.absorb ((queued.map (.queued (.call call))).toList ++ [.returned (.call call) sent]) =
      ((queued.map fun chunk => .channel (.queued (.call call) chunk)).toList ++
        [.channel (.returned (.call call) sent)] ++ (s.onReturned call sent).1,
        (s.onReturned call sent).2) := by
  cases queued <;> simp [absorb]

/-- What can be seen of a chunk that goes into the queue for a call of the event stream. -/
theorem exchangesOf_queued (hcall : asks call = true) (queued : Option Bytes) (sent : Sent) :
    exchangesOf asks ((queued.map fun chunk => .channel (.queued (.call call) chunk)).toList ++
      [.channel (.returned (.call call) sent)]) =
        (queued.toList.filter isPong).map (.queued call) := by
  cases queued with
  | none => rfl
  | some chunk =>
    cases hpong : isPong chunk <;> simp [exchangesOf, SessionEvent.exchange?, hcall, hpong]

/-- A send of the event stream returns. -/
theorem returned_answers {others : List Send} {load : Load} {queued : Option Bytes}
    {pings : List (Nat × Bytes)} (hflight : InFlight s.channel.outbox others)
    (hcall : asks call = true)
    (hunder : Underway s.reader (⟨.call call, load⟩ :: others.filter (ofStream asks)) first)
    (hexact : (Account.mk ⟨.call call, load⟩ queued.toList (some sent)).Exact)
    (hdone : ∀ error, sent ≠ .failed error) :
    AnswersBehind asks (pings.flatMap answerTo ++ first)
      (s.absorb ((queued.map (.queued (.call call))).toList ++ [.returned (.call call) sent])) := by
  cases sent with
  | failed error => exact absurd rfl (hdone error)
  | done before =>
    obtain ⟨-, hfault, hchunks⟩ := hexact
    dsimp only at hfault hchunks
    rw [absorb_returned]
    generalize hreader : s.reader = reader at hunder
    generalize hothers : others.filter (ofStream asks) = own at hunder
    cases hunder with
    | @ponging _ ping _ hop hload =>
      have htold : exchangesOf asks [.delivered call (some (.message ping))] =
          [.told call ping.data] := by
        simp [exchangesOf, SessionEvent.exchange?, hop]
      have hqueued : exchangesOf asks
          ((queued.map fun chunk => .channel (.queued (.call call) chunk)).toList ++
            [.channel (.returned (.call call) (.done before))]) =
              [.queued call (pongFor ping.data)] := by
        rw [exchangesOf_queued hcall, hchunks, hload hfault,
          List.filter_cons_of_pos (isPong_pongFor _)]
        rfl
      have hwhole : pings.flatMap answerTo ++ [.taken call ping.data] ++
          [.queued call (pongFor ping.data)] ++ [.told call ping.data] =
            (pings ++ [(call, ping.data)]).flatMap answerTo := by
        simp [answerTo]
      have hreturned : AnswersBehind asks (pings.flatMap answerTo ++ [.taken call ping.data] ++
          [.queued call (pongFor ping.data)]) (s.onReturned call (.done before)) :=
        onReturned_ponging hreader ⟨_, others, by rw [htold, hwhole], hflight, hothers⟩ _
      rw [← hqueued] at hreturned
      exact hreturned.prepend
    | answering hnever =>
      have hqueued : exchangesOf asks
          ((queued.map fun chunk => .channel (.queued (.call call) chunk)).toList ++
            [.channel (.returned (.call call) (.done before))]) = [] := by
        rw [exchangesOf_queued hcall, hchunks, List.filter_eq_nil_iff.2]
        · rfl
        · intro chunk hmem
          simp [hnever chunk hmem]
      rw [List.append_nil]
      exact (onReturned_answering hreader ⟨pings, others, rfl, hflight, hothers⟩ _).before hqueued

/-- A send of another call, or of the fill loop, returns. -/
theorem returned_foreign {sender : Sender} {queued : Option Bytes}
    (h : Answers asks history s) (hforeign : ∀ load, ofStream asks ⟨sender, load⟩ = false) :
    AnswersBehind asks history
      (s.absorb ((queued.map (.queued sender)).toList ++ [.returned sender sent])) := by
  cases sender with
  | reply => cases queued <;> exact h.behind rfl
  | call call =>
    have hcall : asks call = false := hforeign (.chunk [])
    have hnothing : exchangesOf asks
        ((queued.map fun chunk => .channel (.queued (.call call) chunk)).toList ++
          [.channel (.returned (.call call) sent)]) = [] := by
      cases queued <;> simp [exchangesOf, SessionEvent.exchange?, hcall]
    rw [absorb_returned]
    exact (onReturned_foreign hcall h sent).before hnothing

/-- The send that has the lock makes a step. -/
theorem proceed_answers (h : Answers asks history s)
    (hstep : s.channel.step .proceed = some (seen, channel))
    (hwell : SendsWell asks ({ s with channel }.absorb seen).1) :
    AnswersBehind asks history ({ s with channel }.absorb seen) := by
  obtain ⟨sender, progress, hproceed, rfl, houtbox, -⟩ := Channel.step_proceed hstep
  obtain ⟨pings, sends, rest, rfl, hflight, hunder⟩ := h
  unfold Channel.eventsOf at hwell ⊢
  obtain ⟨load, others, rfl, hgoes | ⟨sent, hsent, hexact, hflight'⟩⟩ := hflight.proceed hproceed
  · obtain ⟨hsent, hqueued, hflight'⟩ := hgoes
    rw [← houtbox] at hflight'
    rw [hsent, hqueued]
    exact Answers.behind ⟨pings, _, rest, rfl, hflight', hunder⟩ rfl
  · rw [← houtbox] at hflight'
    rw [hsent] at hwell ⊢
    cases hown : ofStream asks ⟨sender, load⟩ with
    | false =>
      have hforeign : ¬ ofStream asks ⟨sender, load⟩ = true := by simp [hown]
      rw [List.filter_cons_of_neg hforeign] at hunder
      exact returned_foreign (s := { s with channel }) ⟨pings, others, rest, rfl, hflight', hunder⟩
        fun _ => hown
    | true =>
      rw [List.filter_cons_of_pos hown] at hunder
      cases sender with
      | reply => cases hown
      | call call =>
        refine returned_answers (s := { s with channel }) hflight' hown hunder hexact ?_
        rintro error rfl
        rw [Option.map_some, Option.toList_some, absorb_returned, List.append_assoc] at hwell
        obtain ⟨hwell, -⟩ := hwell.of_append.2.of_append
        exact hwell call error hown List.mem_cons_self

/-- The event stream gets a package, or the end. -/
theorem receive_answers (h : Answers asks history s) (hsane : s.core.Sane)
    (hcallers : ∀ other ∈ s.callers, asks other = true)
    (hknown : ∀ call message, seen = [.received call (some (.message message))] →
      ∃ version, s.version = some version)
    (hstep : s.channel.step .receive = some (seen, channel))
    (hwell : SendsWell asks ({ s with channel }.absorb seen).1) :
    AnswersBehind asks history ({ s with channel }.absorb seen) := by
  obtain ⟨call, package, rfl⟩ := received_of_receive hstep
  have hreader : s.reader = .waiting call := (hsane.waiting hstep).1
  have hcall : asks call = true :=
    hcallers call (mem_callers.2 (.inl (by rw [hreader]; exact List.mem_cons_self)))
  have hrests : Rests asks history channel.outbox :=
    (h.rests (by rw [hreader]; rfl)).of_step hstep nofun fun _ hmem => by cases hmem
  rw [absorb_received] at hwell ⊢
  refine onReceived_answers (s := { s with channel }) hrests hcall ?_ hwell.of_cons
  rintro message rfl
  exact hknown call message rfl

/-- The loops and the clock have no part in answers. -/
theorem quiet_answers (h : Answers asks history s) {action : FramedChannel.Action}
    (hinternal : action.isInternal = true) (hproceed : action ≠ .proceed)
    (hreceive : action ≠ .receive) (hstep : s.channel.step action = some (seen, channel)) :
    AnswersBehind asks history ({ s with channel }.absorb seen) := by
  have haside := asideMove_of_internal hinternal hreceive
  have hforeign : ∀ send ∈ s.channel.admits action, ofStream asks send = false := by
    intro send (hmem : send ∈ s.channel.letsIn (.act action))
    obtain ⟨bytes, rfl⟩ := mem_letsIn_aside haside hmem
    rfl
  rw [absorb_quiet (quiet_of_step hinternal hproceed hreceive hstep)]
  exact (h.of_step hstep hproceed hforeign).behind
    (exchangesOf_map (aside_move haside hstep).1 (Channel.step_effect hstep hproceed).1)

/-- A step of the channel, with what the session makes of it. -/
theorem internal_answers (h : Answers asks history s) (hsane : s.core.Sane)
    (hcallers : ∀ other ∈ s.callers, asks other = true) {action : FramedChannel.Action}
    (hinternal : action.isInternal = true)
    (hknown : ∀ call message channel,
      s.channel.step .receive = some ([.received call (some (.message message))], channel) →
        ∃ version, s.version = some version)
    (hstep : s.channel.step action = some (seen, channel))
    (hwell : SendsWell asks ({ s with channel }.absorb seen).1) :
    AnswersBehind asks history ({ s with channel }.absorb seen) := by
  by_cases hproceed : action = .proceed
  · subst hproceed
    exact proceed_answers h hstep hwell
  by_cases hreceive : action = .receive
  · subst hreceive
    exact receive_answers h hsane hcallers
      (fun call message hsame => hknown call message channel (hsame ▸ hstep)) hstep hwell
  exact quiet_answers h hinternal hproceed hreceive hstep

/-- The session is started. -/
theorem start_answers (h : Answers asks history s) :
    AnswersBehind asks history ([.started s.start.1], s.start.2) := by
  have hstep : s.channel.step .run = some ([.claimed s.channel.run.1], s.channel.run.2) := rfl
  have hrun := h.of_step hstep nofun fun _ hmem => by cases hmem
  have hstarted : Answers asks history s.start.2 := by
    unfold start
    split <;> rename_i heq <;> rw [heq] at hrun <;> exact hrun
  exact hstarted.behind rfl

/-- A call asks the event stream. -/
theorem next_answers (h : Answers asks history s) (call : Nat) :
    AnswersBehind asks history ([], s.next call) := by
  unfold next
  split
  · rename_i hidle
    have hrests := h.rests (by rw [hidle]; rfl)
    have hwaits : Rests asks history (s.waitNext call).channel.outbox := hrests
    exact (hwaits.answers rfl).behind rfl
  · exact Answers.behind h rfl

/-- Every step of a session keeps the invariant, if its event stream sends well and no other call
has the number of one that asks. -/
theorem step_answers (h : Answers asks history s) (hsane : s.core.Sane)
    (hcallers : ∀ other ∈ s.callers, asks other = true) {action : Session.Action}
    (halone : ∀ call, action.call? = some call → action ≠ .next call → asks call = false)
    (hknown : ∀ call message channel,
      s.channel.step .receive = some ([.received call (some (.message message))], channel) →
        ∃ version, s.version = some version)
    {result : List SessionEvent × Session} (hstep : s.step action = some result)
    (hwell : SendsWell asks result.1) : AnswersBehind asks history result := by
  cases action with
  | start =>
    cases hstep
    exact start_answers h
  | send call message =>
    cases hstep
    exact send_foreign (halone call rfl nofun) h message
  | sendRaw call bytes =>
    cases hstep
    exact absorbReturns_foreign (halone call rfl nofun) h _
  | closeHandshake call status reason =>
    cases hstep
    exact closeHandshake_foreign (halone call rfl nofun) h status reason
  | forceClose reason =>
    cases hstep
    exact forceClose_answers h reason
  | close call reason =>
    cases hstep
    exact forceClose_answers h reason
  | waitClosed call | track =>
    cases hstep
    exact Answers.behind h rfl
  | next call =>
    simp only [step] at hstep
    split at hstep <;> cases hstep
    exact next_answers h call
  | channel action =>
    simp only [step] at hstep
    split at hstep
    · rename_i hinternal
      obtain ⟨⟨seen, channel⟩, hchannel, rfl⟩ := Option.map_eq_some_iff.1 hstep
      exact internal_answers h hsane hcallers hinternal hknown hchannel hwell
    · cases hstep

end Session

end FramedChannel.WebSocket
