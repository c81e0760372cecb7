import FramedChannel.Proofs.Session.Exchanges
import FramedChannel.Proofs.Session.ReceivedFromReads
import FramedChannel.Proofs.WebSocket.ControlMessages
import FramedChannel.Proofs.WebSocket.ReplyBlocks

/-!
# Every ping is answered once

The event stream of a session answers the pings that it takes, each of them once
and in order, before it hands them on.

* `pingsMet` are the pings that it took.
* `steps_answers` is the invariant behind any steps of a session.
* `op_of_isPong` and `pong_of_queued` say that nobody else's chunks are pongs,
  unless the application sends some.
* `steps_ponged` is the result, and `steps_ponged_between` a session that
  answers between the fragments of a message.
-/

namespace FramedChannel.WebSocket

open Reassembly

/-! ## The pings -/

/-- The ping that the event stream takes in an event, with the call for which it does so. -/
def SessionEvent.ping? : SessionEvent → Option (Nat × Bytes)
  | .channel (.received call (some (.message message))) =>
    if message.op = .ping then some (call, message.data) else none
  | _ => none

/-- The pings that the event stream took, in order. -/
def pingsMet (events : List SessionEvent) : List (Nat × Bytes) :=
  events.filterMap SessionEvent.ping?

/-- The payload of a ping. -/
def Package.ping? : Package → Option Bytes
  | message said => if said.op = .ping then some said.data else none
  | _ => none

/-- The payloads of the pings among some packages. -/
def pingsOf (packages : List Package) : List Bytes :=
  packages.filterMap Package.ping?

/-- The ping that is taken. -/
def Exchange.taken? : Exchange → Option (Nat × Bytes)
  | taken call data => some (call, data)
  | _ => none

variable {asks : Nat → Bool} {history rest : List Exchange} {s : Session}
  {events more : List SessionEvent} {seen : List (Event Package)}
  {asked : Session.Action → Prop} {c after : Core} {move : Option Move} {moves : List Move}

@[simp] theorem pingsMet_append :
    pingsMet (events ++ more) = pingsMet events ++ pingsMet more :=
  List.filterMap_append

@[simp] theorem pingsOf_append (packages others : List Package) :
    pingsOf (packages ++ others) = pingsOf packages ++ pingsOf others :=
  List.filterMap_append

/-- The pings taken are those that can be seen of answers. -/
theorem taken_exchangesOf (asks : Nat → Bool) (events : List SessionEvent) :
    (exchangesOf asks events).filterMap Exchange.taken? = pingsMet events := by
  rw [exchangesOf, List.filterMap_filterMap, pingsMet]
  congr 1
  funext event
  unfold SessionEvent.exchange?
  split
  · rename_i call message
    by_cases hop : message.op = .ping <;> simp [SessionEvent.ping?, Exchange.taken?, hop]
  · split <;> rfl
  · split <;> rfl
  · rename_i hnot _ _
    unfold SessionEvent.ping?
    split
    · exact absurd rfl (hnot _ _)
    · rfl

/-- A whole answer is that to one ping. -/
theorem taken_answers (pings : List (Nat × Bytes)) :
    (pings.flatMap answerTo).filterMap Exchange.taken? = pings := by
  induction pings with
  | nil => rfl
  | cons ping rest ih =>
    rw [List.flatMap_cons, List.filterMap_append, ih]
    rfl

/-- What was begun is the beginning of the answer to a ping that was taken. -/
theorem Underway.below {reader : Reader} {own : List Send} (h : Underway reader own rest) :
    rest <+: (rest.filterMap Exchange.taken?).flatMap answerTo := by
  cases h with
  | idle | waiting | answering => exact List.prefix_rfl
  | ponging => exact ⟨_, rfl⟩

/-! ## What is taken -/

/-- Nothing is taken where no package is. -/
theorem pingsMet_map (htaken : takenOf seen = []) : pingsMet (seen.map .channel) = [] := by
  induction seen with
  | nil => rfl
  | cons event rest ih =>
    rw [takenOf, List.flatMap_cons, List.append_eq_nil_iff] at htaken
    cases event with
    | received => cases htaken.1
    | _ => exact ih htaken.2

theorem pingsMet_meet (c : Core) (call : Nat) (package : Option Package) :
    pingsMet (c.meet call package).1 = [] := by
  unfold Core.meet
  repeat' split
  all_goals rfl

/-- The pings that are taken are those among the packages. -/
theorem Turn.pings (h : Turn asked c move events after) :
    (pingsMet events).map Prod.snd = pingsOf (receivedOf (channelEvents events)) := by
  have hnothing : ∀ {seen : List (Event Package)}, takenOf seen = [] →
      (pingsMet (seen.map .channel)).map Prod.snd =
        pingsOf (receivedOf (channelEvents (seen.map .channel))) := by
    intro seen htaken
    rw [pingsMet_map htaken, channelEvents_map, receivedOf_eq_nil htaken]
    rfl
  cases h with
  | returns | starts | asks | waits | pongs => rfl
  | aside haside hmove => exact hnothing (aside_move haside hmove).1
  | answers _ hmove => exact hnothing (aside_move rfl hmove).1
  | posts _ _ hmove | closes _ _ _ _ _ hmove | bypasses _ hmove =>
    exact hnothing (send_aside hmove).1
  | @meets call package channel hmove =>
    rw [Core.channelEvents_received, ← List.singleton_append, pingsMet_append, pingsMet_meet,
      List.append_nil]
    rcases package with _ | info | request | message
    · rfl
    · rfl
    · rfl
    · by_cases hop : message.op = .ping <;>
        simp [pingsMet, SessionEvent.ping?, pingsOf, Package.ping?, receivedOf, takenOf, hop]

theorem Turns.pings (h : Turns asked c moves events after) :
    (pingsMet events).map Prod.snd = pingsOf (receivedOf (channelEvents events)) := by
  induction h with
  | refl => rfl
  | tail _ hturn ih =>
    rw [pingsMet_append, List.map_append, ih, hturn.pings, channelEvents_append, receivedOf_append,
      pingsOf_append]

section Sessions

variable {pipeline options : WebSocketOptions} {connection : ConnectionOptions}
  {remote : Option Socket} {channel : Channel Decoder Package}
  (hassemble : Channel.assemble (Decoder.of pipeline) connection remote = .ok channel)

include hassemble

/-- A message is only received when the version is known. -/
theorem version_of_received (hturns : Turns asked (Session.of channel options).core moves events c)
    {call : Nat} {message : Message} {reached : Channel Decoder Package}
    (hreceive : c.channel.step .receive =
      some ([.received call (some (.message message))], reached)) :
    ∃ version, c.version = some version := by
  have hmeets : Turn asked c _ (.channel (.received call (some (.message message))) ::
      ({ c with channel := reached }.meet call (some (.message message))).1) _ := .meets hreceive
  have hone : receivedOf [.received call (some (Package.message message))] = [.message message] :=
    rfl
  have hheard := heard_of_turns hassemble (hturns.tail hmeets)
  rw [channelEvents_append, receivedOf_append, Core.channelEvents_received, hone] at hheard
  have hversion := (story_of_turns hassemble hturns).version
  generalize receivedOf (channelEvents events) = received at hheard hversion
  -- An upgrade comes before all messages, so it is among what was received before.
  cases received with
  | nil =>
    rw [List.nil_append] at hheard
    cases hheard
  | cons package received =>
    rw [List.cons_append] at hheard
    generalize hrest : received ++ [.message message] = rest at hheard
    cases hheard with
    | refused => simp at hrest
    | @upgraded info _ messages =>
      obtain ⟨begun, _, _, rfl, _⟩ := List.map_eq_append_iff.1 hrest.symm
      exact ⟨info.version, hversion.trans (version_upgraded info begun)⟩

/-- Further steps of a session keep the invariant. -/
theorem steps_answers {before : List SessionEvent} {actions : List Session.Action}
    {result : List SessionEvent × Session}
    (hpast : Turns (fun _ => True) (Session.of channel options).core moves before s.core)
    (h : Answers asks history s) (hcallers : ∀ call ∈ s.callers, asks call = true)
    (hnext : ∀ call, .next call ∈ actions → asks call = true)
    (halone : ∀ action ∈ actions, ∀ call, action.call? = some call → action ≠ .next call →
      asks call = false)
    (hsteps : s.steps actions = some result) (hwell : SendsWell asks result.1) :
    AnswersBehind asks history result := by
  induction actions generalizing s result history before moves with
  | nil =>
    cases hsteps
    exact h.behind rfl
  | cons action actions ih =>
    obtain ⟨first, middle, more, last, hfirst, hrest, rfl⟩ := Session.steps_cons hsteps
    obtain ⟨hwell, hwell'⟩ := hwell.of_append
    have hsane := (story_of_turns hassemble hpast).sane
    have hanswers := Session.step_answers h hsane hcallers (halone action List.mem_cons_self)
      (fun _ _ _ hreceive => version_of_received hassemble hpast hreceive) hfirst hwell
    have hserves := Session.step_serves hsane hcallers
      (fun call hsame => hnext call (hsame ▸ List.mem_cons_self)) hfirst
    obtain ⟨others, hturns⟩ : Reaches (fun _ => True) s.core (first, middle) :=
      Session.step_reaches hsane trivial hfirst
    have hlater := ih (hpast.trans hturns) hanswers hserves.left
      (fun call hmem => hnext call (List.mem_cons_of_mem _ hmem))
      (fun action hmem => halone action (List.mem_cons_of_mem _ hmem)) hrest hwell'
    exact hlater.prepend

omit hassemble

/-! ## Pongs of others -/

/-- What a turn lets in for the fill loop is a reply as it is. -/
theorem Turn.eq_replying (h : Turn asked c move more after) {send : Send}
    (hmem : send ∈ letIn c move) (hsender : send.sender = .reply) :
    ∃ reply, send = replying reply := by
  cases h with
  | returns | asks | pongs | starts | waits | meets | answers => cases hmem
  | @aside move _ channel haside hmove =>
    rw [letIn_some] at hmem
    exact mem_letsIn_aside haside hmem
  | posts | closes | bypasses =>
    obtain rfl := mem_letIn_send hmem
    cases hsender

theorem eq_replying_of_turns
    (hturns : Turns asked (Session.of channel options).core moves events c) {send : Send}
    (hmem : send ∈ channel.admitted moves) (hsender : send.sender = .reply) :
    ∃ reply, send = replying reply := by
  generalize hfirst : (Session.of channel options).core = first at hturns
  induction hturns with
  | refl => cases hmem
  | tail hbegun hturn ih =>
    subst hfirst
    rw [admitted_turn hbegun hturn] at hmem
    rcases List.mem_append.1 hmem with hmem | hmem
    · exact ih hmem
    · exact hturn.eq_replying hmem hsender

/-- A header block begins as its first line does. -/
theorem head?_headerBlock {status : String} {byte : UInt8}
    (hstatus : (Utf8.encode status).head? = some byte) (lines : List String) (tail : Bytes) :
    (headerBlock (status :: lines) ++ tail).head? = some byte := by
  rw [Utf8.encode] at hstatus
  simp [headerBlock_eq_block, Text.block, List.head?_append, hstatus]

/-- Replies are no pongs. -/
theorem AnsweredBy.not_isPong {package : Package} {reply : Bytes} (h : AnsweredBy package reply) :
    isPong reply = false := by
  have hhead : reply.head? = some 0x48 := by
    cases h with
    | refused =>
      rw [← List.append_nil rejectReply]
      exact head?_headerBlock (by decide) _ _
    | @accepted _ key =>
      rw [← List.append_nil (acceptReply key _), acceptReply_eq]
      exact head?_headerBlock (by decide) _ _
    | challenged =>
      rw [draftReply_eq]
      exact head?_headerBlock (by decide) _ _
  rw [isPong, hhead]
  decide

include hassemble

/-- A pong in the queue is one of the event stream, or the application put it there. -/
theorem pong_of_queued {actions : List Session.Action} {sender : Sender} {chunk : Bytes}
    (hsteps : (Session.of channel options).steps actions = some (events, s))
    (hmem : (sender, chunk) ∈ queuedOf (channelEvents events)) (hpong : isPong chunk = true) :
    ∃ call, sender = .call call ∧ (.next call ∈ actions ∨
      (∃ message, message.op = .pong ∧ .send call message ∈ actions) ∨
      ∃ bytes, .sendRaw call bytes ∈ actions) := by
  obtain ⟨moves, hturns⟩ : Reaches (· ∈ actions) _ (events, s) :=
    Session.steps_reaches (Session.sane_of_assemble hassemble) (fun _ hmem => hmem) hsteps
  obtain ⟨ledger, hin, hexact, hqueued, -⟩ := balanced_of_turns hassemble hturns
  obtain ⟨-, hmeant⟩ := meant_of_turns hassemble hturns
  rw [hqueued] at hmem
  obtain ⟨account, haccount, hchunk⟩ := List.mem_flatMap.1 hmem
  obtain ⟨bytes, hone, hsame⟩ := List.mem_map.1 hchunk
  obtain ⟨rfl, rfl⟩ := Prod.mk.inj hsame
  have hadmitted : account.send ∈ channel.admitted moves :=
    hin.subset (List.mem_map_of_mem haccount)
  rcases queued_of_exact (hexact account haccount) with hnone | ⟨-, hall⟩
  · rw [hnone] at hone
    cases hone
  · rw [hall] at hone
    generalize account.send = send at hone hadmitted
    cases hmeant send hadmitted with
    | reply hsender =>
      exfalso
      obtain ⟨reply, rfl⟩ := eq_replying_of_turns hturns hadmitted hsender
      obtain rfl := List.mem_singleton.1 hone
      have hreply : bytes ∈ (channel.admitted moves).filterMap Send.reply? :=
        List.mem_filterMap.2 ⟨_, hadmitted, rfl⟩
      rcases replies_of_turns hassemble hturns with hnothing | ⟨package, only, hanswers, honly⟩
      · rw [hnothing] at hreply
        cases hreply
      · rw [honly] at hreply
        obtain rfl := List.mem_singleton.1 hreply
        rw [hanswers.not_isPong] at hpong
        cases hpong
    | answer hsender hheard =>
      exact ⟨_, hsender, .inl (Session.next_of_hearer hassemble hsteps hheard)⟩
    | bypass hasked => exact ⟨_, rfl, .inr (.inr ⟨_, hasked⟩)⟩
    | @said action call version message hasked hcall hmessage =>
      have hop := op_of_isPong hone hpong
      refine ⟨call, rfl, .inr (.inl ⟨message, hop, ?_⟩)⟩
      cases action with
      | send other said =>
        cases hcall
        cases hmessage
        exact hasked
      | closeHandshake =>
        cases hmessage
        cases hop
      | _ => cases hmessage

omit hassemble

/-! ## The result -/

/-- Whether a call asks the event stream. -/
def asking (actions : List Session.Action) (call : Nat) : Bool :=
  decide (.next call ∈ actions)

/-- Each ping that was taken was answered, one behind the other, but perhaps for the last one. -/
theorem Answers.below (h : Answers asks (exchangesOf asks events) s) :
    exchangesOf asks events <+: (pingsMet events).flatMap answerTo := by
  obtain ⟨pings, sends, rest, hhistory, -, hunder⟩ := h
  have hmet : pings ++ rest.filterMap Exchange.taken? = pingsMet events := by
    rw [← taken_exchangesOf asks, hhistory, List.filterMap_append, taken_answers]
  rw [hhistory, ← hmet, List.flatMap_append, List.prefix_append_right_inj]
  exact hunder.below

/-- When no answer is begun, each ping that was taken was answered. -/
theorem Rests.whole {o : Outbox} (h : Rests asks (exchangesOf asks events) o) :
    exchangesOf asks events = (pingsMet events).flatMap answerTo := by
  obtain ⟨pings, sends, hhistory, -⟩ := h
  have hmet : pings = pingsMet events := by
    rw [← taken_exchangesOf asks, hhistory, taken_answers]
  rw [hhistory, hmet]

/-- The call that takes a ping hears of it. -/
theorem mem_hearersOf_of_ping {ping : Nat × Bytes} (hmem : ping ∈ pingsMet events) :
    ping.1 ∈ hearersOf events := by
  obtain ⟨event, hevent, hping⟩ := List.mem_filterMap.1 hmem
  refine List.mem_filterMap.2 ⟨event, hevent, ?_⟩
  unfold SessionEvent.ping? at hping
  split at hping
  · split at hping
    · cases hping
      rfl
    · cases hping
  · cases hping

/-- A ping has no more bytes than a control frame may carry. -/
theorem length_le_of_mem_pingsOf {limit : Nat} {segments : List Bytes} {data : Bytes}
    (hmem : data ∈ pingsOf (decodedFrom (Decoder.of pipeline) limit segments)) :
    data.length ≤ maxControlPayload := by
  obtain ⟨package, hpackage, hping⟩ := List.mem_filterMap.1 hmem
  cases package with
  | message message =>
    simp only [Package.ping?] at hping
    split at hping
    · rename_i hop
      cases hping
      refine brief_of_feed pipeline limit segments hpackage ?_
      rw [Message.isControl, hop]
      decide
    · cases hping
  | _ => cases hping

/-- The frame that answers a ping, byte for byte. -/
theorem pongFor_of_short {data : Bytes} (hshort : data.length ≤ maxControlPayload) :
    pongFor data = 0x8A :: UInt8.ofNat data.length :: data := by
  have hbelow : data.length < 126 := Nat.lt_succ_of_le hshort
  have hfirst : finBit ||| OpCode.code .pong = 0x8A := by decide
  rw [pongFor_eq]
  simp [header, hbelow, hfirst]

/-- The other side reads the pong, however its bytes are cut, and nothing else. -/
theorem Listening.feed_pong {peer : WebSocketOptions} {r : Reassembly Decoder} {cut : List Bytes}
    {data : Bytes} (h : Listening peer r) (hshort : data.length ≤ maxControlPayload)
    (hcut : cut.flatten = pongFor data) :
    ∃ t, r.feed cut = ([.package (.message ⟨.pong, data⟩)], .waiting, t) ∧
      t.pending.bytes = [] ∧ t.decoder.phase = .frames .header ∧
      t.decoder.context.openMessage = none := by
  have hlength : data.length < 1 <<< 63 := Nat.lt_of_le_of_lt hshort (by decide)
  exact h.feed_said ⟨OpCode.noConfusion, OpCode.noConfusion⟩ hlength (fun _ => hshort) hcut

end Sessions

/-- As long as no send of its event stream fails, a session answers every ping that the stream takes
once and in order.  The stream takes the ping, then its pong goes into the queue, and then the
application is told of it, before the next ping is taken; and unless the stream is busy with the
last one, all were answered.  The pings are the first of those that the decoder makes of what was
read, and each pong is a legal frame with the payload of its ping, of at most 125 bytes.  Any other
pong in the queue was put there by the application.  No other call has the number of a call of the
event stream. -/
theorem steps_ponged {pipeline options : WebSocketOptions} {connection : ConnectionOptions}
    {remote : Option Socket} {channel : Channel Decoder Package} {actions : List Session.Action}
    (hassemble : Channel.assemble (Decoder.of pipeline) connection remote = .ok channel)
    (hsteps : (Session.of channel options).steps actions = some (events, s))
    (halone : ∀ call, .next call ∈ actions →
      ∀ other ∈ actions, other.call? = some call → other = .next call)
    (hwell : ∀ call error, .next call ∈ actions →
      (.call call, .failed error) ∉ returnsOf (channelEvents events)) :
    exchangesOf (asking actions) events <+: (pingsMet events).flatMap answerTo ∧
      (s.reader.answers? = none →
        exchangesOf (asking actions) events = (pingsMet events).flatMap answerTo) ∧
      (pingsMet events).map Prod.snd <+:
        pingsOf (decodedFrom (Decoder.of pipeline) connection.maxPackageLength
          (inputOf actions)) ∧
      (∀ ping ∈ pingsMet events, .next ping.1 ∈ actions ∧ ping.2.length ≤ maxControlPayload ∧
        pongFor ping.2 = 0x8A :: UInt8.ofNat ping.2.length :: ping.2 ∧
        ∀ (peer : WebSocketOptions) (r : Reassembly Decoder) (cut : List Bytes),
          Listening peer r → cut.flatten = pongFor ping.2 →
            ∃ t, r.feed cut = ([.package (.message ⟨.pong, ping.2⟩)], .waiting, t) ∧
              t.pending.bytes = [] ∧ t.decoder.phase = .frames .header ∧
              t.decoder.context.openMessage = none) ∧
      ∀ sender chunk, (sender, chunk) ∈ queuedOf (channelEvents events) → isPong chunk = true →
        ∃ call, sender = .call call ∧ (.next call ∈ actions ∨
          (∃ message, message.op = .pong ∧ .send call message ∈ actions) ∨
          ∃ bytes, .sendRaw call bytes ∈ actions) := by
  have hfresh : Rests (asking actions) [] (Session.of channel options).channel.outbox :=
    ⟨[], [], rfl, .of_assemble hassemble, rfl⟩
  have hforeign : ∀ action ∈ actions, ∀ call, action.call? = some call → action ≠ .next call →
      asking actions call = false := by
    intro action hmem call hcall hother
    rw [asking, decide_eq_false_iff_not]
    exact fun hnext => hother (halone call hnext action hmem hcall)
  have hanswers : Answers (asking actions) (exchangesOf (asking actions) events) s :=
    steps_answers hassemble (.refl _) (hfresh.answers rfl) (fun _ hmem => by cases hmem)
      (fun call hnext => decide_eq_true hnext) hforeign hsteps
      fun call error hcall => hwell call error (of_decide_eq_true hcall)
  have hpings : (pingsMet events).map Prod.snd <+:
      pingsOf (decodedFrom (Decoder.of pipeline) connection.maxPackageLength
        (inputOf actions)) := by
    obtain ⟨moves, hturns⟩ : Reaches (fun _ => True) _ (events, s) :=
      Session.steps_reaches (Session.sane_of_assemble hassemble) (fun _ _ => trivial) hsteps
    rw [hturns.pings]
    exact (received_of_steps hassemble hsteps).filterMap _
  refine ⟨hanswers.below, fun hidle => (hanswers.rests hidle).whole, hpings, fun ping hmem => ?_,
    fun sender chunk => pong_of_queued hassemble hsteps⟩
  have hshort : ping.2.length ≤ maxControlPayload :=
    length_le_of_mem_pingsOf (hpings.subset (List.mem_map_of_mem hmem))
  exact ⟨Session.next_of_hearer hassemble hsteps (mem_hearersOf_of_ping hmem), hshort,
    pongFor_of_short hshort, fun _ _ _ hlistens hcut => hlistens.feed_pong hshort hcut⟩

/-- A peer that sends a text in two fragments with a ping between them, all in one read with its
request.  The application sends a text of its own before the event stream takes the ping. -/
def pingedBetween : List Session.Action :=
  [.start, .next 0,
    .channel (.fill (.read (acceptedRequest ++
      [0x01, 0x81, 0, 0, 0, 0, 0x68, 0x89, 0x82, 0, 0, 0, 0, 0x6F, 0x6B,
        0x80, 0x81, 0, 0, 0, 0, 0x69]))),
    .channel (.fill .reply), .channel .proceed, .channel .proceed, .channel .proceed,
    .channel (.fill .deliver), .channel .receive, .next 1, .channel (.fill .deliver),
    .send 2 (.text "x"), .channel .receive, .channel .proceed, .channel .proceed,
    .channel .proceed, .channel .proceed, .channel .proceed, .channel .proceed, .next 3,
    .channel (.fill .deliver), .channel .receive]

/-- The pong waits for the lock behind the text of the application, and is in the queue before the
ping is handed on.  The other side can read it. -/
theorem steps_ponged_between :
    ∃ (events : List SessionEvent) (s : Session) (r t : Reassembly Decoder),
      freshSession.steps pingedBetween = some (events, s) ∧
        (queuedOf (channelEvents events)).drop 1 =
          [(.call 2, [0x81, 1, 0x78]), (.call 1, [0x8A, 2, 0x6F, 0x6B])] ∧
        exchangesOf (asking pingedBetween) events =
          [.taken 1 [0x6F, 0x6B], .queued 1 [0x8A, 2, 0x6F, 0x6B], .told 1 [0x6F, 0x6B]] ∧
        Listening { requireMask := false } r ∧
        r.feed [[0x8A, 2], [0x6F, 0x6B]] =
          ([.package (.message ⟨.pong, [0x6F, 0x6B]⟩)], .waiting, t) := by
  have hrun : (freshSession.steps pingedBetween).map (fun run => decide (
        (queuedOf (channelEvents run.1)).drop 1 =
          [(.call 2, [0x81, 1, 0x78]), (.call 1, [0x8A, 2, 0x6F, 0x6B])] ∧
        pingsMet run.1 = [(1, [0x6F, 0x6B])] ∧ run.2.reader = .idle ∧
        (returnsOf (channelEvents run.1)).map Prod.snd = [.done 0, .done 0, .done 0])) =
      some true := by
    decide +kernel
  obtain ⟨⟨events, s⟩, hsteps, hsame⟩ := Option.map_eq_some_iff.1 hrun
  obtain ⟨hqueued, hmet, hidle, hreturns⟩ := of_decide_eq_true hsame
  have halone : ∀ call, .next call ∈ pingedBetween →
      ∀ other ∈ pingedBetween, other.call? = some call → other = .next call := by
    intro call hmem
    obtain rfl | rfl | rfl : call = 0 ∨ call = 1 ∨ call = 3 := by simpa [pingedBetween] using hmem
    all_goals decide +kernel
  have hwell : ∀ call error, .next call ∈ pingedBetween →
      (.call call, .failed error) ∉ returnsOf (channelEvents events) := by
    intro call error _ hmem
    have habsurd := List.mem_map_of_mem (f := Prod.snd) hmem
    rw [hreturns] at habsurd
    simp at habsurd
  have hassemble : Channel.assemble (Decoder.of {}) {} none = .ok freshSession.channel := rfl
  have hfresh : (Session.of freshSession.channel {}).steps pingedBetween = some (events, s) :=
    hsteps
  obtain ⟨-, hwhole, -, hpongs, -⟩ := steps_ponged hassemble hfresh halone hwell
  obtain ⟨r, hlistens⟩ := listening_of_acceptedRequest
  obtain ⟨-, -, hbytes, hread⟩ := hpongs (1, [0x6F, 0x6B]) (hmet ▸ List.mem_singleton_self _)
  obtain ⟨t, hfed, -⟩ := hread _ r [[0x8A, 2], [0x6F, 0x6B]] hlistens hbytes.symm
  refine ⟨events, s, r, t, hsteps, hqueued, ?_, hlistens, hfed⟩
  rw [hwhole (by rw [hidle]; rfl), hmet]
  rfl

end FramedChannel.WebSocket
