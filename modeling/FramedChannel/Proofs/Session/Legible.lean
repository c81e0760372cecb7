import FramedChannel.Proofs.Session.DeliveredToAskers
import FramedChannel.Proofs.Session.Outbound
import FramedChannel.Proofs.Text.Utf8
import FramedChannel.Proofs.WebSocket.Phases
import FramedChannel.Proofs.WebSocket.RoundTrip

/-!
# What the other side makes of a message

A message that a session sends in frames comes out at the other side as it went
in, unless it is a control message that no frame may carry.

* `Meant` says whom a send is from: it is a reply of the fill loop, an answer of
  the event stream, or something that a call of the application is to send.
  `meant_of_turns` says so of all sends of a session.
* `send_eq_of_alone` is the one thing that a session lets in for a call whose
  number no other call has: the encoded message of the call.
* `Listening` is a connection in front of a message, and `Listening.feed_said`
  and `Listening.feed_tooLong` are what it makes of an encoded one.
* `steps_legible` puts them together, and `steps_illegible` is a session that
  sends what no other side can read.
-/

namespace FramedChannel.WebSocket

open Reassembly

/-! ## The calls of the application -/

namespace Session.Action

/-- The number of a call. -/
def call? : Action → Option Nat
  | send call _ | sendRaw call _ | closeHandshake call _ _ | close call _ | waitClosed call
  | next call => some call
  | _ => none

/-- The message that a call is to send. -/
def message? : Action → Option Message
  | send _ message => some message
  | closeHandshake _ status reason => some (.close status reason)
  | _ => none

/-- The calls that send a message of a kind that an application has. -/
inductive Says (call : Nat) : Action → Message → Prop where
  | text (content : String) : Says call (send call (.text content)) (.text content)
  | binary (data : Bytes) : Says call (send call ⟨.binary, data⟩) ⟨.binary, data⟩
  | ping (data : Bytes) : Says call (send call ⟨.ping, data⟩) ⟨.ping, data⟩
  | closing (status : UInt16) (reason : String) :
    Says call (closeHandshake call status reason) (.close status reason)

end Session.Action

section Says

variable {call : Nat} {action : Session.Action} {message : Message}

theorem Session.Action.Says.message? (h : action.Says call message) :
    action.message? = some message := by
  cases h <;> rfl

/-- The application sends whole messages, and its texts are text. -/
theorem Session.Action.Says.whole (h : action.Says call message) : message.Whole := by
  cases h with
  | text content => exact ⟨OpCode.noConfusion, fun _ => Utf8.isText_encode content⟩
  | _ => exact ⟨OpCode.noConfusion, fun habsurd => by cases habsurd⟩

end Says

/-! ## Whom a send is from -/

/-- Whom a send is from, given the calls that heard from the event stream and the version that is
known. -/
inductive Meant (asked : Session.Action → Prop) (hears : Nat → Prop) (maxPayload : Nat)
    (known : Option Version) : Send → Prop where
  | reply {send : Send} (hsender : send.sender = .reply) : Meant asked hears maxPayload known send
  /-- The event stream answers a package that it met for a call. -/
  | answer {send : Send} {call : Nat} (hsender : send.sender = .call call) (hheard : hears call) :
    Meant asked hears maxPayload known send
  | bypass {call : Nat} {bytes : Bytes} (hasked : asked (.sendRaw call bytes)) :
    Meant asked hears maxPayload known ⟨.call call, .chunk bytes⟩
  | said {action : Session.Action} {call : Nat} {version : Version} {message : Message}
      (hasked : asked action) (hcall : action.call? = some call)
      (hmessage : action.message? = some message) (hversion : known = some version) :
    Meant asked hears maxPayload known ⟨.call call, .encoded (encodeFor version maxPayload message)⟩

variable {asked : Session.Action → Prop} {c after : Core} {move : Option Move} {moves : List Move}
  {events more : List SessionEvent}

theorem Meant.mono {hears hears' : Nat → Prop} {maxPayload : Nat} {known known' : Option Version}
    {send : Send} (h : Meant asked hears maxPayload known send)
    (hhears : ∀ call, hears call → hears' call)
    (hknown : ∀ version, known = some version → known' = some version) :
    Meant asked hears' maxPayload known' send := by
  cases h with
  | reply hsender => exact .reply hsender
  | answer hsender hheard => exact .answer hsender (hhears _ hheard)
  | bypass hasked => exact .bypass hasked
  | said hasked hcall hmessage hversion => exact .said hasked hcall hmessage (hknown _ hversion)

/-- The event stream answers nothing but what a call received. -/
theorem Turn.hears (hturn : Turn asked c move more after)
    (h : ∀ call, c.reader.answers? = some call → call ∈ hearersOf events) {call : Nat}
    (hanswers : after.reader.answers? = some call) : call ∈ hearersOf (events ++ more) := by
  rw [hearersOf_append]
  cases hturn with
  | returns | aside | starts | asks | posts | closes | bypasses =>
    exact List.mem_append_left _ (h call hanswers)
  | waits | pongs | answers => cases hanswers
  | @meets other package channel hmove =>
    refine List.mem_append_right _ ?_
    have hsame : other = call := by
      unfold Core.meet at hanswers
      repeat' split at hanswers
      all_goals cases hanswers
      all_goals rfl
    rw [hsame]
    exact List.mem_cons_self

/-- A version that is known stays so. -/
theorem Turn.version_eq (hturn : Turn asked c move more after)
    (hfirst : ∀ info, .handshake info ∈ receivedOf (channelEvents more) → c.version = none)
    {version : Version} (hversion : c.version = some version) : after.version = some version := by
  cases hturn with
  | @meets call package channel hmove =>
    rw [Core.channelEvents_received] at hfirst
    rcases package with _ | info | request | message
    · exact hversion
    · cases hversion.symm.trans (hfirst info List.mem_cons_self)
    · exact hversion
    · unfold Core.meet
      dsimp only
      split <;> exact hversion
  | _ => exact hversion

/-- What a turn lets in is from somebody. -/
theorem Turn.meant (hturn : Turn asked c move more after) {hears : Nat → Prop}
    (hhears : ∀ call, c.reader.answers? = some call → hears call) {send : Send}
    (hmem : send ∈ letIn c move) : Meant asked hears c.options.maxFramePayload c.version send := by
  cases hturn with
  | returns | asks | pongs | starts | waits | meets | answers => cases hmem
  | @aside move _ channel haside hmove =>
    rw [letIn_some] at hmem
    obtain ⟨bytes, rfl⟩ := mem_letsIn_aside haside hmem
    exact .reply rfl
  | posts hallowed hversion =>
    obtain rfl := mem_letIn_send hmem
    rcases hallowed with ⟨hasked, _⟩ | ⟨_, hanswers⟩
    · exact .said hasked rfl rfl hversion
    · exact .answer rfl (hhears _ hanswers)
  | closes _ _ hallowed _ hversion =>
    obtain rfl := mem_letIn_send hmem
    rcases hallowed with ⟨status, reason, hasked, rfl⟩ | hanswers
    · exact .said hasked rfl rfl hversion
    · exact .answer rfl (hhears _ hanswers)
  | bypasses hasked =>
    obtain rfl := mem_letIn_send hmem
    exact .bypass hasked

section Sessions

variable {pipeline options : WebSocketOptions} {connection : ConnectionOptions}
  {remote : Option Socket} {channel : Channel Decoder Package}
  (hassemble : Channel.assemble (Decoder.of pipeline) connection remote = .ok channel)

include hassemble

/-- Every send of a session is from somebody. -/
theorem meant_of_turns
    (hturns : Turns asked (Session.of channel options).core moves events c) :
    (∀ call, c.reader.answers? = some call → call ∈ hearersOf events) ∧
      ∀ send ∈ channel.admitted moves,
        Meant asked (· ∈ hearersOf events) options.maxFramePayload c.version send := by
  generalize hfirst : (Session.of channel options).core = first at hturns
  induction hturns with
  | refl =>
    subst hfirst
    refine ⟨fun call habsurd => ?_, fun send habsurd => ?_⟩ <;> cases habsurd
  | @tail middle after moves move events more hbegun hturn ih =>
    subst hfirst
    obtain ⟨hhears, hmeant⟩ := ih
    have hgrows : ∀ call, call ∈ hearersOf events → call ∈ hearersOf (events ++ more) := by
      intro call hmem
      rw [hearersOf_append]
      exact List.mem_append_left _ hmem
    have hknown : ∀ version, middle.version = some version → after.version = some version :=
      fun version => hturn.version_eq fun _ => version_eq_none hassemble hbegun hturn
    refine ⟨fun call => hturn.hears hhears, fun send hmem => ?_⟩
    rw [admitted_turn hbegun hturn] at hmem
    rcases List.mem_append.1 hmem with hmem | hmem
    · exact (hmeant send hmem).mono hgrows hknown
    · have hnew := (hturn.meant hhears hmem).mono hgrows hknown
      rwa [show middle.options = options from hbegun.options] at hnew

/-- All that a session lets in for a call is its message, if no other call has its number. -/
theorem send_eq_of_alone {actions : List Session.Action} {s : Session} {version : Version}
    {action : Session.Action} {call : Nat} {message : Message}
    (hsteps : (Session.of channel options).steps actions = some (events, s))
    (hturns : Turns (· ∈ actions) (Session.of channel options).core moves events s.core)
    (hversion : s.version = some version) (hspoken : action.Says call message)
    (halone : ∀ other ∈ actions, other.call? = some call → other = action) {send : Send}
    (hmem : send ∈ channel.admitted moves) (hsender : send.sender = .call call) :
    send = ⟨.call call, .encoded (encodeFor version options.maxFramePayload message)⟩ := by
  obtain ⟨_, hmeant⟩ := meant_of_turns hassemble hturns
  cases hmeant send hmem with
  | reply hreply => cases hreply.symm.trans hsender
  | answer hcall hheard =>
    -- The call would be one that asked for a package.
    cases hcall.symm.trans hsender
    cases halone _ (Session.next_of_hearer hassemble hsteps hheard) rfl
    cases hspoken
  | bypass hbytes =>
    cases hsender
    cases halone _ hbytes rfl
    cases hspoken
  | said hother hcall hmessage hknown =>
    cases hsender
    cases halone _ hother hcall
    cases hmessage.symm.trans hspoken.message?
    cases hknown.symm.trans hversion
    rfl

end Sessions

/-- An encoded message has bytes. -/
theorem encodeFramed_ne_nil (message : Message) (maxPayload : Nat) (keys : Nat → Option MaskKey) :
    encodeFramed message maxPayload keys ≠ [] := by
  have hsome := payloadsOf_ne_nil message.op message.data maxPayload
  unfold encodeFramed framesOf
  cases hpayloads : payloadsOf message.op message.data maxPayload with
  | nil => exact absurd hpayloads hsome
  | cons payload rest => exact List.cons_ne_nil _ _

theorem chunks_of_framed (message : Message) (maxPayload : Nat) {version : Version}
    (hframed : version.isFramed = true) :
    (Load.encoded (encodeFor version maxPayload message)).chunks =
      [encodeFramed message maxPayload unmasked] := by
  rw [encodeFor, if_pos hframed]
  refine if_neg ?_
  rw [List.isEmpty_iff]
  exact encodeFramed_ne_nil message maxPayload unmasked

/-! ## The other side -/

/-- A connection that does not ask for masks and has no limit came to frames, and waits for the
first one of a message. -/
structure Listening (peer : WebSocketOptions) (r : Reassembly Decoder) : Prop where
  reached : ∃ segments items, (fresh peer 0).feed segments = (items, .waiting, r)
  maskless : peer.requireMask = false
  phase : r.decoder.phase = .frames .header
  empty : r.pending.bytes = []
  closed : r.decoder.context.openMessage = none

namespace Listening

variable {peer : WebSocketOptions} {r t : Reassembly Decoder} {message : Message} {maxPayload : Nat}
  {cut : List Bytes} {items : List (Item Package)} {verdict : Verdict}

/-- All that comes in stands in front of the next frame. -/
theorem atFrame (h : Listening peer r) (bytes : Bytes) :
    AtFrame peer 0 (r.extend bytes) ∧ (r.extend bytes).pending.bytes = bytes := by
  obtain ⟨segments, before, hfeed⟩ := h.reached
  exact atFrame_of_feed hfeed h.phase h.empty bytes

/-- However the bytes are cut, the connection does with them what it does with all at once. -/
theorem feed_cutAlike (h : Listening peer r) (hrun : Runs (r.extend cut.flatten) items verdict t) :
    CutAlike 0 (r.feed cut) (items, verdict, t) := by
  obtain ⟨segments, before, hfeed⟩ := h.reached
  exact feed_behind hfeed hrun

/-- An encoded message is taken as it is, and nothing is left of it. -/
theorem feed_said (h : Listening peer r) (hwhole : message.Whole)
    (hlength : message.data.length < 1 <<< 63)
    (hshort : message.isControl = true → message.data.length ≤ maxControlPayload)
    (hcut : cut.flatten = encodeFramed message maxPayload unmasked) :
    ∃ s, r.feed cut = ([.package (.message message)], .waiting, s) ∧ s.pending.bytes = [] ∧
      s.decoder.phase = .frames .header ∧ s.decoder.context.openMessage = none := by
  obtain ⟨hat, hbytes⟩ := h.atFrame cut.flatten
  have hfits : ∀ sending ∈ [(⟨message, maxPayload, unmasked⟩ : Sending)], sending.Fits peer 0 := by
    intro sending hmem
    obtain rfl := List.mem_singleton.1 hmem
    refine ⟨hwhole.op, hwhole.text, hshort, hlength, .inl rfl, fun habsurd => ?_⟩
    rw [h.maskless] at habsurd
    cases habsurd
  obtain ⟨t, hrun, hat', hnone, hdone⟩ :=
    hat.messages hfits h.closed (by rw [hbytes, hcut]; exact (List.append_nil _).symm)
  obtain ⟨segments, before, hfeed⟩ := h.reached
  exact feed_to_frame hfeed hrun hat' hnone hdone

/-- A control message that is too long for its frame is refused. -/
theorem feed_tooLong (h : Listening peer r) (hlength : message.data.length < 1 <<< 63)
    (hcontrol : message.isControl = true) (hlong : maxControlPayload < message.data.length)
    (hcut : cut.flatten = encodeFramed message maxPayload unmasked) :
    ∃ s, r.feed cut = ([], .failed (.protocol (.controlTooLong message.data.length)), s) := by
  obtain ⟨hat, hbytes⟩ := h.atFrame cut.flatten
  have hmasked : peer.requireMask = true → unmasked 0 ≠ none := by
    rw [h.maskless]
    intro habsurd
    cases habsurd
  have hbytes' : (r.extend cut.flatten).pending.bytes =
      (⟨message, maxPayload, unmasked⟩ : Sending).bytes ++ [] := by
    rw [hbytes, hcut]
    exact (List.append_nil _).symm
  obtain ⟨t, hrun⟩ := hat.tooLong hlength hcontrol hlong hmasked hbytes'
  obtain ⟨_, _, hzero⟩ := (h.feed_cutAlike hrun).outcome
  obtain ⟨hitems, hverdict⟩ := hzero rfl
  exact ⟨(r.feed cut).2.2, Prod.ext hitems (Prod.ext hverdict rfl)⟩

end Listening

/-- When the send of a message went well on a session that speaks in frames, and no other call has
the number of its call, the message in frames is in the queue, and nothing else ever is for this
call.  Any other side that came to frames, asks for no masks and has no limit gets exactly the
message from it, however the bytes are cut.  Only a control message that is longer than the payload
of a control frame makes the other side fail.  The bound on the length of a message is one that all
byte strings in memory keep. -/
theorem steps_legible {pipeline options : WebSocketOptions} {connection : ConnectionOptions}
    {remote : Option Socket} {channel : Channel Decoder Package} {actions : List Session.Action}
    {s : Session} {version : Version} {action : Session.Action} {call : Nat} {message : Message}
    (hassemble : Channel.assemble (Decoder.of pipeline) connection remote = .ok channel)
    (hsteps : (Session.of channel options).steps actions = some (events, s))
    (hversion : s.version = some version) (hframed : version.isFramed = true)
    (hspoken : action.Says call message)
    (halone : ∀ other ∈ actions, other.call? = some call → other = action)
    (hlength : message.data.length < 1 <<< 63) :
    (∀ before, (.call call, .done before) ∈ returnsOf (channelEvents events) →
      (.call call, encodeFramed message options.maxFramePayload unmasked) ∈
        queuedOf (channelEvents events)) ∧
    ∀ chunk, (.call call, chunk) ∈ queuedOf (channelEvents events) →
      chunk = encodeFramed message options.maxFramePayload unmasked ∧
        ∀ (peer : WebSocketOptions) (r : Reassembly Decoder) (cut : List Bytes),
          Listening peer r → cut.flatten = chunk →
            ((message.isControl = true → message.data.length ≤ maxControlPayload) →
              ∃ t, r.feed cut = ([.package (.message message)], .waiting, t) ∧
                t.pending.bytes = [] ∧ t.decoder.phase = .frames .header ∧
                  t.decoder.context.openMessage = none) ∧
            (message.isControl = true → maxControlPayload < message.data.length →
              ∃ t, r.feed cut =
                ([], .failed (.protocol (.controlTooLong message.data.length)), t)) := by
  have hreaches : Reaches (· ∈ actions) _ _ :=
    Session.steps_reaches (Session.sane_of_assemble hassemble) (fun _ hmem => hmem) hsteps
  obtain ⟨moves, hturns⟩ := hreaches
  obtain ⟨ledger, hin, hexact, hqueued, hreturned⟩ := balanced_of_turns hassemble hturns
  have hload : ∀ account ∈ ledger.accounts, account.send.sender = .call call →
      account.send.load.chunks = [encodeFramed message options.maxFramePayload unmasked] := by
    intro account hmem hsender
    rw [send_eq_of_alone hassemble hsteps hturns hversion hspoken halone
      (hin.subset (List.mem_map_of_mem hmem)) hsender]
    exact chunks_of_framed message options.maxFramePayload hframed
  refine ⟨fun before hmem => ?_, fun chunk hmem => ?_⟩
  · obtain ⟨account, haccount, hsender, hsent⟩ := hreturned _ before hmem
    have hdone := hexact account haccount
    rw [Account.Exact, hsent] at hdone
    rw [hqueued]
    refine List.mem_flatMap.2 ⟨account, haccount, ?_⟩
    rw [hdone.2.2, hload account haccount hsender, hsender]
    exact List.mem_singleton_self _
  · rw [hqueued] at hmem
    obtain ⟨account, haccount, hchunk⟩ := List.mem_flatMap.1 hmem
    obtain ⟨_, hone, hsame⟩ := List.mem_map.1 hchunk
    obtain ⟨hsender, rfl⟩ := Prod.mk.inj hsame
    rcases queued_of_exact (hexact account haccount) with hnone | ⟨_, hall⟩
    · rw [hnone] at hone
      cases hone
    · rw [hall, hload account haccount hsender] at hone
      obtain rfl := List.mem_singleton.1 hone
      refine ⟨rfl, fun peer r cut hlistens hcut => ⟨fun hshort => ?_, fun hcontrol hlong => ?_⟩⟩
      · exact hlistens.feed_said hspoken.whole hlength hshort hcut
      · exact hlistens.feed_tooLong hlength hcontrol hlong hcut

/-- A peer that does not ask for masks, behind an upgrade. -/
theorem listening_of_acceptedRequest : ∃ r, Listening { requireMask := false } r := by
  have hfed : ((fresh { requireMask := false } 0).feed [acceptedRequest]).2.1 = .waiting ∧
      ((fresh { requireMask := false } 0).feed [acceptedRequest]).2.2.decoder.phase =
        .frames .header ∧
      ((fresh { requireMask := false } 0).feed [acceptedRequest]).2.2.pending.bytes = [] ∧
      ((fresh { requireMask := false } 0).feed [acceptedRequest]).2.2.decoder.context.openMessage =
        none := by
    decide +kernel
  obtain ⟨hwaiting, hphase, hempty, hclosed⟩ := hfed
  exact ⟨_, ⟨[acceptedRequest], _, Prod.ext rfl (Prod.ext hwaiting rfl)⟩, rfl, hphase, hempty,
    hclosed⟩

/-- An application sends a message on the upgraded session. -/
def saying (message : Message) : List Session.Action :=
  upgrading ++ [.send 1 message, .channel .proceed, .channel .proceed, .channel .proceed]

/-- A text is read as it was sent. -/
theorem steps_legible_text :
    ∃ (events : List SessionEvent) (s : Session) (r t : Reassembly Decoder),
      freshSession.steps (saying (.text "hi")) = some (events, s) ∧
        (.call 1, .done 0) ∈ returnsOf (channelEvents events) ∧
        (.call 1, [129, 2, 104, 105]) ∈ queuedOf (channelEvents events) ∧
        Listening { requireMask := false } r ∧
        r.feed [[129, 2, 104, 105]] = ([.package (.message (.text "hi"))], .waiting, t) := by
  have hrun : (freshSession.steps (saying (.text "hi"))).map (fun run =>
        ((returnsOf (channelEvents run.1)).getLast?, run.2.version)) =
      some (some (.call 1, .done 0), some .rfc6455) := by
    decide +kernel
  obtain ⟨⟨events, s⟩, hsteps, hsame⟩ := Option.map_eq_some_iff.1 hrun
  obtain ⟨hreturns, hversion⟩ := Prod.mk.inj hsame
  have hdone := List.mem_of_getLast? hreturns
  have halone : ∀ other ∈ saying (.text "hi"), other.call? = some 1 →
      other = .send 1 (.text "hi") := by
    decide +kernel
  obtain ⟨r, hlistens⟩ := listening_of_acceptedRequest
  have hassemble : Channel.assemble (Decoder.of {}) {} none = .ok freshSession.channel := rfl
  have hfresh : (Session.of freshSession.channel {}).steps (saying (.text "hi")) =
    some (events, s) := hsteps
  obtain ⟨hsends, hreads⟩ :=
    steps_legible hassemble hfresh hversion rfl (.text "hi") halone (by decide)
  have hqueued : (.call 1, [129, 2, 104, 105]) ∈ queuedOf (channelEvents events) := hsends 0 hdone
  obtain ⟨_, hread⟩ := hreads _ hqueued
  obtain ⟨t, hfed, _⟩ := (hread _ r [_] hlistens (List.append_nil _)).1 (by decide)
  exact ⟨events, s, r, t, hsteps, hdone, hqueued, hlistens, hfed⟩

/-- A ping with one byte more than a control frame may carry. -/
def longPing : Message :=
  ⟨.ping, List.replicate 126 0x61⟩

/-- The session is open and sends the ping, and the other side fails. -/
theorem steps_illegible :
    ∃ (events : List SessionEvent) (s : Session) (chunk : Bytes) (before : Nat)
      (r t : Reassembly Decoder),
      freshSession.steps (saying longPing) = some (events, s) ∧
        s.state = .opened ∧ s.version = some .rfc6455 ∧ .sent 1 (.done before) ∈ events ∧
        (.call 1, chunk) ∈ queuedOf (channelEvents events) ∧
        Listening { requireMask := false } r ∧
        r.feed [chunk] = ([], .failed (.protocol (.controlTooLong 126)), t) := by
  have hrun : (freshSession.steps (saying longPing)).map (fun run =>
        ((queuedOf (channelEvents run.1)).drop 1, run.1.getLast?, run.2.state, run.2.version)) =
      some ([(.call 1, encodeFramed longPing 0 unmasked)], some (.sent 1 (.done 0)), .opened,
        some .rfc6455) := by
    decide +kernel
  obtain ⟨⟨events, s⟩, hsteps, hsame⟩ := Option.map_eq_some_iff.1 hrun
  obtain ⟨hchunks, hrest⟩ := Prod.mk.inj hsame
  obtain ⟨hlast, hrest⟩ := Prod.mk.inj hrest
  obtain ⟨hstate, hversion⟩ := Prod.mk.inj hrest
  have hqueued : (.call 1, encodeFramed longPing 0 unmasked) ∈ queuedOf (channelEvents events) :=
    List.mem_of_mem_drop (hchunks ▸ List.mem_singleton_self _)
  have hlength : longPing.data.length = 126 := List.length_replicate
  have hcut : [encodeFramed longPing 0 unmasked].flatten = encodeFramed longPing 0 unmasked :=
    List.append_nil _
  obtain ⟨r, hlistens⟩ := listening_of_acceptedRequest
  obtain ⟨t, hfed⟩ := hlistens.feed_tooLong (by rw [hlength]; decide) rfl
    (by rw [hlength]; decide) hcut
  rw [hlength] at hfed
  exact ⟨events, s, _, 0, r, t, hsteps, hstate, hversion, List.mem_of_getLast? hlast, hqueued,
    hlistens, hfed⟩

end FramedChannel.WebSocket
