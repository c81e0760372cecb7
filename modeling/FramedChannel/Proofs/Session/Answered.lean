import FramedChannel.Proofs.Channel.Ending
import FramedChannel.Proofs.Session.DeliveryBehindClose

/-!
# A closing handshake that is answered

A session that sent a close message first closes its channel for `localClosing`
when its event stream takes the answer.  Only then is the reason settled: the
supervisor and the drain loop may settle another one before.

* `silent_of_turns` and `waiting_of_turns` say that nothing is lost on the way to
  the event stream behind an upgrade, as long as the channel is open.
* `Calm` says what a session does not do without a package: it keeps its state,
  and closes for no other reason than its own.  There is one lemma for each
  function of the session.
* `step_leaving` and `steps_leaving` follow a session that began to close.
* `steps_answered` is the result, and `steps_outrun` a session whose peer answers
  and is gone before the event stream looks.
-/

namespace FramedChannel.WebSocket

variable {asked : Session.Action → Prop} {c after : Core} {move : Option Move}
  {moves others : List Move} {events more : List SessionEvent}

/-! ## The way to the event stream -/

/-- A turn makes a move of the channel, or leaves it alone. -/
theorem Turn.channel_or_same (hturn : Turn asked c move events after) :
    channelEvents events = [] ∧ after.channel = c.channel ∨
      ∃ move, c.channel.move move = some (channelEvents events, after.channel) := by
  have hmoves := hturn.channel
  cases move with
  | none =>
    simp only [Option.toList_none, Channel.moves, Option.some.injEq, Prod.mk.injEq] at hmoves
    exact .inl ⟨hmoves.1.symm, hmoves.2.symm⟩
  | some move => exact .inr ⟨move, Channel.moves_singleton hmoves⟩

/-- Who has the stream keeps it. -/
theorem Turn.isHeld (hturn : Turn asked c move events after) (hheld : c.channel.isHeld = true) :
    after.channel.isHeld = true := by
  cases hturn with
  | returns | asks | pongs => exact hheld
  | waits => exact hheld
  | aside haside hmove =>
    rw [isHeld_of_consumer (aside_move haside hmove).2.1]
    exact hheld
  | answers _ hmove =>
    rw [isHeld_of_consumer (aside_move rfl hmove).2.1]
    exact hheld
  | posts _ _ hmove | closes _ _ _ _ _ hmove | bypasses _ hmove =>
    rw [isHeld_of_consumer (send_aside hmove).2.1]
    exact hheld
  | starts hrun => exact (run_consumer hrun).2.1 hheld
  | meets hmove =>
    rw [Core.channel_meet, isHeld_of_consumer (receive_aside hmove).2]
    exact hheld

section Talk

open Reassembly

variable {version : Option Version} {items handed rest : List (Item Package)}

theorem Talk.repliesOf_tail (h : Talk version items) : repliesOf items.tail = [] := by
  cases h with
  | nothing | keptBack | refused => rfl
  | upgraded _ _ messages => exact repliesOf_spoken messages

/-- No reply comes behind an item. -/
theorem Talk.repliesOf_behind (h : Talk version items) (hbelow : handed ++ rest <+: items)
    (hne : handed ≠ []) : repliesOf rest = [] := by
  obtain ⟨others, rfl⟩ := hbelow
  obtain ⟨item, handed, rfl⟩ := List.exists_cons_of_ne_nil hne
  have htail := h.repliesOf_tail
  rw [List.cons_append, List.cons_append, List.tail_cons, repliesOf_append, repliesOf_append,
    List.append_eq_nil_iff, List.append_eq_nil_iff] at htail
  exact htail.1.2

end Talk

section Reached

variable {pipeline options : WebSocketOptions} {connection : ConnectionOptions}
  {remote : Option Socket} {channel : Channel Decoder Package}
  (hassemble : Channel.assemble (Decoder.of pipeline) connection remote = .ok channel)
  (hturns : Turns asked (Session.of channel options).core moves events c)

include hassemble hturns

/-- The fill loop has no reply behind a package that it handed on. -/
theorem repliesOf_rest (hheard : receivedOf (channelEvents events) ++ c.channel.packages ≠ []) :
    Reassembly.repliesOf c.channel.fill.rest = [] := by
  obtain ⟨handed, hhanding, -⟩ := handing_of_turns hassemble hturns
  have htalk := talk_of_feed pipeline connection.maxPackageLength (readsOf moves)
  refine htalk.repliesOf_behind hhanding.below ?_
  rintro rfl
  exact hheard (List.prefix_nil.1 hhanding.received)

theorem unheard_of_turns : Channel.Unheard c.channel (channelEvents events) := by
  induction hturns with
  | refl =>
    obtain rfl := Channel.eq_of_assemble hassemble
    exact ⟨nofun, nofun⟩
  | tail hbegun hturn ih =>
    rw [channelEvents_append]
    rcases hturn.channel_or_same with ⟨hnone, hsame⟩ | ⟨_, hmove⟩
    · rw [hnone, hsame, List.append_nil]
      exact ih
    · refine ih.intakes (Channel.move_intakes hmove) (Channel.move_closes hmove).onward.1 ?_
      intro reply rest ending hfill
      by_contra hheard
      have hnone := repliesOf_rest hassemble hbegun hheard
      rw [hfill] at hnone
      cases hnone

/-- Behind the upgrade the fill loop sends no replies, and only stops on a channel that closes. -/
theorem silent_of_turns (hversion : c.version ≠ none) :
    c.channel.fill.IsSilent ∧ (c.channel.fill = .ended none → c.channel.isClosing = true) := by
  have hheard : receivedOf (channelEvents events) ++ c.channel.packages ≠ [] := by
    intro hnone
    have hknown := (story_of_turns hassemble hturns).version
    rw [(List.append_eq_nil_iff.1 hnone).1] at hknown
    exact hversion hknown
  obtain ⟨hreplying, hstopped⟩ := unheard_of_turns hassemble hturns
  refine ⟨⟨repliesOf_rest hassemble hturns hheard, fun items ending hfill => ?_⟩, fun hfill => ?_⟩
  · exact hheard (hreplying items ending hfill)
  · exact (hstopped hfill).resolve_right hheard

/-- Behind the upgrade no other one is received. -/
theorem upgraded_once (hversion : c.version ≠ none) (call : Nat) (info : HandshakeInfo)
    (reached : Channel Decoder Package) :
    c.channel.step .receive ≠ some ([.received call (some (.handshake info))], reached) := by
  intro hreceive
  have hmeets : Turn asked c _ (.channel (.received call (some (.handshake info))) ::
      ({ c with channel := reached }.meet call (some (.handshake info))).1) _ := .meets hreceive
  have hmem : .handshake info ∈ receivedOf (channelEvents
      (.channel (.received call (some (.handshake info))) ::
        ({ c with channel := reached }.meet call (some (.handshake info))).1)) := by
    rw [Core.channelEvents_received]
    exact List.mem_cons_self
  exact hversion (version_eq_none hassemble hturns hmeets hmem)

/-- The version is only known to a session whose event stream is read. -/
theorem isHeld_of_version (hversion : c.version ≠ none) : c.channel.isHeld = true := by
  induction hturns with
  | refl => exact absurd rfl hversion
  | @tail middle _ _ _ _ _ hbegun hturn ih =>
    by_cases hknown : middle.version = none
    · have hsane := (story_of_turns hassemble hbegun).sane
      cases hturn with
      | meets hmove =>
        have hreader := (hsane.waiting hmove).1
        rw [Core.channel_meet, isHeld_of_consumer (receive_aside hmove).2]
        exact hsane.isHeld (by rw [hreader]; exact Reader.noConfusion)
      | _ => exact absurd hknown hversion
    · exact hturn.isHeld (ih hknown)

end Reached

/-- The version stays known. -/
theorem Turn.version_ne_none (hturn : Turn asked c move events after)
    (hversion : c.version ≠ none) : after.version ≠ none := by
  cases hturn with
  | @meets call package =>
    rw [Core.version_meet]
    cases package.bind Package.version? with
    | none => exact hversion
    | some version => exact Option.some_ne_none version
  | _ => exact hversion

/-- Behind the upgrade, a package that was decoded waits until the event stream takes it, as long as
the channel is open. -/
theorem waiting_of_turns {pipeline options : WebSocketOptions} {connection : ConnectionOptions}
    {remote : Option Socket} {channel : Channel Decoder Package}
    (hassemble : Channel.assemble (Decoder.of pipeline) connection remote = .ok channel)
    (hpast : Turns asked (Session.of channel options).core moves events c)
    (hversion : c.version ≠ none) (hlater : Turns asked c others more after)
    (hopen : after.channel.isClosing = false) :
    after.version ≠ none ∧ ∃ decoded,
      receivedOf (channelEvents more) ++ after.channel.waiting = c.channel.waiting ++ decoded := by
  induction hlater with
  | refl => exact ⟨hversion, [], (List.append_nil _).symm⟩
  | @tail middle after _ _ _ _ hbegun hturn ih =>
    rcases hturn.channel_or_same with ⟨hnone, hsame⟩ | ⟨_, hmove⟩
    · rw [hsame] at hopen
      obtain ⟨hknown, decoded, hwaiting⟩ := ih hopen
      refine ⟨hturn.version_ne_none hknown, decoded, ?_⟩
      rw [channelEvents_append, hnone, List.append_nil, hsame]
      exact hwaiting
    · have hbefore : middle.channel.isClosing = false := by
        by_contra hclosing
        have hclosed := (Channel.move_closes hmove).onward.1 (by simpa using hclosing)
        rw [hopen] at hclosed
        cases hclosed
      obtain ⟨hknown, decoded, hwaiting⟩ := ih hbefore
      have hall := hpast.trans hbegun
      have hread := Channel.isUnread_of_held (isHeld_of_version hassemble hall hknown)
      have hsilent := (silent_of_turns hassemble hall hknown).1
      obtain ⟨decoded', hwaiting'⟩ := (Channel.move_intakes hmove).waiting hopen hread hsilent
      refine ⟨hturn.version_ne_none hknown, decoded ++ decoded', ?_⟩
      rw [channelEvents_append, receivedOf_append, List.append_assoc, hwaiting',
        ← List.append_assoc, hwaiting, List.append_assoc]

/-! ## What a session does without a package -/

/-- The channel has not begun to close, or closes because of the session itself. -/
def IsLocal (closing : Closing) : Prop :=
  closing = {} ∨ closing.IsFor .localClosing

variable {s : Session} {result : List SessionEvent × Session} {call : Nat}
  {seen : List (Event Package)}

namespace Session

/-- The event stream answers a close message. -/
def IsAnswering (s : Session) : Prop :=
  ∃ call, s.reader = .answering call

/-- The state stays, no package is taken, and the event stream begins to answer no close message.
Unless it answers one, the channel closes for no other reason than that of the session. -/
structure Calm (s : Session) (result : List SessionEvent × Session) : Prop where
  stored : result.2.stored = s.stored
  answering : result.2.IsAnswering → s.IsAnswering
  untaken : takenOf (channelEvents result.1) = []
  /-- What the channel closes for never changes. -/
  kept : ∀ reason, s.channel.closing.IsFor reason → result.2.channel.closing.IsFor reason
  closing : ¬ s.IsAnswering → s.channel.closing = {} → IsLocal result.2.channel.closing

theorem Calm.of_same {after : Session} (hstored : after.stored = s.stored)
    (hanswering : after.IsAnswering → s.IsAnswering)
    (huntaken : takenOf (channelEvents more) = [])
    (hclosing : after.channel.closing = s.channel.closing) : s.Calm (more, after) := by
  refine ⟨hstored, hanswering, huntaken, fun reason hfor => ?_, fun _ hfresh => ?_⟩
  · rw [hclosing]
    exact hfor
  · exact .inl (hclosing.trans hfresh)

theorem Calm.trans {middle after : Session} (h : s.Calm (events, middle))
    (h' : middle.Calm (more, after)) : s.Calm (events ++ more, after) := by
  refine ⟨h'.stored.trans h.stored, fun hanswers => h.answering (h'.answering hanswers), ?_,
    fun reason hfor => h'.kept reason (h.kept reason hfor), fun hstill hfresh => ?_⟩
  · rw [channelEvents_append, takenOf_append, h.untaken, h'.untaken, List.append_nil]
  · rcases h.closing hstill hfresh with hfresh' | hfor
    · exact h'.closing (mt h.answering hstill) hfresh'
    · exact .inr (h'.kept _ hfor)

theorem not_isAnswering_waitNext (s : Session) (call : Nat) : ¬ (s.waitNext call).IsAnswering := by
  rintro ⟨_, habsurd⟩
  cases habsurd

theorem waitNext_calm (s : Session) (call : Nat) : s.Calm ([], s.waitNext call) :=
  .of_same rfl (fun habsurd => absurd habsurd (s.not_isAnswering_waitNext call)) rfl rfl

theorem next_calm (s : Session) (call : Nat) : s.Calm ([], s.next call) := by
  unfold next
  split
  · exact s.waitNext_calm call
  · exact .of_same rfl id rfl rfl

theorem not_isAnswering_deliver (s : Session) (call : Nat) (notice : Option Notice) :
    ¬ (s.deliver call notice).2.IsAnswering := by
  rintro ⟨_, habsurd⟩
  unfold deliver at habsurd
  dsimp only at habsurd
  split at habsurd <;> cases habsurd

theorem deliver_calm (s : Session) (call : Nat) (notice : Option Notice) :
    s.Calm (s.deliver call notice) := by
  have hstill := s.not_isAnswering_deliver call notice
  have hsame : (s.deliver call notice).2.stored = s.stored ∧
      (s.deliver call notice).2.channel.closing = s.channel.closing := by
    unfold deliver
    dsimp only
    split <;> exact ⟨rfl, rfl⟩
  exact .of_same hsame.1 (fun habsurd => absurd habsurd hstill) rfl hsame.2

/-- A session that closes its channel without a handshake does nothing else. -/
theorem kept_forceClose (s : Session) (offered : CloseReason) {reason : CloseReason}
    (hfor : s.channel.closing.IsFor reason) :
    (s.forceClose offered).2.channel.closing.IsFor reason :=
  (Channel.abort_closes s.channel offered).isFor hfor

theorem untaken_forceClose (s : Session) (reason : CloseReason) :
    takenOf (channelEvents (s.forceClose reason).1) = [] := by
  show takenOf (channelEvents ((s.channel.abort reason).1.map .channel)) = []
  rw [channelEvents_map]
  exact (Channel.intake_abort s.channel reason).1

theorem isFor_forceClose (s : Session) (hlocal : IsLocal s.channel.closing) :
    (s.forceClose .localClosing).2.channel.closing.IsFor .localClosing := by
  rcases hlocal with hfresh | hfor
  · exact (Channel.abort_closes s.channel .localClosing).isFor_of_fresh hfresh
  · exact s.kept_forceClose .localClosing hfor

theorem forceClose_calm (s : Session) : s.Calm (s.forceClose .localClosing) :=
  ⟨rfl, id, s.untaken_forceClose _, fun _ => s.kept_forceClose _,
    fun _ hfresh => .inr (s.isFor_forceClose (.inl hfresh))⟩

/-- Starting changes the state of no session that was started before. -/
theorem start_calm (s : Session) (hstarted : s.stored ≠ .awaitingHandshake) :
    s.Calm ([.started s.start.1], s.start.2) := by
  obtain ⟨hclosing, -⟩ := Channel.run_closes s.channel
  unfold start
  split <;> rename_i hrun <;> rw [hrun] at hclosing
  · exact .of_same rfl id rfl hclosing
  · exact .of_same (if_neg hstarted) id rfl hclosing

/-! ### Sends -/

theorem sent_calm (s : Session) (call : Nat) (sent : Sent) : s.Calm ([.sent call sent], s) :=
  .of_same rfl id rfl rfl

theorem onSent_calm (s : Session) (call : Nat) (sent : Sent) : s.Calm (s.onSent call sent) := by
  unfold onSent
  split
  · let forgotten := { s with closers := s.closers.erase call }
    have hforgets : s.Calm ([], forgotten) := .of_same rfl id rfl rfl
    cases sent with
    | done before => exact hforgets.trans (forgotten.sent_calm call _)
    | failed error =>
      have hcloses : s.Calm ([] ++ _, _) := hforgets.trans forgotten.forceClose_calm
      exact hcloses.trans (sent_calm _ call _)
  · exact s.sent_calm call sent

/-- Behind the answer to a close message the session closes for that of its peer. -/
theorem onReturned_calm (s : Session) (call : Nat) (sent : Sent) :
    s.Calm (s.onReturned call sent) := by
  unfold onReturned
  split
  · rename_i hreader
    have hanswering : s.IsAnswering := ⟨call, hreader⟩
    exact ⟨rfl, fun _ => hanswering, s.untaken_forceClose _, fun _ => s.kept_forceClose _,
      fun hstill => absurd hanswering hstill⟩
  · split
    · split
      · exact s.deliver_calm call _
      · exact s.onSent_calm call sent
    · exact s.onSent_calm call sent

theorem absorbReturns_calm (s : Session) (huntaken : takenOf seen = []) :
    s.Calm (s.absorbReturns seen) := by
  induction seen generalizing s with
  | nil => exact .of_same rfl id rfl rfl
  | cons event rest ih =>
    rw [takenOf, List.flatMap_cons, List.append_eq_nil_iff] at huntaken
    have hseen : s.Calm ([.channel event], s) := by
      refine .of_same rfl id ?_ rfl
      rw [takenOf]
      exact (List.append_nil _).trans huntaken.1
    have hquiet := hseen.trans (ih s huntaken.2)
    cases event with
    | returned sender sent =>
      cases sender with
      | call call => exact (hseen.trans (s.onReturned_calm call sent)).trans (ih _ huntaken.2)
      | reply => exact hquiet
    | _ => exact hquiet

/-- A send is let in, or returns at once, and then the session goes on. -/
theorem absorbReturns_send_calm (s : Session) (send : Send) :
    s.Calm ({ s with channel := (s.channel.send send).2 }.absorbReturns
      (s.channel.send send).1) := by
  obtain ⟨huntaken, hclosing⟩ : takenOf (s.channel.send send).1 = [] ∧
      (s.channel.send send).2.closing = s.channel.closing := by
    unfold Channel.send
    split <;> exact ⟨rfl, rfl⟩
  have hsends : s.Calm ([], { s with channel := (s.channel.send send).2 }) :=
    .of_same rfl id rfl hclosing
  exact hsends.trans (absorbReturns_calm _ huntaken)

theorem post_calm (s : Session) (call : Nat) (message : Message) :
    s.Calm (s.post call message) := by
  unfold post
  split
  · exact s.onReturned_calm call _
  · exact s.absorbReturns_send_calm _

theorem send_calm (s : Session) (call : Nat) (message : Message) :
    s.Calm (s.send call message) := by
  unfold send
  split
  · exact s.post_calm call message
  all_goals exact s.sent_calm call _

/-! ## Who answers a close message -/

/-- Only a session whose peer closed first answers a close message. -/
def Fits (s : Session) : Prop :=
  s.IsAnswering → s.stored = .closingRemote

theorem Calm.fits (h : s.Calm result) (hfits : s.Fits) : result.2.Fits :=
  fun hanswering => h.stored.trans (hfits (h.answering hanswering))

theorem fits_of_still (hstill : ¬ s.IsAnswering) : s.Fits :=
  fun hanswering => absurd hanswering hstill

theorem onClose_fits (s : Session) (call : Nat) (payload : Bytes) :
    (s.onClose call payload).2.Fits := by
  unfold onClose
  split
  · exact fits_of_still (not_isAnswering_waitNext _ call)
  · exact (post_calm { s with stored := .closingRemote, reader := .answering call } call _).fits
      fun _ => rfl
  · exact fits_of_still (not_isAnswering_waitNext _ call)

theorem onReceived_fits (s : Session) (call : Nat) (package : Option Package) :
    (s.onReceived call package).2.Fits := by
  rcases package with _ | info | request | message
  · exact fits_of_still (not_isAnswering_deliver _ call _)
  · exact fits_of_still (not_isAnswering_deliver _ call _)
  · exact fits_of_still (not_isAnswering_deliver _ call _)
  · simp only [onReceived]
    split
    · exact s.onClose_fits call _
    · refine (post_calm { s with reader := .ponging call message } call _).fits (fits_of_still ?_)
      rintro ⟨_, habsurd⟩
      cases habsurd
    · exact fits_of_still (not_isAnswering_deliver _ call _)

theorem absorb_fits (hfits : s.Fits) (seen : List (Event Package)) : (s.absorb seen).2.Fits := by
  induction seen generalizing s with
  | nil => exact hfits
  | cons event rest ih =>
    cases event with
    | returned sender sent =>
      cases sender with
      | call call => exact ih ((s.onReturned_calm call sent).fits hfits)
      | reply => exact ih hfits
    | received call package => exact ih (s.onReceived_fits call package)
    | _ => exact ih hfits

theorem start_fits (hfits : s.Fits) : s.start.2.Fits := by
  unfold start
  split
  · exact hfits
  · intro hanswering
    have hstored := hfits hanswering
    simp [hstored]

theorem closeHandshake_fits (hfits : s.Fits) (call : Nat) (status : UInt16) (reason : String) :
    (s.closeHandshake call status reason).2.Fits := by
  unfold closeHandshake
  split
  · exact s.forceClose_calm.fits hfits
  · rename_i hopen
    have hopened : s.stored = .opened := by
      by_contra habsurd
      simp [habsurd] at hopen
    refine (post_calm _ call _).fits (fits_of_still ?_)
    intro hanswering
    have hstored := hfits hanswering
    rw [hopened] at hstored
    cases hstored

theorem step_fits (hfits : s.Fits) {action : Session.Action} (hstep : s.step action = some result) :
    result.2.Fits := by
  cases action with
  | start =>
    cases hstep
    exact start_fits hfits
  | send call message =>
    cases hstep
    exact (s.send_calm call message).fits hfits
  | sendRaw call bytes =>
    cases hstep
    exact (s.absorbReturns_send_calm _).fits hfits
  | closeHandshake call status reason =>
    cases hstep
    exact closeHandshake_fits hfits call status reason
  | forceClose _ | close _ _ | waitClosed _ | track =>
    cases hstep
    exact hfits
  | next call =>
    simp only [step] at hstep
    split at hstep <;> cases hstep
    exact (s.next_calm call).fits hfits
  | channel action =>
    simp only [step] at hstep
    split at hstep
    · obtain ⟨⟨seen, channel⟩, -, rfl⟩ := Option.map_eq_some_iff.1 hstep
      have hfits' : { s with channel }.Fits := hfits
      exact absorb_fits hfits' seen
    · cases hstep

theorem steps_fits (hfits : s.Fits) {actions : List Session.Action}
    (hsteps : s.steps actions = some result) : result.2.Fits := by
  induction actions generalizing s result with
  | nil =>
    cases hsteps
    exact hfits
  | cons action rest ih =>
    obtain ⟨first, middle, more, after, hfirst, hrest, rfl⟩ := steps_cons hsteps
    have hafter : (more, after).2.Fits := ih (step_fits hfits hfirst) hrest
    exact hafter

/-! ## A session that waits for the answer -/

/-- The session sent its close message first, and if it closes its channel then for that. -/
structure Leaving (s : Session) : Prop where
  stored : s.stored = .closingLocal
  still : ¬ s.IsAnswering
  closing : IsLocal s.channel.closing

/-- In these events no close message comes, or the channel closes for the session. -/
def Hears (result : List SessionEvent × Session) : Prop :=
  ∀ close, close.op = .close → .message close ∈ receivedOf (channelEvents result.1) →
    result.2.channel.closing.IsFor .localClosing

theorem Calm.leaving (h : s.Calm result) (hs : s.Leaving) : result.2.Leaving := by
  refine ⟨h.stored.trans hs.stored, mt h.answering hs.still, ?_⟩
  rcases hs.closing with hfresh | hfor
  · exact h.closing hs.still hfresh
  · exact .inr (h.kept _ hfor)

theorem Calm.hears (h : s.Calm result) : Hears result := by
  intro close _ hmem
  rw [receivedOf_eq_nil h.untaken] at hmem
  cases hmem

/-- The reason that a step settles beside the session: the supervisor sees that the fill loop came
to its end, or the drain loop cannot write. -/
def overrules (s : Session) : Session.Action → Option CloseReason
  | .channel action => s.channel.offers (.act action)
  | _ => none

/-- The answer closes the channel. -/
theorem onClose_leaving (hs : s.Leaving) (call : Nat) (payload : Bytes) :
    s.Calm (s.onClose call payload) ∧
      (s.onClose call payload).2.channel.closing.IsFor .localClosing := by
  unfold onClose
  rw [hs.stored]
  have hcalm := s.forceClose_calm.trans (waitNext_calm _ call)
  rw [List.append_nil] at hcalm
  exact ⟨hcalm, s.isFor_forceClose hs.closing⟩

theorem onReceived_leaving (hs : s.Leaving) (call : Nat) {package : Option Package}
    (hlater : ∀ info, package ≠ some (.handshake info)) :
    s.Calm (s.onReceived call package) ∧
      ∀ close, package = some (.message close) → close.op = .close →
        (s.onReceived call package).2.channel.closing.IsFor .localClosing := by
  rcases package with _ | info | request | message
  · exact ⟨s.deliver_calm call none, nofun⟩
  · exact absurd rfl (hlater info)
  · exact ⟨s.deliver_calm call _, nofun⟩
  · cases hop : message.op with
    | close =>
      simp only [onReceived, hop]
      obtain ⟨hcalm, hfor⟩ := onClose_leaving hs call message.data
      exact ⟨hcalm, fun _ _ _ => hfor⟩
    | ping =>
      have hponging : s.Calm ([], { s with reader := .ponging call message }) := by
        refine .of_same rfl ?_ rfl rfl
        rintro ⟨_, habsurd⟩
        cases habsurd
      simp only [onReceived, hop]
      refine ⟨hponging.trans (post_calm _ call _), ?_⟩
      rintro close hsame hclose
      cases hsame
      cases hop.symm.trans hclose
    | _ =>
      simp only [onReceived, hop]
      refine ⟨s.deliver_calm call _, ?_⟩
      rintro close hsame hclose
      cases hsame
      cases hop.symm.trans hclose

theorem absorb_of_untaken (s : Session) (huntaken : takenOf seen = []) :
    s.absorb seen = s.absorbReturns seen := by
  induction seen generalizing s with
  | nil => rfl
  | cons event rest ih =>
    rw [takenOf, List.flatMap_cons, List.append_eq_nil_iff] at huntaken
    cases event with
    | received call package => cases huntaken.1
    | returned sender sent =>
      cases sender with
      | call call => simp only [absorb, absorbReturns, ih _ huntaken.2]
      | reply => simp only [absorb, absorbReturns, ih _ huntaken.2]
    | _ => simp only [absorb, absorbReturns, ih _ huntaken.2]

/-- Whether an action closes the channel, or begins to. -/
def Action.closes : Session.Action → Bool
  | forceClose _ | close .. | closeHandshake .. => true
  | _ => false

/-- A step of the channel, with what the session makes of it. -/
theorem channel_leaving (hs : s.Leaving) (hfresh : s.channel.closing = {})
    (hsupervisor : s.channel.supervisor = .watchingFill) (hstopped : s.channel.fill ≠ .ended none)
    {action : FramedChannel.Action} {channel : Channel Decoder Package}
    (hinternal : action.isInternal = true)
    (hupgraded : ∀ call info channel, s.channel.step .receive ≠
      some ([.received call (some (.handshake info))], channel))
    (hstep : s.channel.step action = some (seen, channel)) :
    ({ s with channel }.absorb seen).2.Leaving ∧ Hears ({ s with channel }.absorb seen) ∨
      ∃ reason, s.overrules (.channel action) = some reason ∧
        ({ s with channel }.absorb seen).2.channel.closing.IsFor reason := by
  have hmove : s.channel.move (.act action) = some (seen, channel) := hstep
  have hmoved := Channel.move_isFor hfresh hsupervisor hstopped hmove
  by_cases hreceive : action = .receive
  · subst hreceive
    rcases hmoved with hsame | ⟨_, habsurd, _⟩
    · left
      obtain ⟨call, package, rfl⟩ := received_of_receive hstep
      have hs' : { s with channel }.Leaving := ⟨hs.stored, hs.still, .inl hsame⟩
      obtain ⟨hcalm, hanswered⟩ := onReceived_leaving hs' call
        fun info hsame => hupgraded call info channel (hsame ▸ hstep)
      rw [absorb_received]
      refine ⟨hcalm.leaving hs', ?_⟩
      intro close hclose hmem
      refine hanswered close ?_ hclose
      have hone : receivedOf (channelEvents (.channel (.received call package) ::
          ({ s with channel }.onReceived call package).1)) = package.toList := by
        rw [← List.singleton_append, channelEvents_append, receivedOf_append,
          receivedOf_eq_nil hcalm.untaken, List.append_nil]
        cases package <;> rfl
      rw [hone, Option.mem_toList] at hmem
      exact hmem
    · cases habsurd
  · obtain ⟨huntaken, _⟩ := aside_move (asideMove_of_internal hinternal hreceive) hstep
    rw [absorb_of_untaken _ huntaken]
    have hcalm := absorbReturns_calm { s with channel } huntaken
    rcases hmoved with hsame | ⟨reason, hoffers, hfor⟩
    · exact .inl ⟨hcalm.leaving ⟨hs.stored, hs.still, .inl hsame⟩, hcalm.hears⟩
    · exact .inr ⟨reason, hoffers, hcalm.kept reason hfor⟩

/-- A session that waits for the answer goes on to wait, closes for the answer, or is cut off. -/
theorem step_leaving (hs : s.Leaving) (hfresh : s.channel.closing = {})
    (hsupervisor : s.channel.supervisor = .watchingFill) (hstopped : s.channel.fill ≠ .ended none)
    {action : Session.Action} (haction : action.closes = false)
    (hupgraded : ∀ call info channel, s.channel.step .receive ≠
      some ([.received call (some (.handshake info))], channel))
    (hstep : s.step action = some result) :
    result.2.Leaving ∧ Hears result ∨
      ∃ reason, s.overrules action = some reason ∧ result.2.channel.closing.IsFor reason := by
  have hcalms : ∀ {result}, s.Calm result → result.2.Leaving ∧ Hears result :=
    fun h => ⟨h.leaving hs, h.hears⟩
  cases action with
  | forceClose _ | close _ _ | closeHandshake _ _ _ => cases haction
  | start =>
    cases hstep
    refine .inl (hcalms (s.start_calm ?_))
    rw [hs.stored]
    exact SessionState.noConfusion
  | send call message =>
    cases hstep
    exact .inl (hcalms (s.send_calm call message))
  | sendRaw call bytes =>
    cases hstep
    exact .inl (hcalms (s.absorbReturns_send_calm _))
  | waitClosed _ | track =>
    cases hstep
    exact .inl (hcalms (.of_same rfl id rfl rfl))
  | next call =>
    simp only [step] at hstep
    split at hstep <;> cases hstep
    exact .inl (hcalms (s.next_calm call))
  | channel action =>
    simp only [step] at hstep
    split at hstep
    · rename_i hinternal
      obtain ⟨⟨seen, channel⟩, hchannel, rfl⟩ := Option.map_eq_some_iff.1 hstep
      exact channel_leaving hs hfresh hsupervisor hstopped hinternal hupgraded hchannel
    · cases hstep

end Session

/-- The event stream took no close message. -/
def Unanswered (events : List SessionEvent) : Prop :=
  ∀ close, close.op = .close → .message close ∉ receivedOf (channelEvents events)

theorem Unanswered.append (h : Unanswered events) (h' : Unanswered more) :
    Unanswered (events ++ more) := by
  intro close hclose hmem
  rw [channelEvents_append, receivedOf_append] at hmem
  exact (List.mem_append.1 hmem).elim (h close hclose) (h' close hclose)

/-- On the way from a session to another one, the channel began to close for a reason beside the
session, before the event stream took a close message. -/
inductive Overruled (s after : Session) : List Session.Action → Prop where
  | intro {first rest : List Session.Action} {action : Session.Action} {seen : List SessionEvent}
      {between : Session} {reason : CloseReason} (hfirst : s.steps first = some (seen, between))
      (hopen : between.isClosing = false) (hnone : Unanswered seen)
      (hreason : between.overrules action = some reason)
      (hfor : after.channel.closing.IsFor reason) : Overruled s after (first ++ action :: rest)

theorem Overruled.isFor {after : Session} {later : List Session.Action}
    (h : Overruled s after later) : ∃ reason, after.channel.closing.IsFor reason := by
  cases h with
  | intro _ _ _ _ hfor => exact ⟨_, hfor⟩

/-- A step in front, in which nothing was settled. -/
theorem Overruled.cons {middle after : Session} {action : Session.Action}
    {later : List Session.Action} (hstep : s.step action = some (events, middle))
    (hnone : Unanswered events) (h : Overruled middle after later) :
    Overruled s after (action :: later) := by
  cases h with
  | @intro first rest last seen between reason hfirst hopen hnone' hreason hfor =>
    have hsteps : s.steps (action :: first) = some (events ++ seen, between) := by
      simp [Session.steps, hstep, hfirst]
    exact .intro hsteps hopen (hnone.append hnone') hreason hfor

section Sessions

variable {pipeline options : WebSocketOptions} {connection : ConnectionOptions}
  {remote : Option Socket} {channel : Channel Decoder Package}

/-- The reason for which a session closes stays. -/
theorem Session.steps_isFor {reason : CloseReason} (hsane : s.core.Sane)
    (hfor : s.channel.closing.IsFor reason) {actions : List Session.Action}
    (hsteps : s.steps actions = some result) : result.2.channel.closing.IsFor reason := by
  have hreaches : Reaches (fun _ => True) s.core result :=
    Session.steps_reaches hsane (fun _ _ => trivial) hsteps
  obtain ⟨moves, hturns⟩ := hreaches
  exact Channel.moves_isFor hfor hturns.channel

/-- What becomes of a session that waits for the answer, if the application does not close it: it
waits still, it closes for the answer, or it was cut off before. -/
theorem steps_leaving
    (hassemble : Channel.assemble (Decoder.of pipeline) connection remote = .ok channel)
    (hpast : Turns (fun _ => True) (Session.of channel options).core moves events s.core)
    (hs : s.Leaving) (hopen : s.isClosing = false) {later : List Session.Action}
    (hlater : ∀ action ∈ later, action.closes = false) (hsteps : s.steps later = some result) :
    (result.2.isClosing = false ∧ Unanswered result.1) ∨
      result.2.channel.closing.IsFor .localClosing ∨ Overruled s result.2 later := by
  induction later generalizing s result moves events with
  | nil =>
    cases hsteps
    exact .inl ⟨hopen, fun _ _ => List.not_mem_nil⟩
  | cons action later ih =>
    obtain ⟨first, middle, more, after, hfirst, hrest, rfl⟩ := Session.steps_cons hsteps
    obtain ⟨haction, hlater⟩ := List.forall_mem_cons.1 hlater
    have hsane := (story_of_turns hassemble hpast).sane
    have hversion : s.core.version ≠ none :=
      Option.isSome_iff_ne_none.1 (hsane.isSome_version_iff.2 (.inr (.inl hs.stored)))
    obtain ⟨hfresh, hsupervisor⟩ := Channel.fresh_of_moves hassemble hpast.channel hopen
    have hstopped : s.channel.fill ≠ .ended none := by
      intro hfill
      have hclosing := (silent_of_turns hassemble hpast hversion).2 hfill
      cases hopen.symm.trans hclosing
    obtain ⟨others, hturns⟩ : Reaches (fun _ => True) s.core (first, middle) :=
      Session.step_reaches hsane trivial hfirst
    have hsane' := hturns.sane hsane
    rcases Session.step_leaving hs hfresh hsupervisor hstopped haction
      (upgraded_once hassemble hpast hversion) hfirst with
      ⟨hleaving, hhears⟩ | ⟨reason, hreason, hfor⟩
    · rcases hleaving.closing with hfresh' | hfor
      · have hopen' : middle.isClosing = false := by
          show middle.channel.closing.cancelled = false
          rw [hfresh']
        -- The channel is open still, so the answer was not among what was taken.
        have hnone : Unanswered first := by
          intro close hclose hmem
          have habsurd := (hhears close hclose hmem).recorded
          rw [hfresh'] at habsurd
          cases habsurd
        rcases ih (hpast.trans hturns) hleaving hopen' hlater hrest with
          ⟨hopen'', hnone'⟩ | hfor | hoverruled
        · exact .inl ⟨hopen'', hnone.append hnone'⟩
        · exact .inr (.inl hfor)
        · exact .inr (.inr (hoverruled.cons hfirst hnone))
      · have hfor' : (more, after).2.channel.closing.IsFor _ :=
          Session.steps_isFor hsane' hfor hrest
        exact .inr (.inl hfor')
    · have hfor' : (more, after).2.channel.closing.IsFor reason :=
        Session.steps_isFor hsane' hfor hrest
      have hnone : Unanswered [] := fun _ _ => List.not_mem_nil
      have hoverruled : Overruled s _ ([] ++ action :: later) :=
        .intro rfl hopen hnone hreason hfor'
      exact .inr (.inr hoverruled)

/-- A session that sent its close message first, and whose event stream takes the answer of the
peer, closes for `localClosing`, whatever else the peer and the loops do, if the application does
not close it otherwise.  So it does if the answer was decoded and nothing waits for the event stream
any more.  But before the answer is taken, the supervisor may see that the fill loop came to its
end, or the drain loop may fail, and then the session closes for that. -/
theorem steps_answered {past later : List Session.Action} {s₁ s₂ : Session}
    (hassemble : Channel.assemble (Decoder.of pipeline) connection remote = .ok channel)
    (hpast : (Session.of channel options).steps past = some (events, s₁))
    (hstored : s₁.stored = .closingLocal) (hopen : s₁.isClosing = false)
    (hlater : ∀ action ∈ later, action.closes = false)
    (hsteps : s₁.steps later = some (more, s₂))
    (hanswered : ∃ close, close.op = .close ∧
      (.message close ∈ receivedOf (channelEvents more) ∨
        .message close ∈ s₁.channel.waiting ∧ s₂.channel.waiting = [])) :
    s₂.channel.closing.IsFor .localClosing ∨ Overruled s₁ s₂ later := by
  have hsane : (Session.of channel options).core.Sane := Session.sane_of_assemble hassemble
  obtain ⟨moves, hturns⟩ : Reaches (fun _ => True) _ (events, s₁) :=
    Session.steps_reaches hsane (fun _ _ => trivial) hpast
  have hsane₁ := hturns.sane hsane
  have hfits : s₁.Fits :=
    Session.steps_fits (Session.fits_of_still (by rintro ⟨_, habsurd⟩; cases habsurd)) hpast
  have hleaving : s₁.Leaving := by
    refine ⟨hstored, fun hanswering => ?_, ?_⟩
    · cases hstored.symm.trans (hfits hanswering)
    · exact .inl (Channel.fresh_of_moves hassemble hturns.channel hopen).1
  rcases steps_leaving hassemble hturns hleaving hopen hlater hsteps with ⟨hopen₂, hnone⟩ | hended
  · exfalso
    obtain ⟨close, hclose, hmem | ⟨hwaits, hempty⟩⟩ := hanswered
    · exact hnone close hclose hmem
    · obtain ⟨others, hturns₂⟩ : Reaches (fun _ => True) s₁.core (more, s₂) :=
        Session.steps_reaches hsane₁ (fun _ _ => trivial) hsteps
      have hversion : s₁.core.version ≠ none :=
        Option.isSome_iff_ne_none.1 (hsane₁.isSome_version_iff.2 (.inr (.inl hstored)))
      obtain ⟨-, decoded, hwaiting⟩ :=
        waiting_of_turns hassemble hturns hversion hturns₂ hopen₂
      rw [show s₂.core.channel.waiting = [] from hempty, List.append_nil] at hwaiting
      refine hnone close hclose ?_
      rw [hwaiting]
      exact List.mem_append_left _ hwaits
  · exact hended

end Sessions

/-- The upgraded session sends a close message, and the fill loop hands on what its peer answers. -/
def answeringPeer : List Session.Action :=
  upgrading ++ [.closeHandshake 1 1000 "", .channel .proceed, .channel .proceed, .channel .proceed,
    .channel (.fill (.read [0x88, 0x80, 0, 0, 0, 0])), .channel (.fill .deliver)]

/-- The peer ends its stream behind the answer, and the event stream looks before the supervisor
does. -/
theorem steps_answered_in_time :
    ∃ (events more : List SessionEvent) (s₁ s₂ : Session),
      freshSession.steps answeringPeer = some (events, s₁) ∧
        s₁.steps [.channel (.fill .finish), .next 2, .channel .receive, .channel .supervise] =
          some (more, s₂) ∧
        s₂.channel.closing.IsFor .localClosing := by
  have hrun : ((freshSession.steps answeringPeer).bind fun past =>
        (past.2.steps [.channel (.fill .finish), .next 2, .channel .receive,
          .channel .supervise]).map fun later =>
            (past.2.stored, past.2.isClosing, receivedOf (channelEvents later.1),
              later.2.channel.closing.recorded)) =
      some (.closingLocal, false, [.message ⟨.close, []⟩], some .localClosing) := by
    decide +kernel
  obtain ⟨⟨events, s₁⟩, hpast, hrun⟩ := Option.bind_eq_some_iff.1 hrun
  obtain ⟨⟨more, s₂⟩, hlater, hsame⟩ := Option.map_eq_some_iff.1 hrun
  simp only [Prod.mk.injEq] at hsame
  obtain ⟨hstored, hopen, hreceived, hrecorded⟩ := hsame
  have hassemble : Channel.assemble (Decoder.of {}) {} none = .ok freshSession.channel := rfl
  have hfresh : (Session.of freshSession.channel {}).steps answeringPeer = some (events, s₁) :=
    hpast
  have hanswered : .message ⟨.close, []⟩ ∈ receivedOf (channelEvents more) := by
    rw [hreceived]
    exact List.mem_cons_self
  refine ⟨events, more, s₁, s₂, hpast, hlater, ?_⟩
  rcases steps_answered hassemble hfresh hstored hopen (by decide) hlater
    ⟨_, rfl, .inl hanswered⟩ with hfor | hoverruled
  · exact hfor
  · obtain ⟨reason, hfor⟩ := hoverruled.isFor
    have hreason := hfor.recorded
    rw [hrecorded] at hreason
    cases hreason
    exact hfor

/-- The supervisor looks first.  The event stream takes the answer all the same, but the session has
closed for `remoteClosing`. -/
theorem steps_outrun :
    ((freshSession.steps answeringPeer).bind fun past =>
      (past.2.steps [.channel (.fill .finish), .channel .supervise, .next 2, .channel .receive,
        .channel .receive, .channel (.drain .flush), .channel (.drain (.write 133)),
        .channel (.drain .confirm), .channel (.drain .shutDown), .channel .supervise]).map
          fun later =>
            (past.2.stored, past.2.isClosing, past.2.channel.packages,
              receivedOf (channelEvents later.1), later.2.channel.closeReason)) =
      some (.closingLocal, false, [.message ⟨.close, []⟩], [.message ⟨.close, []⟩],
        some .remoteClosing) := by
  decide +kernel

end FramedChannel.WebSocket
