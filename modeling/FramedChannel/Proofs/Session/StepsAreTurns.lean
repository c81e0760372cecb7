import FramedChannel.Proofs.Session.TurnInvariant
import FramedChannel.Proofs.WebSocket.Buffers

/-!
# The turns of a step

Every step of a session is some turns, one lemma for each function of the
session: `step_reaches`, and `steps_reaches` for a list of actions.
-/

namespace FramedChannel.WebSocket

/-- Turns lead from a core to a session, with all that can be seen of them. -/
def Reaches (asked : Session.Action → Prop) (c : Core) (result : List SessionEvent × Session) :
    Prop :=
  ∃ moves, Turns asked c moves result.1 result.2.core

variable {asked : Session.Action → Prop} {c middle : Core} {move : Option Move}
  {events more : List SessionEvent} {s : Session}

theorem Reaches.refl (asked : Session.Action → Prop) (s : Session) : Reaches asked s.core ([], s) :=
  ⟨[], .refl _⟩

theorem Turn.reaches (h : Turn asked c move events s.core) : Reaches asked c (events, s) :=
  ⟨_, h.turns⟩

/-- A turn in front of others. -/
theorem Turn.before (h : Turn asked c move events middle) (h' : Reaches asked middle (more, s)) :
    Reaches asked c (events ++ more, s) := by
  obtain ⟨moves, hturns⟩ := h'
  exact ⟨_, h.turns.trans hturns⟩

theorem Reaches.trans {first : Session} (h : Reaches asked c (events, first))
    (h' : Reaches asked first.core (more, s)) : Reaches asked c (events ++ more, s) := by
  obtain ⟨moves, hturns⟩ := h
  obtain ⟨others, hturns'⟩ := h'
  exact ⟨_, hturns.trans hturns'⟩

namespace Session

variable {call : Nat} {sent : Sent} {message : Message}

/-! ## Calls that return -/

theorem forceClose_turn (s : Session) (reason : CloseReason) :
    Turn asked s.core (some (.act (.abort reason))) (s.forceClose reason).1
      (s.forceClose reason).2.core :=
  .aside rfl rfl nofun

theorem isHeld_forceClose (s : Session) (reason : CloseReason) :
    (s.forceClose reason).2.channel.isHeld = s.channel.isHeld := by
  have haside : asideMove (.act (.abort reason)) = true := rfl
  exact isHeld_of_consumer (aside_move haside rfl).2.1

/-- The event stream waits, if it was idle. -/
theorem waitNext_turn (hidle : c = { s.core with reader := .idle })
    (hheld : s.channel.isHeld = true) (call : Nat) :
    Turn asked c (some (.act (.next call))) [] (s.waitNext call).core := by
  subst hidle
  exact .waits rfl hheld

/-- The session closes its channel without a handshake, and the event stream waits for the end. -/
theorem abort_reaches (hidle : c = { s.core with reader := .idle })
    (hheld : s.channel.isHeld = true) (reason : CloseReason) (call : Nat) :
    Reaches asked c ((s.forceClose reason).1, (s.forceClose reason).2.waitNext call) := by
  subst hidle
  have haborts : Turn asked { s with reader := .idle }.core _ _ _ := forceClose_turn _ reason
  have hkept : (s.forceClose reason).2.channel.isHeld = true :=
    (isHeld_forceClose s reason).trans hheld
  have hwaits : Reaches asked { (s.forceClose reason).2.core with reader := .idle } _ :=
    (waitNext_turn rfl hkept call).reaches
  have hall := haborts.before hwaits
  rwa [List.append_nil] at hall

/-- Behind something that was handed on, the event stream turns to the next call. -/
theorem deliver_reaches (hidle : c = { s.core with reader := .idle })
    (hheld : s.queued ≠ [] → s.channel.isHeld = true) (call : Nat) (notice : Option Notice) :
    Reaches asked c ([], (s.deliver call notice).2) := by
  subst hidle
  unfold deliver
  dsimp only
  split
  · exact ⟨[], .refl _⟩
  · rename_i call rest hqueued
    exact Turn.reaches (.waits rfl (hheld (by simp [hqueued])))

theorem onSent_reaches (s : Session) (call : Nat) (sent : Sent) :
    Reaches asked s.core (s.onSent call sent) := by
  unfold onSent
  split
  · cases sent with
    | done before => exact Turn.reaches (.returns call _)
    | failed error =>
      exact (forceClose_turn { s with closers := s.closers.erase call } _).before
        (Turn.reaches (.returns call _))
  · exact Turn.reaches (.returns call _)

theorem onReturned_reaches (hsane : s.core.Sane) (call : Nat) (sent : Sent) :
    Reaches asked s.core (s.onReturned call sent) := by
  unfold onReturned
  split
  · rename_i hreader
    have hheld : s.channel.isHeld = true :=
      hsane.isHeld (by show s.reader ≠ _; rw [hreader]; exact Reader.noConfusion)
    have hanswers : Turn asked s.core _ (s.forceClose .remoteClosing).1 _ := .answers hreader rfl
    have hkept : (s.forceClose .remoteClosing).2.channel.isHeld = true :=
      (isHeld_forceClose s .remoteClosing).trans hheld
    have hall := hanswers.before (waitNext_turn rfl hkept call).reaches
    rwa [List.append_nil] at hall
  · split
    · rename_i reading ping hreader
      split
      · rename_i hsame
        have hheld : s.channel.isHeld = true :=
          hsane.isHeld (by show s.reader ≠ _; rw [hreader]; exact Reader.noConfusion)
        have hpongs : Turn asked s.core none [.delivered reading (some (.message ping))]
            { s.core with reader := .idle } := .pongs hreader
        have hall := hpongs.before
          (deliver_reaches rfl (fun _ => hheld) call (some (.message ping)))
        rw [hsame] at hall
        exact hall
      · exact onSent_reaches s call sent
    · exact onSent_reaches s call sent

/-! ## Sends -/

/-- A send is let in, or returns at once, and then the session goes on. -/
theorem absorbReturns_reaches (hsane : c.Sane) {send : Send} (hsender : send.sender = .call call)
    (hturn : Turn asked c move ((s.channel.send send).1.map .channel)
      { s with channel := (s.channel.send send).2 }.core) :
    Reaches asked c ({ s with channel := (s.channel.send send).2 }.absorbReturns
      (s.channel.send send).1) := by
  have hsane' := hturn.sane hsane
  unfold Channel.send at hturn hsane' ⊢
  split at hturn
  · rename_i hclosing
    simp only [hclosing, if_true] at hsane' ⊢
    have hreturns : Reaches asked _ (s.onReturned call (.failed .channelClosed)) :=
      onReturned_reaches hsane' call _
    have hall := hturn.before hreturns
    rw [hsender] at hall ⊢
    simp only [absorbReturns]
    rw [List.append_nil]
    exact hall
  · rename_i hopen
    simp only [hopen]
    exact hturn.reaches

theorem post_eq_of_version {version : Version} (hversion : s.version = some version)
    (call : Nat) (message : Message) :
    s.post call message =
      let send := s.core.sending call version message
      { s with channel := (s.channel.send send).2 }.absorbReturns (s.channel.send send).1 := by
  unfold post
  rw [hversion]
  dsimp only
  rw [written_forVersion]
  rfl

/-- The session sends a message that it may send in its state. -/
theorem post_reaches (hsane : s.core.Sane)
    (hallowed : asked (.send call message) ∧ s.stored = .opened ∨
      message.op = .pong ∧ s.reader.answers? = some call) :
    Reaches asked s.core (s.post call message) := by
  cases hversion : s.version with
  | none =>
    unfold post
    rw [hversion]
    exact onReturned_reaches hsane call _
  | some version =>
    rw [post_eq_of_version hversion]
    exact absorbReturns_reaches hsane rfl (.posts hallowed hversion rfl)

/-- A session that was open begins to close, and sends a close message. -/
theorem post_close_reaches (hopened : c = { s.core with stored := .opened }) (hsane : c.Sane)
    (hclose : message.op = .close)
    (hallowed : (∃ status reason, asked (.closeHandshake call status reason) ∧
      message = .close status reason) ∨ s.reader.answers? = some call)
    (hstored : s.stored = .closingLocal ∨ s.stored = .closingRemote) :
    Reaches asked c (s.post call message) := by
  subst hopened
  obtain ⟨version, hversion⟩ := hsane.version_of_opened rfl
  have hcloses : Turn asked { s.core with stored := .opened } _
      ((s.channel.send (s.core.sending call version message)).1.map .channel)
      { s with channel := (s.channel.send (s.core.sending call version message)).2 }.core :=
    .closes rfl hclose hallowed hstored hversion rfl
  rw [post_eq_of_version hversion]
  exact absorbReturns_reaches hsane rfl hcloses

/-! ## Calls of the application -/

theorem send_reaches (hsane : s.core.Sane) (hasked : asked (.send call message)) :
    Reaches asked s.core (s.send call message) := by
  have hrefused : ∀ error, Reaches asked s.core (s.refuse call error) :=
    fun error => Turn.reaches (.returns call _)
  unfold send
  split
  · rename_i hstate
    refine post_reaches hsane (.inl ⟨hasked, ?_⟩)
    unfold state at hstate
    split at hstate
    · cases hstate
    · exact hstate
  all_goals exact hrefused _

theorem sendRaw_reaches {bytes : Bytes} (hsane : s.core.Sane)
    (hasked : asked (.sendRaw call bytes)) : Reaches asked s.core (s.sendRaw call bytes) :=
  absorbReturns_reaches hsane rfl (.bypasses hasked rfl)

theorem closeHandshake_reaches {status : UInt16} {reason : String} (hsane : s.core.Sane)
    (hasked : asked (.closeHandshake call status reason)) :
    Reaches asked s.core (s.closeHandshake call status reason) := by
  unfold closeHandshake
  split
  · exact (forceClose_turn s .localClosing).before (Turn.reaches (.returns call _))
  · rename_i hopen
    have hopened : s.stored = .opened := by
      by_contra habsurd
      simp [habsurd] at hopen
    refine post_close_reaches ?_ hsane rfl (.inl ⟨status, reason, hasked, rfl⟩) (.inl rfl)
    simp [core, hopened]

theorem start_reaches (s : Session) : Reaches asked s.core ([.started s.start.1], s.start.2) := by
  have hstarts : ∀ {fault channel}, s.channel.run = (fault, channel) →
      Turn asked s.core (some (.act .run)) [.started fault] _ := fun hrun => .starts hrun
  have hturn : Turn asked s.core (some (.act .run)) [.started s.start.1] s.start.2.core := by
    unfold start
    split <;> rename_i hrun <;> simpa [core] using hstarts hrun
  exact hturn.reaches

theorem next_reaches (hheld : s.channel.isHeld = true) (call : Nat) :
    Reaches asked s.core ([], s.next call) := by
  unfold next
  split
  · rename_i hidle
    exact (waitNext_turn (by simp [core, hidle]) hheld call).reaches
  · exact Turn.reaches (.asks call hheld)

/-! ## Steps of the channel -/

/-- The session makes nothing of an event. -/
def IsQuiet : Event Package → Prop
  | .returned (.call _) _ | .received .. => False
  | _ => True

theorem absorb_cons_of_quiet {event : Event Package} (hquiet : IsQuiet event) (s : Session)
    (rest : List (Event Package)) :
    s.absorb (event :: rest) = (.channel event :: (s.absorb rest).1, (s.absorb rest).2) := by
  cases event with
  | received => exact absurd hquiet id
  | returned sender sent =>
    cases sender with
    | call => exact absurd hquiet id
    | reply => rfl
  | _ => rfl

/-- Events of which the session makes nothing are only seen. -/
theorem absorb_of_quiet {quiet : List (Event Package)} (hquiet : ∀ event ∈ quiet, IsQuiet event)
    (s : Session) (rest : List (Event Package)) :
    s.absorb (quiet ++ rest) = (quiet.map .channel ++ (s.absorb rest).1, (s.absorb rest).2) := by
  induction quiet with
  | nil => rfl
  | cons event quiet ih =>
    rw [List.cons_append, absorb_cons_of_quiet (hquiet event List.mem_cons_self),
      ih fun event hmem => hquiet event (List.mem_cons_of_mem _ hmem)]
    rfl

theorem absorb_quiet {quiet : List (Event Package)} (hquiet : ∀ event ∈ quiet, IsQuiet event)
    (s : Session) : s.absorb quiet = (quiet.map .channel, s) := by
  have habsorb := absorb_of_quiet hquiet s []
  rwa [List.append_nil, absorb, List.append_nil] at habsorb

/-- The session is told of a step beside the calls of the application. -/
theorem quiet_turn {action : FramedChannel.Action} {channel : Channel Decoder Package}
    {quiet : List (Event Package)} (haside : asideMove (.act action) = true)
    (hquiet : ∀ event ∈ quiet, IsQuiet event)
    (hstep : s.channel.step action = some (quiet, channel))
    (hasked : ∀ step, action = .fill step → asked (.channel action)) :
    Turn asked s.core (some (.act action)) ({ s with channel }.absorb quiet).1
      ({ s with channel }.absorb quiet).2.core := by
  rw [absorb_quiet hquiet]
  refine .aside haside hstep fun step hfill => ?_
  obtain rfl := Move.act.inj hfill
  exact hasked step rfl

/-- The send that has the lock makes a step, and the session goes on if it returned. -/
theorem proceed_reaches (hsane : s.core.Sane) {channel : Channel Decoder Package}
    {seen : List (Event Package)} (hstep : s.channel.step .proceed = some (seen, channel)) :
    Reaches asked s.core ({ s with channel }.absorb seen) := by
  obtain ⟨sender, progress, _, rfl, _⟩ := Channel.step_proceed hstep
  have hturn : Turn asked s.core (some (.act .proceed)) _ { s with channel }.core :=
    .aside rfl hstep nofun
  have hqueued : ∀ event ∈ (progress.queued.map (.queued (π := Package) sender)).toList,
      IsQuiet event := by
    intro event hmem
    cases hqueued : progress.queued with
    | none => simp [hqueued] at hmem
    | some chunk =>
      simp only [hqueued, Option.map_some, Option.toList_some, List.mem_singleton] at hmem
      subst hmem
      trivial
  unfold Channel.eventsOf at hturn hstep ⊢
  cases hsent : progress.sent with
  | none =>
    rw [hsent, Option.map_none, Option.toList_none, List.append_nil] at hstep
    rw [Option.map_none, Option.toList_none, List.append_nil]
    exact (quiet_turn rfl hqueued hstep nofun).reaches
  | some sent =>
    rw [hsent, Option.map_some, Option.toList_some] at hstep hturn
    rw [Option.map_some, Option.toList_some]
    cases sender with
    | reply =>
      refine (quiet_turn rfl ?_ hstep nofun).reaches
      intro event hmem
      rcases List.mem_append.1 hmem with hmem | hmem
      · exact hqueued event hmem
      · rw [List.mem_singleton.1 hmem]
        trivial
    | call call =>
      have habsorb : { s with channel }.absorb [.returned (.call call) sent] =
          (.channel (.returned (.call call) sent) :: ({ s with channel }.onReturned call sent).1,
            ({ s with channel }.onReturned call sent).2) := by
        simp [absorb]
      have hreturns : Reaches asked _ _ := onReturned_reaches (hturn.sane hsane) call sent
      rw [absorb_of_quiet hqueued, habsorb]
      generalize { s with channel }.onReturned call sent = result at hreturns
      obtain ⟨more, after⟩ := result
      have hall := hturn.before hreturns
      rwa [List.map_append, List.append_assoc] at hall

theorem op_closeReply (version : Option Version) (payload : Bytes) :
    (closeReply version payload).op = .close := by
  unfold closeReply
  repeat' split
  all_goals rfl

/-- The event stream meets a close message. -/
theorem onClose_reaches (hheld : s.channel.isHeld = true)
    (hc : c = { s.core with reader := if s.stored = .opened then .answering call else .idle })
    (hsane : c.Sane) (payload : Bytes) : Reaches asked c (s.onClose call payload) := by
  unfold onClose
  split
  · rename_i hstored
    exact abort_reaches (by rw [hc, hstored, if_neg SessionState.noConfusion]) hheld _ call
  · rename_i hstored
    have hopened : c = { { s with stored := .closingRemote, reader := .answering call }.core with
        stored := .opened } := by
      rw [hc, if_pos hstored]
      simp [core, hstored]
    exact post_close_reaches hopened hsane (op_closeReply _ _) (.inr rfl) (.inr rfl)
  · rename_i hother
    exact (waitNext_turn (by rw [hc, if_neg hother]) hheld call).reaches

/-- The event stream gets a package, or the end, and the session makes something of it. -/
theorem onReceived_reaches (hheld : s.channel.isHeld = true) (package : Option Package)
    (hsane : (s.core.meet call package).2.Sane) :
    ∃ rest, (s.onReceived call package).1 = (s.core.meet call package).1 ++ rest ∧
      Reaches asked (s.core.meet call package).2 (rest, (s.onReceived call package).2) := by
  have hgoes : s.queued ≠ [] → s.channel.isHeld = true := fun _ => hheld
  rcases package with _ | info | request | message
  · exact ⟨[], rfl, deliver_reaches rfl hgoes call none⟩
  · exact ⟨[], rfl, deliver_reaches
      (s := { s with stored := .opened, version := _, subProtocol := _ }) rfl hgoes call _⟩
  · exact ⟨[], rfl, deliver_reaches rfl hgoes call _⟩
  · cases hop : message.op with
    | close =>
      simp only [onReceived, Core.meet, hop] at hsane ⊢
      exact ⟨_, rfl, onClose_reaches hheld rfl hsane message.data⟩
    | ping =>
      simp only [onReceived, Core.meet, hop] at hsane ⊢
      exact ⟨_, rfl,
        post_reaches (s := { s with reader := .ponging call message }) hsane (.inr ⟨rfl, rfl⟩)⟩
    | _ =>
      simp only [onReceived, Core.meet, hop]
      exact ⟨[], rfl, deliver_reaches rfl hgoes call _⟩

theorem received_of_receive {channel reached : Channel Decoder Package}
    {seen : List (Event Package)} (hstep : channel.step .receive = some (seen, reached)) :
    ∃ call package, seen = [.received call package] := by
  simp only [Channel.step, Channel.stepReader] at hstep
  repeat' split at hstep
  all_goals cases hstep
  all_goals exact ⟨_, _, rfl⟩

/-- The session makes something of a package that its event stream gets. -/
theorem absorb_received (s : Session) (call : Nat) (package : Option Package) :
    s.absorb [.received call package] =
      (.channel (.received call package) :: (s.onReceived call package).1,
        (s.onReceived call package).2) := by
  simp [absorb]

theorem receive_reaches (hsane : s.core.Sane) {channel : Channel Decoder Package}
    {seen : List (Event Package)} (hstep : s.channel.step .receive = some (seen, channel)) :
    Reaches asked s.core ({ s with channel }.absorb seen) := by
  obtain ⟨call, package, rfl⟩ := received_of_receive hstep
  have hmeets : Turn asked s.core _ _ _ := .meets hstep
  have hheld : channel.isHeld = true := by
    rw [isHeld_of_consumer (receive_aside hstep).2]
    exact hsane.isHeld (by rw [(hsane.waiting hstep).1]; exact Reader.noConfusion)
  obtain ⟨rest, hrest, hreaches⟩ := onReceived_reaches (s := { s with channel }) hheld
    package (hsane.meet hstep)
  have hall := hmeets.before hreaches
  rw [absorb_received, hrest]
  exact hall

/-- The loops and the clock do nothing of which the session makes something. -/
theorem quiet_of_step {action : FramedChannel.Action} {channel reached : Channel Decoder Package}
    {seen : List (Event Package)} (hinternal : action.isInternal = true)
    (hproceed : action ≠ .proceed) (hreceive : action ≠ .receive)
    (hstep : channel.step action = some (seen, reached)) : ∀ event ∈ seen, IsQuiet event := by
  cases action with
  | start | run | release | abort _ | close _ _ | send _ | next _ | collect | waitClosed _ =>
    cases hinternal
  | proceed => exact absurd rfl hproceed
  | receive => exact absurd rfl hreceive
  | _ =>
    simp only [Channel.step, Channel.stepCloser, Channel.stepFill, Channel.stepDrain,
      Channel.stepSupervisor, Channel.finish] at hstep
    repeat' split at hstep
    all_goals cases hstep
    all_goals simp [IsQuiet]

/-- A step that needs no call has nothing to do with the calls of the application, unless a package
is received. -/
theorem asideMove_of_internal {action : FramedChannel.Action} (hinternal : action.isInternal = true)
    (hreceive : action ≠ .receive) : asideMove (.act action) = true := by
  cases action with
  | receive => exact absurd rfl hreceive
  | start | run | release | send _ | next _ | collect => cases hinternal
  | _ => rfl

/-- The session is told of every step of its channel that needs no call. -/
theorem internal_reaches (hsane : s.core.Sane) {action : FramedChannel.Action}
    (hinternal : action.isInternal = true) (hasked : asked (.channel action))
    {channel : Channel Decoder Package} {seen : List (Event Package)}
    (hstep : s.channel.step action = some (seen, channel)) :
    Reaches asked s.core ({ s with channel }.absorb seen) := by
  by_cases hproceed : action = .proceed
  · subst hproceed
    exact proceed_reaches hsane hstep
  by_cases hreceive : action = .receive
  · subst hreceive
    exact receive_reaches hsane hstep
  have hturn := quiet_turn (asideMove_of_internal hinternal hreceive)
    (quiet_of_step hinternal hproceed hreceive hstep) hstep fun _ _ => hasked
  exact hturn.reaches

/-! ## Steps -/

/-- Every step of a session is some turns. -/
theorem step_reaches {action : Session.Action} {result : List SessionEvent × Session}
    (hsane : s.core.Sane) (hasked : asked action) (hstep : s.step action = some result) :
    Reaches asked s.core result := by
  cases action with
  | start =>
    cases hstep
    exact start_reaches s
  | send call message =>
    cases hstep
    exact send_reaches hsane hasked
  | sendRaw call bytes =>
    cases hstep
    exact sendRaw_reaches hsane hasked
  | closeHandshake call status reason =>
    cases hstep
    exact closeHandshake_reaches hsane hasked
  | forceClose reason =>
    cases hstep
    exact (forceClose_turn s reason).reaches
  | close call reason =>
    cases hstep
    have hturn : Turn asked s.core (some (.act (.close call reason))) _
        (s.close call reason).2.core := .aside rfl rfl nofun
    exact hturn.reaches
  | waitClosed call =>
    cases hstep
    have hturn : Turn asked s.core (some (.act (.waitClosed call))) _ (s.waitClosed call).core :=
      .aside rfl rfl nofun
    exact hturn.reaches
  | next call =>
    simp only [step] at hstep
    split at hstep <;> cases hstep
    exact next_reaches ‹_› call
  | track =>
    cases hstep
    exact Reaches.refl asked _
  | channel action =>
    simp only [step] at hstep
    split at hstep
    · rename_i hinternal
      obtain ⟨⟨seen, channel⟩, hchannel, rfl⟩ := Option.map_eq_some_iff.1 hstep
      exact internal_reaches hsane hinternal hasked hchannel
    · cases hstep

/-- The steps for some actions are the first of them and those behind it. -/
theorem steps_cons {action : Session.Action} {rest : List Session.Action}
    {result : List SessionEvent × Session} (hsteps : s.steps (action :: rest) = some result) :
    ∃ first middle more after, s.step action = some (first, middle) ∧
      middle.steps rest = some (more, after) ∧ result = (first ++ more, after) := by
  simp only [steps, Option.bind_eq_bind, Option.bind_eq_some_iff] at hsteps
  obtain ⟨⟨first, middle⟩, hfirst, ⟨more, after⟩, hrest, hsame⟩ := hsteps
  exact ⟨first, middle, more, after, hfirst, hrest, (Option.some.inj hsame).symm⟩

/-- The steps for some actions are some turns. -/
theorem steps_reaches {actions : List Session.Action} {result : List SessionEvent × Session}
    (hsane : s.core.Sane) (hasked : ∀ action ∈ actions, asked action)
    (hsteps : s.steps actions = some result) : Reaches asked s.core result := by
  induction actions generalizing s result with
  | nil =>
    cases hsteps
    exact .refl asked s
  | cons action rest ih =>
    obtain ⟨first, middle, more, after, hfirst, hrest, rfl⟩ := steps_cons hsteps
    have hreaches := step_reaches hsane (hasked action List.mem_cons_self) hfirst
    obtain ⟨moves, hturns⟩ := hreaches
    have hlater := ih (hturns.sane hsane)
      (fun action hmem => hasked action (List.mem_cons_of_mem _ hmem)) hrest
    exact Reaches.trans ⟨moves, hturns⟩ hlater

/-- A session that was just made keeps what every turn keeps. -/
theorem sane_of_assemble {pipeline : WebSocketOptions} {connection : ConnectionOptions}
    {remote : Option Socket} {channel : Channel Decoder Package} {options : WebSocketOptions}
    (hassemble : Channel.assemble (Decoder.of pipeline) connection remote = .ok channel) :
    (Session.of channel options).core.Sane := by
  obtain rfl := Channel.eq_of_assemble hassemble
  refine ⟨rfl, SessionState.noConfusion, fun _ => ⟨rfl, rfl⟩, rfl, ?_⟩
  intro hheld
  cases hheld

end Session

end FramedChannel.WebSocket
