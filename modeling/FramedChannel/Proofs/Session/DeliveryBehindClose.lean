import FramedChannel.Proofs.Session.Forward

/-!
# What is behind a close message

The fill loop hands packages on before the event stream takes them.  A session
that takes a close message closes its channel, but what waits in the queue by
then, and what the fill loop still hands on, is delivered all the same.

* `Core.Shut` says that a close message is being answered or that the channel
  is closing, and every turn keeps it.
* `steps_behind_close` is the result: behind a close message nothing is
  delivered but packages that waited or were handed on later, and nothing at all
  if there are none.
* `steps_overtaken` is a session that delivers a message behind the close
  message of its peer.
-/

namespace FramedChannel.WebSocket

/-! ## The end of the closing handshake -/

theorem isClosing_abort (channel : Channel Decoder Package) (reason : CloseReason) :
    (channel.abort reason).2.isClosing = true := by
  unfold Channel.abort
  dsimp only
  split
  · unfold Channel.finish Closing.finish
    dsimp only
    split <;> rfl
  · rfl

/-- The session answers a close message, or its channel is closing. -/
def Core.Shut (c : Core) : Prop :=
  (∃ call, c.reader = .answering call) ∨ c.channel.isClosing = true

variable {asked : Session.Action → Prop} {c after : Core} {move : Option Move} {moves : List Move}
  {events more : List SessionEvent} {s : Session}

theorem Turn.shut (hsane : c.Sane) (h : c.Shut) (hturn : Turn asked c move more after) :
    after.Shut := by
  rcases h with ⟨call, hreader⟩ | hclosing
  · have hother : ∀ reader, c.reader = reader → (∀ call, reader ≠ .answering call) → after.Shut :=
      fun reader hsame hnever => absurd (hsame.symm.trans hreader) (hnever call)
    cases hturn with
    | returns | asks | aside | starts | posts | closes | bypasses => exact .inl ⟨call, hreader⟩
    | waits hidle => exact hother _ hidle fun _ => Reader.noConfusion
    | meets hmove => exact hother _ (hsane.waiting hmove).1 fun _ => Reader.noConfusion
    | pongs hponging => exact hother _ hponging fun _ => Reader.noConfusion
    | answers _ hmove =>
      -- The channel is cancelled once the answer is over.
      have hclosed := isClosing_abort c.channel .remoteClosing
      rw [show c.channel.abort .remoteClosing = _ from Option.some.inj hmove] at hclosed
      exact .inr hclosed
  · exact .inr ((Channel.moves_onward hturn.channel).1 hclosing)

theorem Turns.shut (hsane : c.Sane) (h : c.Shut) (hturns : Turns asked c moves more after) :
    after.Shut := by
  induction hturns with
  | refl => exact h
  | tail hbegun hturn ih => exact hturn.shut (hbegun.sane hsane) ih

/-- A session that is shut stays so. -/
theorem Session.steps_shut {actions : List Session.Action} {result : List SessionEvent × Session}
    (hsane : s.core.Sane) (h : s.core.Shut) (hsteps : s.steps actions = some result) :
    result.2.core.Shut := by
  have hreaches : Reaches (fun _ => True) s.core result :=
    Session.steps_reaches hsane (fun _ _ => trivial) hsteps
  obtain ⟨moves, hturns⟩ := hreaches
  exact hturns.shut hsane h

/-- An event stream that met a close message while the session was open, or had begun to close,
answers it or has closed the channel. -/
theorem Session.onClose_shut {call : Nat} (hheld : s.channel.isHeld = true)
    (hc : c = { s.core with reader := if s.stored = .opened then .answering call else .idle })
    (hsane : c.Sane) (hstored : s.stored = .opened ∨ s.stored = .closingLocal) (payload : Bytes) :
    (s.onClose call payload).2.core.Shut := by
  rcases hstored with hopened | hclosing
  · have hreaches : Reaches (fun _ => True) c (s.onClose call payload) :=
      Session.onClose_reaches hheld hc hsane payload
    obtain ⟨moves, hturns⟩ := hreaches
    refine hturns.shut hsane (.inl ⟨call, ?_⟩)
    rw [hc, if_pos hopened]
  · unfold Session.onClose
    rw [hclosing]
    exact .inr (isClosing_abort s.channel .localClosing)

/-! ## What is delivered -/

/-- From an event stream that has nothing in hand on, the packages received tell what is handed
on. -/
theorem Story.later (h : Story c events) (hnothing : c.reader.inHand = [])
    (h' : Story after (events ++ more)) :
    noticesOf more ++ after.reader.inHand =
      (receivedOf (channelEvents more)).filterMap Package.notice? := by
  have hnotices := h'.notices
  rwa [noticesOf_append, channelEvents_append, receivedOf_append, List.filterMap_append,
    ← h.notices, hnothing, List.append_nil, List.append_assoc,
    List.append_cancel_left_eq] at hnotices

/-- The step that takes a close message is one of the event stream. -/
theorem Session.receive_close {close : Message} {waiting : List Package}
    {result : List SessionEvent × Session} (hsane : s.core.Sane) (hop : close.op = .close)
    (hclose : s.channel.packages = .message close :: waiting)
    (hstored : s.stored = .opened ∨ s.stored = .closingLocal)
    (hstep : s.step (.channel .receive) = some result) :
    s.reader.inHand = [] ∧ result.2.core.Shut := by
  obtain ⟨⟨seen, channel⟩, hchannel, rfl⟩ := Option.map_eq_some_iff.1 hstep
  cases hreaders : s.channel.readers with
  | nil => simp [Channel.step, Channel.stepReader, hreaders] at hchannel
  | cons call readers =>
    have hmove : s.channel.step .receive = some ([.received call (some (.message close))],
        { s.channel with readers, packages := waiting }) := by
      simp [Channel.step, Channel.stepReader, hreaders, hclose]
    cases hmove.symm.trans hchannel
    obtain ⟨hreader, -⟩ := hsane.waiting hmove
    have hheld : s.channel.isHeld = true :=
      hsane.isHeld (by rw [hreader]; exact Reader.noConfusion)
    have hmet := hsane.meet hmove
    refine ⟨?_, ?_⟩
    · rw [show s.reader = _ from hreader]
      rfl
    · simp only [Session.absorb, Session.onReceived, hop, Core.meet] at hmet ⊢
      exact Session.onClose_shut
        (s := { s with channel := { s.channel with readers, packages := waiting } })
        hheld rfl hmet hstored close.data

section Sessions

variable {pipeline options : WebSocketOptions} {connection : ConnectionOptions}
  {remote : Option Socket} {channel : Channel Decoder Package}

/-- When the event stream of a session takes a close message from the queue, while the session is
open or has sent its own, the channel is closing as soon as the message is answered.  From then on
the stream delivers what waited behind the message and what the fill loop handed on later, and
nothing else: it only ends if nothing waited, and nothing is handed on. -/
theorem steps_behind_close {past later : List Session.Action} {s₁ s₂ : Session}
    {close : Message} {waiting : List Package}
    (hassemble : Channel.assemble (Decoder.of pipeline) connection remote = .ok channel)
    (hpast : (Session.of channel options).steps past = some (events, s₁))
    (hop : close.op = .close) (hclose : s₁.channel.packages = .message close :: waiting)
    (hstored : s₁.stored = .opened ∨ s₁.stored = .closingLocal)
    (hlater : s₁.steps (.channel .receive :: later) = some (more, s₂)) :
    ((∃ call, s₂.reader = .answering call) ∨ s₂.isClosing = true) ∧
      (waiting = [] → .channel (.fill .deliver) ∉ later → noticesOf more = []) ∧
      ∃ handed,
        receivedOf (channelEvents more) ++ s₂.channel.packages =
          .message close :: (waiting ++ handed) ∧
        (.channel (.fill .deliver) ∉ later → handed = []) ∧
        noticesOf more ++ s₂.reader.inHand =
          (receivedOf (channelEvents more)).filterMap Package.notice? := by
  have hpast' : Reaches (fun _ => True) _ _ :=
    Session.steps_reaches (Session.sane_of_assemble hassemble) (fun _ _ => trivial) hpast
  obtain ⟨moves, hturns⟩ := hpast'
  have hstory := story_of_turns hassemble hturns
  have hreaches : Reaches (· ∈ .channel .receive :: later) s₁.core (more, s₂) :=
    Session.steps_reaches hstory.sane (fun _ hmem => hmem) hlater
  obtain ⟨moves', hturns'⟩ := hreaches
  obtain ⟨first, middle, rest, last, hfirst, hrest, hsame⟩ := Session.steps_cons hlater
  cases hsame
  obtain ⟨hnothing, hshut⟩ := Session.receive_close hstory.sane hop hclose hstored hfirst
  obtain ⟨handed, hpackages, hnone⟩ := Channel.packages_of_moves hturns'.channel
  rw [show s₁.core.channel.packages = _ from hclose, List.cons_append] at hpackages
  have hdeliver : .channel (.fill .deliver) ∉ later → handed = [] := by
    intro hother
    refine hnone fun hmem => ?_
    rcases List.mem_cons.1 (hturns'.asked_fill hmem) with habsurd | hasked
    · cases habsurd
    · exact hother hasked
  have hnotices := hstory.later hnothing (hturns'.story hstory)
  refine ⟨?_, ?_, handed, hpackages, hdeliver, hnotices⟩
  · have hbegun : Reaches (fun _ => True) s₁.core (first, middle) :=
      Session.step_reaches hstory.sane trivial hfirst
    obtain ⟨_, hbegun⟩ := hbegun
    exact Session.steps_shut (hbegun.sane hstory.sane) hshut hrest
  · intro hempty hother
    rw [hempty, hdeliver hother] at hpackages
    have hbelow : receivedOf (channelEvents (first ++ rest)) <+: [.message close] :=
      ⟨_, hpackages⟩
    have hsilent : (receivedOf (channelEvents (first ++ rest))).filterMap Package.notice? = [] := by
      rw [List.filterMap_eq_nil_iff]
      intro package hmem
      rw [List.mem_singleton.1 (hbelow.subset hmem), Package.notice?, if_pos hop]
    rw [hsilent] at hnotices
    exact (List.append_eq_nil_iff.1 hnotices).1

end Sessions

/-- The peer of the upgraded session sends a close message and some bytes behind it in one read, and
the fill loop hands on some packages while the event stream waits. -/
def closingPeer (behind : Bytes) (count : Nat) : List Session.Action :=
  upgrading ++ .next 1 :: .channel (.fill (.read ([0x88, 0x80, 0, 0, 0, 0] ++ behind))) ::
    .replicate count (.channel (.fill .deliver))

/-- Nothing is behind the close message, and the stream ends. -/
theorem steps_behind_last_close :
    ∃ (events more : List SessionEvent) (s₁ s₂ : Session),
      freshSession.steps (closingPeer [] 1) = some (events, s₁) ∧
        s₁.steps [.channel .receive, .channel .proceed, .channel .proceed, .channel .proceed,
          .channel (.fill .stop), .channel .receive] = some (more, s₂) ∧
        s₁.channel.packages = [.message ⟨.close, []⟩] ∧ noticesOf more = [] ∧
        .delivered 1 none ∈ more ∧ s₂.isClosing = true := by
  have hrun : ((freshSession.steps (closingPeer [] 1)).bind fun past =>
        (past.2.steps [.channel .receive, .channel .proceed, .channel .proceed, .channel .proceed,
          .channel (.fill .stop), .channel .receive]).map fun later =>
            (past.2.channel.packages, past.2.stored, later.1.contains (.delivered 1 none),
              later.2.reader)) =
      some ([.message ⟨.close, []⟩], .opened, true, .idle) := by
    decide +kernel
  obtain ⟨⟨events, s₁⟩, hpast, hrun⟩ := Option.bind_eq_some_iff.1 hrun
  obtain ⟨⟨more, s₂⟩, hlater, hsame⟩ := Option.map_eq_some_iff.1 hrun
  simp only [Prod.mk.injEq, List.contains_iff_mem] at hsame
  obtain ⟨hpackages, hopened, hends, hreader⟩ := hsame
  have hassemble : Channel.assemble (Decoder.of {}) {} none = .ok freshSession.channel := rfl
  have hfresh : (Session.of freshSession.channel {}).steps (closingPeer [] 1) = some (events, s₁) :=
    hpast
  obtain ⟨hshut, hsilent, -⟩ :=
    steps_behind_close hassemble hfresh rfl hpackages (.inl hopened) hlater
  refine ⟨events, more, s₁, s₂, hpast, hlater, hpackages, hsilent rfl (by decide), hends, ?_⟩
  rcases hshut with ⟨call, habsurd⟩ | hclosing
  · cases hreader.symm.trans habsurd
  · exact hclosing

/-- Two messages are behind the close message in the same read.  The session is open when its event
stream takes the close message, answers it and closes the channel, and both messages are delivered
after that, the second one to a later call. -/
theorem steps_overtaken :
    ((freshSession.steps (closingPeer
        [0x81, 0x81, 0, 0, 0, 0, 97, 0x81, 0x81, 0, 0, 0, 0, 98] 3)).bind fun past =>
      (past.2.steps [.channel .receive, .channel .proceed, .channel .proceed, .channel .proceed,
        .channel .receive, .next 2, .channel .receive]).map fun later =>
          (past.2.stored, past.2.channel.packages.head?, later.2.isClosing, noticesOf later.1,
            later.1.contains (.delivered 2 (some (.message ⟨.text, [98]⟩))))) =
      some (.opened, some (.message ⟨.close, []⟩), true,
        [.message ⟨.text, [97]⟩, .message ⟨.text, [98]⟩], true) := by
  decide +kernel

end FramedChannel.WebSocket
