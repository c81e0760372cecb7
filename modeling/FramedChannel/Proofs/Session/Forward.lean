import Mathlib.Logic.Relation
import FramedChannel.Proofs.Channel.Signal
import FramedChannel.Proofs.Session.NoticesFromPackages
import FramedChannel.WebSocket.Monitor

/-!
# Sessions go forward

The state of a session goes from one to the next and never back, whatever its
peer sends, its application does and a monitor sweeps.

* `Edge` are the steps that a state may make, and `Turn.edge` says that a turn
  makes no other.
* `Lives` are the lives of a session, with sweeps of any monitors in between,
  and `Lives.turns` says that they are turns.
* `lives_forward` is the result.
-/

namespace FramedChannel.WebSocket

open Relation (ReflTransGen)

/-- The steps that the state of a session may make. -/
inductive Edge : SessionState → SessionState → Prop where
  | starts : Edge .awaitingHandshake .handshaking
  | opens : Edge .handshaking .opened
  | closesLocal : Edge .opened .closingLocal
  | closesRemote : Edge .opened .closingRemote

variable {asked : Session.Action → Prop} {c after : Core} {move : Option Move}
  {moves others : List Move} {events more : List SessionEvent}

/-! ## Turns -/

/-- Who waits for a package and knows no version yet is in the midst of the handshake. -/
theorem Core.Sane.handshaking (h : c.Sane) (hheld : c.channel.isHeld = true)
    (hnone : c.version = none) : c.stored = .handshaking := by
  have hpending := h.pending
  have hstarted := h.started hheld
  rw [hnone] at hpending
  cases hstored : c.stored with
  | handshaking => rfl
  | awaitingHandshake => exact absurd hstored hstarted
  | _ =>
    rw [hstored] at hpending
    cases hpending

/-- The version is known in the states behind the handshake, and in no other. -/
theorem Core.Sane.isSome_version_iff (h : c.Sane) :
    c.version.isSome = true ↔
      c.stored = .opened ∨ c.stored = .closingLocal ∨ c.stored = .closingRemote := by
  have hpending := h.pending
  rw [← Option.not_isNone, ← hpending]
  cases hstored : c.stored with
  | closed => exact absurd hstored h.stays
  | _ => simp [SessionState.isPending]

/-- In a turn the state goes forward, if no upgrade comes behind another. -/
theorem Turn.edge (h : c.Sane) (hturn : Turn asked c move events after)
    (hfirst : ∀ info, .handshake info ∈ receivedOf (channelEvents events) → c.version = none) :
    ReflTransGen Edge c.stored after.stored := by
  cases hturn with
  | starts =>
    dsimp only
    split
    · rename_i hstarts
      rw [hstarts.2]
      exact .single .starts
    · exact .refl
  | closes hopened _ _ hstored =>
    rw [hopened]
    rcases hstored with rfl | rfl
    · exact .single .closesLocal
    · exact .single .closesRemote
  | @meets call package channel hmove =>
    rw [Core.channelEvents_received] at hfirst
    rcases package with _ | info | request | message
    · exact .refl
    · have hheld := h.isHeld (by rw [(h.waiting hmove).1]; exact Reader.noConfusion)
      rw [h.handshaking hheld (hfirst info List.mem_cons_self)]
      exact .single .opens
    · exact .refl
    · have hsame :
          ({ c with channel }.meet call (some (.message message))).2.stored = c.stored := by
        unfold Core.meet
        dsimp only
        split <;> rfl
      rw [hsame]
  | _ => exact .refl

variable {pipeline options : WebSocketOptions} {connection : ConnectionOptions}
  {remote : Option Socket} {channel : Channel Decoder Package}

theorem Turns.edges
    (hassemble : Channel.assemble (Decoder.of pipeline) connection remote = .ok channel)
    (hpast : Turns asked (Session.of channel options).core moves events c)
    (hlater : Turns asked c others more after) : ReflTransGen Edge c.stored after.stored := by
  induction hlater with
  | refl => exact .refl
  | tail hbegun hturn ih =>
    have hmiddle := hpast.trans hbegun
    have hstory := story_of_turns hassemble hmiddle
    exact ih.trans (hturn.edge hstory.sane fun _ => version_eq_none hassemble hmiddle hturn)

/-! ## Lives -/

/-- What a session goes through, with sweeps of monitors that may watch it. -/
inductive Lives : Session → List SessionEvent → Session → Prop where
  | refl (s : Session) : Lives s [] s
  | acts {s middle after : Session} {events more : List SessionEvent} {action : Session.Action}
      (hlives : Lives s events middle) (hstep : middle.step action = some (more, after)) :
      Lives s (events ++ more) after
  /-- A monitor sweeps sessions, of which this is one. -/
  | swept {s middle after : Session} {events : List SessionEvent} {monitor : Monitor} {now : Nat}
      {sessions : List Session} {index : Nat} (hlives : Lives s events middle)
      (hbefore : sessions[index]? = some middle)
      (hafter : (monitor.sweep now sessions).2.2[index]? = some after) : Lives s events after

/-- A life goes on with steps. -/
theorem Lives.steps {s middle s' : Session} {actions : List Session.Action}
    (h : Lives s events middle) (hsteps : middle.steps actions = some (more, s')) :
    Lives s (events ++ more) s' := by
  induction actions generalizing middle events more with
  | nil =>
    cases hsteps
    rw [List.append_nil]
    exact h
  | cons action rest ih =>
    obtain ⟨first, reached, others, last, hfirst, hrest, hsame⟩ := Session.steps_cons hsteps
    cases hsame
    rw [← List.append_assoc]
    exact ih (.acts h hfirst) hrest

section Sweeps

variable {sessions : List Session} {index : Nat} {s s' : Session}

/-- What a sweep of a queue does to a session are turns in which nothing is told. -/
theorem sweepQueue_turns (asked : Session.Action → Prop) (fate : Session → Fate) (queue : List Nat)
    (hbefore : sessions[index]? = some s) :
    ∃ after moves events, (sweepQueue fate queue sessions).sessions[index]? = some after ∧
      Turns asked s.core moves events after.core ∧ noticesOf events = [] := by
  induction queue generalizing sessions s with
  | nil => exact ⟨s, [], [], hbefore, .refl _, rfl⟩
  | cons first rest ih =>
    rw [sweepQueue]
    split
    · exact ih hbefore
    · exact ih hbefore
    · exact ih hbefore
    · by_cases hfirst : first = index
      · subst hfirst
        have hforced : (sessions.modify first fun s => (s.forceClose .timeout).2)[first]? =
            some (s.forceClose .timeout).2 := by
          simp [hbefore]
        obtain ⟨after, moves, events, hafter, hturns, hnone⟩ := ih hforced
        refine ⟨after, _, _, hafter, (Session.forceClose_turn s .timeout).turns.trans hturns, ?_⟩
        rw [noticesOf_append, hnone, List.append_nil]
        exact noticesOf_map _
      · exact ih (by simp [hfirst, hbefore])

theorem sweep_turns (asked : Session.Action → Prop) {monitor : Monitor} {now : Nat}
    (hbefore : sessions[index]? = some s)
    (hafter : (monitor.sweep now sessions).2.2[index]? = some s') :
    ∃ moves events, Turns asked s.core moves events s'.core ∧ noticesOf events = [] := by
  unfold Monitor.sweep sweepQueues at hafter
  obtain ⟨middle, moves, events, hmiddle, hturns, hnone⟩ := sweepQueue_turns asked _ _ hbefore
  obtain ⟨after, others, more, hlast, hothers, hnone'⟩ := sweepQueue_turns asked _ _ hmiddle
  obtain rfl := Option.some.inj (hlast.symm.trans hafter)
  refine ⟨_, _, hturns.trans hothers, ?_⟩
  rw [noticesOf_append, hnone, hnone', List.append_nil]

end Sweeps

/-- A life is some turns in which the same is told. -/
theorem Lives.turns {s s' : Session} (h : Lives s events s') (hsane : s.core.Sane) :
    ∃ moves seen, Turns (fun _ => True) s.core moves seen s'.core ∧
      noticesOf seen = noticesOf events := by
  induction h with
  | refl => exact ⟨[], [], .refl _, rfl⟩
  | acts _ hstep ih =>
    obtain ⟨moves, seen, hturns, hsame⟩ := ih
    have hreaches : Reaches (fun _ => True) _ _ :=
      Session.step_reaches (hturns.sane hsane) trivial hstep
    obtain ⟨others, hothers⟩ := hreaches
    refine ⟨_, _, hturns.trans hothers, ?_⟩
    rw [noticesOf_append, noticesOf_append, hsame]
  | swept _ hbefore hafter ih =>
    obtain ⟨moves, seen, hturns, hsame⟩ := ih
    obtain ⟨others, more, hothers, hnone⟩ := sweep_turns _ hbefore hafter
    refine ⟨_, _, hturns.trans hothers, ?_⟩
    rw [noticesOf_append, hnone, List.append_nil, hsame]

/-! ## The result -/

/-- A channel that is closed stays closed, and so does the state of its session. -/
theorem Turns.closed {s s' : Session} (h : s.core.Sane)
    (hturns : Turns asked s.core moves events s'.core) (hclosed : s.state = .closed) :
    s'.state = .closed := by
  have hsignal : s.channel.closing.signal ≠ none := by
    intro hnone
    rw [Session.state, Channel.closeReason, hnone] at hclosed
    exact h.stays hclosed
  obtain ⟨reason, hreason⟩ := Option.ne_none_iff_exists'.1 hsignal
  have hlater := ((Channel.moves_onward hturns.channel).2 reason hreason).1
  rw [Session.state, Channel.closeReason, show s'.channel.closing.signal = _ from hlater]
  rfl

/-- Whatever a session goes through, its state only goes forward from then on, and once it is seen
closed it is so for good.  It tells of a refusal alone, or of an upgrade and then of messages.  Its
version is known exactly when the upgrade is over, and it is the version that the application was
told and that the pipeline reads. -/
theorem lives_forward {s s' : Session}
    (hassemble : Channel.assemble (Decoder.of pipeline) connection remote = .ok channel)
    (hpast : Lives (Session.of channel options) events s) (hlater : Lives s more s') :
    ReflTransGen Edge s.stored s'.stored ∧
      (s.state = .closed → s'.state = .closed) ∧
      (noticesOf events = [] ∨ (∃ request, noticesOf events = [.rejected request]) ∨
        ∃ info, ∃ messages : List Message,
          noticesOf events = .opened info :: messages.map .message) ∧
      (s.version.isSome = true ↔
        s.stored = .opened ∨ s.stored = .closingLocal ∨ s.stored = .closingRemote) ∧
      ∀ version, s.version = some version →
        (∃ info, .opened info ∈ noticesOf events ∧ info.version = version) ∧
          s.channel.reassembly.decoder.context.version = some version := by
  obtain ⟨moves, seen, hturns, hseen⟩ := hpast.turns (Session.sane_of_assemble hassemble)
  have hsane : s.core.Sane := hturns.sane (Session.sane_of_assemble hassemble)
  obtain ⟨others, seen', hturns', -⟩ := hlater.turns hsane
  have htold := told_of_turns hassemble hturns
  rw [hseen] at htold
  refine ⟨hturns.edges hassemble hturns', hturns'.closed hsane, ?_, ?_, ?_⟩
  · generalize noticesOf events = notices at htold
    cases htold with
    | nothing => exact .inl rfl
    | refused _ request => exact .inr (.inl ⟨request, rfl⟩)
    | upgraded _ _ messages => exact .inr (.inr ⟨_, messages, rfl⟩)
  · exact hsane.isSome_version_iff
  · intro version hversion
    generalize noticesOf events = notices at htold
    cases htold with
    | nothing hnone | refused hnone _ => cases hnone.symm.trans hversion
    | upgraded hsome hcontext messages =>
      cases hsome.symm.trans hversion
      exact ⟨⟨_, List.mem_cons_self, rfl⟩, hcontext⟩

/-- A session that was just made, on a channel with default options. -/
def freshSession : Session :=
  .of { options := {}, outbox := .of {}, reassembly := .of (Decoder.of {}) 4194304 } {}

/-- The session is started and gets a request that is accepted, and the upgrade is handed on. -/
def upgrading : List Session.Action :=
  [.start, .next 0, .channel (.fill (.read acceptedRequest)), .channel (.fill .reply),
    .channel .proceed, .channel .proceed, .channel .proceed, .channel (.fill .deliver),
    .channel .receive]

/-- A monitor that watches the closing handshake of the only session. -/
def closingMonitor : Monitor :=
  { options := {}, closing := [0] }

/-- This session is opened, begins to close, and is closed by the monitor. -/
theorem lives_upgrading :
    ∃ (s s' : Session) (events more : List SessionEvent),
      Lives freshSession events s ∧ Lives s more s' ∧
        noticesOf events = [.opened acceptedInfo] ∧ s'.isClosing = true ∧
        ReflTransGen Edge .opened .closingLocal ∧
        s.channel.reassembly.decoder.context.version = some .rfc6455 := by
  have hrun : ((freshSession.steps upgrading).bind fun opened =>
        (opened.2.step (.closeHandshake 1 1000 "")).bind fun closing =>
          ((closingMonitor.sweep 1000000 [closing.2]).2.2[0]?).map fun swept =>
            (noticesOf opened.1, opened.2.stored, opened.2.version, swept.stored,
              swept.isClosing)) =
      some ([.opened acceptedInfo], .opened, some .rfc6455, .closingLocal, true) := by
    decide +kernel
  obtain ⟨⟨events, s⟩, hopened, hrun⟩ := Option.bind_eq_some_iff.1 hrun
  obtain ⟨⟨more, closing⟩, hclosing, hrun⟩ := Option.bind_eq_some_iff.1 hrun
  obtain ⟨s', hswept, hsame⟩ := Option.map_eq_some_iff.1 hrun
  simp only [Prod.mk.injEq] at hsame
  obtain ⟨htold, hstored, hversion, hstored', hclosed⟩ := hsame
  have hpast : Lives (.of freshSession.channel {}) ([] ++ events) s := (Lives.refl _).steps hopened
  have hlater : Lives s ([] ++ more) s' := .swept (.acts (.refl s) hclosing) rfl hswept
  have hassemble : Channel.assemble (Decoder.of {}) {} none = .ok freshSession.channel := rfl
  obtain ⟨hedges, _, _, _, hknown⟩ := lives_forward hassemble hpast hlater
  rw [hstored, hstored'] at hedges
  exact ⟨s, s', _, _, hpast, hlater, htold, hclosed, hedges, (hknown _ hversion).2⟩

end FramedChannel.WebSocket
