import Mathlib.Data.Finset.Card
import FramedChannel.Proofs.Channel.Ending
import FramedChannel.Proofs.Session.DeliveryBehindClose

/-!
# Sweeps close the sessions that are overdue

A sweep closes sessions while it goes through its queues, so what it does with
an entry depends on the entries in front of it.  Here it is told from the
sessions as they were before.

* `forceLate` closes the sessions that are late, and `Sweeps` says what a sweep
  of one queue comes to.  `sweepQueue_sweeps` shows it for any fate under which
  a session is dropped that is closing.
* `sweepQueues_sessions` puts the two queues together.
* `closeStarted_step` says when a session notes that it begins to close, so that
  none does during its upgrade (`isPending_of_lives`).
* `sweeps_overdue` is the result.
-/

namespace FramedChannel.WebSocket

open Relation (ReflTransGen)

/-! ## Counting -/

/-- Whether there is a session with this number that is closing. -/
def closingAt (sessions : List Session) (index : Nat) : Bool :=
  (sessions[index]?).any Session.isClosing

/-- The sessions that have begun to close in between. -/
def closedBetween (before after : List Session) : Finset Nat :=
  (Finset.range before.length).filter fun index =>
    closingAt before index = false ∧ closingAt after index = true

/-- There are as many sessions, and those that were closing are closing still. -/
structure Onward (before after : List Session) : Prop where
  length_eq : after.length = before.length
  closing : ∀ index, closingAt before index = true → closingAt after index = true

theorem card_closedBetween {before middle after : List Session} (h : Onward before middle)
    (h' : Onward middle after) :
    (closedBetween before after).card =
      (closedBetween before middle).card + (closedBetween middle after).card := by
  have hdisjoint : Disjoint (closedBetween before middle) (closedBetween middle after) := by
    rw [Finset.disjoint_left]
    intro index hfirst hsecond
    rw [closedBetween, Finset.mem_filter] at hfirst hsecond
    exact absurd (hfirst.2.2.symm.trans hsecond.2.1) (by decide)
  rw [← Finset.card_union_of_disjoint hdisjoint]
  congr 1
  ext index
  simp only [closedBetween, Finset.mem_union, Finset.mem_filter, Finset.mem_range, h.length_eq]
  constructor
  · rintro ⟨hin, hopen, hclosing⟩
    cases hmiddle : closingAt middle index with
    | false => exact .inr ⟨hin, rfl, hclosing⟩
    | true => exact .inl ⟨hin, hopen, rfl⟩
  · rintro (⟨hin, hopen, hmiddle⟩ | ⟨hin, hmiddle, hclosing⟩)
    · exact ⟨hin, hopen, h'.closing index hmiddle⟩
    · refine ⟨hin, ?_, hclosing⟩
      by_contra hearly
      have hlate := h.closing index (by simpa using hearly)
      exact absurd (hmiddle.symm.trans hlate) (by decide)

/-! ## One queue -/

theorem isClosing_forceClose (s : Session) (reason : CloseReason) :
    (s.forceClose reason).2.isClosing = true :=
  isClosing_abort s.channel reason

/-- The sessions, those closed that are late. -/
def forceLate (late : Nat → Session → Bool) (sessions : List Session) : List Session :=
  sessions.mapIdx fun index s => if late index s then (s.forceClose .timeout).2 else s

section ForceLate

variable {late later : Nat → Session → Bool} {sessions : List Session} {index : Nat}

theorem getElem?_forceLate (late : Nat → Session → Bool) (sessions : List Session) (index : Nat) :
    (forceLate late sessions)[index]? =
      (sessions[index]?).map fun s => if late index s then (s.forceClose .timeout).2 else s :=
  List.getElem?_mapIdx

theorem closingAt_forceLate (late : Nat → Session → Bool) (sessions : List Session) (index : Nat) :
    closingAt (forceLate late sessions) index =
      (sessions[index]?).any fun s => late index s || s.isClosing := by
  rw [closingAt, getElem?_forceLate, Option.any_map]
  congr 1
  funext s
  show Session.isClosing (if late index s then _ else s) = _
  cases hlate : late index s with
  | true => exact isClosing_forceClose s .timeout
  | false => rfl

theorem onward_forceLate (late : Nat → Session → Bool) (sessions : List Session) :
    Onward sessions (forceLate late sessions) := by
  refine ⟨List.length_mapIdx, ?_⟩
  intro index hclosing
  rw [closingAt] at hclosing
  rw [closingAt_forceLate]
  cases hs : sessions[index]? <;> simp_all

theorem mem_closedBetween_forceLate :
    index ∈ closedBetween sessions (forceLate late sessions) ↔
      ∃ s, sessions[index]? = some s ∧ s.isClosing = false ∧ late index s = true := by
  rw [closedBetween, Finset.mem_filter, Finset.mem_range, closingAt_forceLate, closingAt]
  cases hs : sessions[index]? with
  | none => simp
  | some s =>
    have hin : index < sessions.length := (List.getElem?_eq_some_iff.1 hs).1
    simp only [hin, Option.any_some, Bool.or_eq_true, Option.some.injEq, exists_eq_left']
    by_cases hclosing : s.isClosing = true <;> simp [hclosing]

theorem forceLate_congr
    (h : ∀ index s, sessions[index]? = some s → late index s = later index s) :
    forceLate late sessions = forceLate later sessions := by
  apply List.ext_getElem?
  intro index
  rw [getElem?_forceLate, getElem?_forceLate]
  cases hs : sessions[index]? with
  | none => rfl
  | some s => rw [Option.map_some, Option.map_some, h index s hs]

/-- Closing late sessions and then others closes both, if none is late that is closing. -/
theorem forceLate_forceLate (h : ∀ index s, s.isClosing = true → later index s = false) :
    forceLate later (forceLate late sessions) =
      forceLate (fun index s => late index s || later index s) sessions := by
  apply List.ext_getElem?
  intro index
  rw [getElem?_forceLate, getElem?_forceLate, getElem?_forceLate, Option.map_map]
  congr 1
  funext s
  cases hlate : late index s with
  | true => simp [hlate, h index _ (isClosing_forceClose s .timeout)]
  | false => simp [hlate]

theorem forceLate_eq_modify (sessions : List Session) (first : Nat) :
    (sessions.modify first fun s => (s.forceClose .timeout).2) =
      forceLate (fun index _ => index == first) sessions := by
  apply List.ext_getElem?
  intro index
  rw [getElem?_forceLate, List.getElem?_modify]
  by_cases hsame : first = index
  · subst hsame
    simp
  · simp [hsame, Ne.symm hsame]

end ForceLate

/-- Whether a session of the queue is overdue. -/
def lateIn (fate : Session → Fate) (queue : List Nat) (index : Nat) (s : Session) : Bool :=
  queue.contains index && fate s == .overdue

/-- Whether a session is in time. -/
def keptIn (fate : Session → Fate) (sessions : List Session) (index : Nat) : Bool :=
  (sessions[index]?).any fun s => fate s == .kept

/-- What a sweep of a queue comes to, told from the sessions as they were before. -/
structure Sweeps (fate : Session → Fate) (queue : List Nat) (sessions : List Session)
    (swept : Swept) : Prop where
  sessions_eq : swept.sessions = forceLate (lateIn fate queue) sessions
  queue_eq : swept.queue = queue.filter (keptIn fate sessions)
  forced_eq : swept.forced = (closedBetween sessions swept.sessions).card

section Queue

variable {fate : Session → Fate} {queue rest : List Nat} {first : Nat} {sessions : List Session}
  {swept : Swept}

theorem keptIn_forceLate (hclosed : ∀ s, s.isClosing = true → fate s = .dropped)
    (late : Nat → Session → Bool) (sessions : List Session) (index : Nat) :
    keptIn fate (forceLate late sessions) index =
      (sessions[index]?).any fun s => !late index s && fate s == .kept := by
  rw [keptIn, getElem?_forceLate, Option.any_map]
  congr 1
  funext s
  show (fate (if late index s then _ else s) == .kept) = _
  cases hlate : late index s with
  | true =>
    rw [if_pos rfl, hclosed _ (isClosing_forceClose s .timeout)]
    rfl
  | false => rfl

theorem Sweeps.onward (h : Sweeps fate queue sessions swept) : Onward sessions swept.sessions := by
  rw [h.sessions_eq]
  exact onward_forceLate _ _

theorem sweeps_nil : Sweeps fate [] sessions ⟨0, [], sessions⟩ := by
  refine ⟨?_, rfl, ?_⟩
  · apply List.ext_getElem?
    intro index
    rw [getElem?_forceLate]
    simp [lateIn]
  · rw [closedBetween, Finset.filter_eq_empty_iff.2]
    · rfl
    · rintro index - ⟨hopen, hclosing⟩
      exact absurd (hopen.symm.trans hclosing) (by decide)

/-- An entry that is not overdue changes no session. -/
theorem Sweeps.pass (h : Sweeps fate rest sessions swept) (first : Nat)
    (hfirst : ∀ s, sessions[first]? = some s → fate s ≠ .overdue) :
    Sweeps fate (first :: rest) sessions
      { swept with
        queue := if keptIn fate sessions first then first :: swept.queue else swept.queue } := by
  refine ⟨?_, ?_, h.forced_eq⟩
  · rw [h.sessions_eq]
    apply forceLate_congr
    intro index s hs
    by_cases hsame : index = first
    · subst hsame
      simp [lateIn, hfirst s hs]
    · simp [lateIn, hsame]
  · rw [List.filter_cons, h.queue_eq]

/-- One that is overdue closes its session, and the entries behind it find that closing. -/
theorem Sweeps.force (hclosed : ∀ s, s.isClosing = true → fate s = .dropped) {s : Session}
    (hs : sessions[first]? = some s) (hlate : fate s = .overdue)
    (h : Sweeps fate rest (sessions.modify first fun s => (s.forceClose .timeout).2) swept) :
    Sweeps fate (first :: rest) sessions { swept with forced := swept.forced + 1 } := by
  rw [forceLate_eq_modify] at h
  have hopen : s.isClosing = false := by
    by_contra hclosing
    have hdropped := hclosed s (by simpa using hclosing)
    exact absurd (hlate.symm.trans hdropped) (by decide)
  have hnever : ∀ index s, s.isClosing = true → lateIn fate rest index s = false := by
    intro index s hclosing
    simp [lateIn, hclosed s hclosing]
  refine ⟨?_, ?_, ?_⟩
  · show swept.sessions = _
    rw [h.sessions_eq, forceLate_forceLate hnever]
    apply forceLate_congr
    intro index s' hs'
    by_cases hsame : index = first
    · subst hsame
      obtain rfl := Option.some.inj (hs.symm.trans hs')
      simp [lateIn, hlate]
    · simp [lateIn, hsame]
  · have hnotKept : ¬ keptIn fate sessions first = true := by simp [keptIn, hs, hlate]
    show swept.queue = _
    rw [h.queue_eq, List.filter_cons_of_neg hnotKept]
    apply List.filter_congr
    intro index _
    rw [keptIn_forceLate hclosed, keptIn]
    by_cases hsame : index = first
    · subst hsame
      simp [hs, hlate]
    · have hother : (index == first) = false := beq_false_of_ne hsame
      rw [hother]
      rfl
  · have honward := onward_forceLate (fun index _ => index == first) sessions
    have hone : closedBetween sessions (forceLate (fun index _ => index == first) sessions) =
        {first} := by
      ext index
      rw [mem_closedBetween_forceLate, Finset.mem_singleton]
      constructor
      · rintro ⟨_, _, _, hsame⟩
        exact eq_of_beq hsame
      · rintro rfl
        exact ⟨s, hs, hopen, beq_self_eq_true _⟩
    show swept.forced + 1 = (closedBetween sessions swept.sessions).card
    rw [card_closedBetween honward h.onward, hone, Finset.card_singleton, h.forced_eq, Nat.add_comm]

theorem sweepQueue_sweeps (hclosed : ∀ s, s.isClosing = true → fate s = .dropped)
    (queue : List Nat) (sessions : List Session) :
    Sweeps fate queue sessions (sweepQueue fate queue sessions) := by
  induction queue generalizing sessions with
  | nil => exact sweeps_nil
  | cons first rest ih =>
    have hpass := (ih sessions).pass first
    rw [sweepQueue]
    rw [keptIn] at hpass
    cases hs : sessions[first]? with
    | none =>
      rw [hs] at hpass
      exact hpass fun s habsurd => by cases habsurd
    | some s =>
      rw [hs] at hpass
      rw [Option.any_some] at hpass
      cases hfate : fate s with
      | overdue =>
        simp only [Option.map_some, hfate]
        exact (ih _).force hclosed hs hfate
      | dropped | kept =>
        simp only [hfate] at hpass
        simp only [Option.map_some, hfate]
        refine hpass ?_
        rintro _ ⟨⟩
        rw [hfate]
        exact Fate.noConfusion

end Queue

/-! ## Fates -/

/-- The opening handshake takes at least as long as is allowed. -/
def Session.isLateOpening (now timeout : Nat) (s : Session) : Bool :=
  s.stored.isPending && timeout ≤ now - s.created

/-- The closing handshake takes at least as long as is allowed. -/
def Session.isLateClosing (now timeout : Nat) (s : Session) : Bool :=
  s.closeStarted.any fun began => timeout ≤ now - began

section Fates

variable (now timeout : Nat) (s : Session)

theorem Fate.opening_of_isClosing (h : s.isClosing = true) :
    Fate.opening now timeout s = .dropped := by
  simp [Fate.opening, h]

theorem Fate.closing_of_isClosing (h : s.isClosing = true) :
    Fate.closing now timeout s = .dropped := by
  simp [Fate.closing, h]

theorem Fate.ofAge_beq_overdue (began : Nat) :
    (Fate.ofAge now began timeout == .overdue) = decide (timeout ≤ now - began) := by
  unfold Fate.ofAge
  split
  · rename_i hin
    exact (decide_eq_false (Nat.not_le.2 hin)).symm
  · rename_i hlate
    exact (decide_eq_true (Nat.not_lt.1 hlate)).symm

theorem Fate.ofAge_beq_kept (began : Nat) :
    (Fate.ofAge now began timeout == .kept) = !decide (timeout ≤ now - began) := by
  rw [← ofAge_beq_overdue]
  unfold Fate.ofAge
  split <;> rfl

theorem Fate.opening_beq_overdue :
    (Fate.opening now timeout s == .overdue) = (!s.isClosing && s.isLateOpening now timeout) := by
  unfold Fate.opening Session.isLateOpening
  rw [← ofAge_beq_overdue]
  cases s.isClosing <;> cases s.stored.isPending <;> rfl

theorem Fate.opening_beq_kept :
    (Fate.opening now timeout s == .kept) =
      (!s.isClosing && s.stored.isPending && !s.isLateOpening now timeout) := by
  unfold Fate.opening Session.isLateOpening
  cases s.isClosing <;> cases s.stored.isPending <;> simp [ofAge_beq_kept]

theorem Fate.closing_beq_overdue :
    (Fate.closing now timeout s == .overdue) = (!s.isClosing && s.isLateClosing now timeout) := by
  unfold Fate.closing Session.isLateClosing
  cases s.isClosing <;> cases s.closeStarted <;> simp [ofAge_beq_overdue]

theorem Fate.closing_beq_kept :
    (Fate.closing now timeout s == .kept) =
      (!s.isClosing && s.closeStarted.isSome && !s.isLateClosing now timeout) := by
  unfold Fate.closing Session.isLateClosing
  cases s.isClosing <;> cases s.closeStarted <;> simp [ofAge_beq_kept]

end Fates

/-! ## When closing begins -/

namespace Session

variable (s : Session)

@[simp] theorem closeStarted_forceClose (reason : CloseReason) :
    (s.forceClose reason).2.closeStarted = s.closeStarted := rfl

@[simp] theorem closeStarted_waitNext (call : Nat) :
    (s.waitNext call).closeStarted = s.closeStarted := rfl

@[simp] theorem closeStarted_next (call : Nat) : (s.next call).closeStarted = s.closeStarted := by
  unfold next
  split <;> rfl

@[simp] theorem closeStarted_deliver (call : Nat) (notice : Option Notice) :
    (s.deliver call notice).2.closeStarted = s.closeStarted := by
  unfold deliver
  dsimp only
  split <;> rfl

@[simp] theorem closeStarted_onSent (call : Nat) (sent : Sent) :
    (s.onSent call sent).2.closeStarted = s.closeStarted := by
  unfold onSent
  split
  · cases sent <;> rfl
  · rfl

@[simp] theorem closeStarted_onReturned (call : Nat) (sent : Sent) :
    (s.onReturned call sent).2.closeStarted = s.closeStarted := by
  unfold onReturned
  split
  · rfl
  · split
    · split <;> simp
    · simp

@[simp] theorem closeStarted_absorbReturns (seen : List (Event Package)) :
    (s.absorbReturns seen).2.closeStarted = s.closeStarted := by
  induction seen generalizing s with
  | nil => rfl
  | cons event rest ih =>
    cases event with
    | returned sender sent =>
      cases sender with
      | call call => exact (ih _).trans (s.closeStarted_onReturned call sent)
      | reply => exact ih s
    | _ => exact ih s

@[simp] theorem closeStarted_post (call : Nat) (message : Message) :
    (s.post call message).2.closeStarted = s.closeStarted := by
  unfold post
  split <;> simp

@[simp] theorem closeStarted_onClose (call : Nat) (payload : Bytes) :
    (s.onClose call payload).2.closeStarted = s.closeStarted := by
  unfold onClose
  split <;> simp

@[simp] theorem closeStarted_onReceived (call : Nat) (package : Option Package) :
    (s.onReceived call package).2.closeStarted = s.closeStarted := by
  unfold onReceived
  split
  · simp
  · simp
  · simp
  · split <;> simp

@[simp] theorem closeStarted_absorb (seen : List (Event Package)) :
    (s.absorb seen).2.closeStarted = s.closeStarted := by
  induction seen generalizing s with
  | nil => rfl
  | cons event rest ih =>
    cases event with
    | returned sender sent =>
      cases sender with
      | call call => exact (ih _).trans (s.closeStarted_onReturned call sent)
      | reply => exact ih s
    | received call package => exact (ih _).trans (s.closeStarted_onReceived call package)
    | _ => exact ih s

variable {s} {s' : Session} {events : List SessionEvent} {action : Action}

/-- Only a session that is open notes that it begins to close. -/
theorem closeStarted_step (h : s.step action = some (events, s')) :
    s'.closeStarted = s.closeStarted ∨ s.stored = .opened := by
  cases action with
  | closeHandshake call status reason =>
    obtain rfl := congrArg Prod.snd (Option.some.inj h)
    unfold closeHandshake
    split
    · exact .inl rfl
    · rename_i hopened
      right
      by_contra hother
      exact hopened (by simp [hother])
  | send call message =>
    left
    obtain rfl := congrArg Prod.snd (Option.some.inj h)
    unfold Session.send
    split
    · exact s.closeStarted_post call message
    all_goals rfl
  | sendRaw call bytes =>
    left
    obtain rfl := congrArg Prod.snd (Option.some.inj h)
    exact closeStarted_absorbReturns _ _
  | start =>
    left
    obtain rfl := congrArg Prod.snd (Option.some.inj h)
    show s.start.2.closeStarted = s.closeStarted
    unfold start
    split <;> rfl
  | next call =>
    left
    rw [step] at h
    split at h
    · obtain rfl := congrArg Prod.snd (Option.some.inj h)
      exact s.closeStarted_next call
    · cases h
  | channel action =>
    left
    rw [step] at h
    split at h
    · obtain ⟨⟨seen, channel⟩, _, hsame⟩ := Option.map_eq_some_iff.1 h
      obtain rfl := congrArg Prod.snd hsame
      exact closeStarted_absorb _ seen
    · cases h
  | forceClose _ | close _ _ | waitClosed _ | track =>
    left
    obtain rfl := congrArg Prod.snd (Option.some.inj h)
    rfl

end Session

/-! ## Both queues -/

section Both

variable (now openTimeout closeTimeout : Nat) (opening closing : List Nat)

/-- Whether a session that is not closing is in a queue in which it is late. -/
def isOverdue (index : Nat) (s : Session) : Bool :=
  !s.isClosing && (opening.contains index && s.isLateOpening now openTimeout ||
    closing.contains index && s.isLateClosing now closeTimeout)

variable (sessions : List Session)

theorem lateIn_closing (index : Nat) {s : Session} (h : s.isClosing = true) :
    lateIn (Fate.closing now closeTimeout) closing index s = false := by
  simp [lateIn, Fate.closing_of_isClosing now closeTimeout s h]

/-- The second queue finds the sessions closing that were overdue in the first. -/
theorem sweepQueues_sessions :
    (sweepQueues now openTimeout closeTimeout opening closing sessions).sessions =
      forceLate (isOverdue now openTimeout closeTimeout opening closing) sessions := by
  have hopens := sweepQueue_sweeps (Fate.opening_of_isClosing now openTimeout) opening sessions
  have hcloses := sweepQueue_sweeps (Fate.closing_of_isClosing now closeTimeout) closing
    (sweepQueue (Fate.opening now openTimeout) opening sessions).sessions
  refine hcloses.sessions_eq.trans ?_
  rw [hopens.sessions_eq, forceLate_forceLate fun index s => lateIn_closing now _ closing index]
  apply forceLate_congr
  intro index s _
  rw [lateIn, lateIn, Fate.opening_beq_overdue, Fate.closing_beq_overdue, isOverdue]
  cases s.isClosing <;> simp

end Both

/-! ## Sessions as they come about -/

/-- A session that came about by calls and sweeps, on a channel as it is made. -/
def Session.IsLived (s : Session) : Prop :=
  ∃ (pipeline options : WebSocketOptions) (connection : ConnectionOptions)
    (remote : Option Socket) (channel : Channel Decoder Package) (events : List SessionEvent),
    Channel.assemble (Decoder.of pipeline) connection remote = .ok channel ∧
      Lives (Session.of channel options) events s

section Lived

variable {pipeline options : WebSocketOptions} {connection : ConnectionOptions}
  {remote : Option Socket} {channel : Channel Decoder Package} {s s' : Session}
  {events : List SessionEvent} {before after : SessionState}

/-- An upgrade that is over is so for good. -/
theorem isPending_of_edges (h : ReflTransGen Edge before after) (hover : before.isPending = false) :
    after.isPending = false := by
  induction h with
  | refl => exact hover
  | tail _ hedge ih =>
    cases hedge with
    | starts => cases ih
    | _ => rfl

/-- A sweep closes a session, or leaves it as it is. -/
theorem sweep_cases {monitor : Monitor} {now : Nat} {sessions : List Session} {index : Nat}
    (hbefore : sessions[index]? = some s)
    (hafter : (monitor.sweep now sessions).2.2[index]? = some s') :
    s' = s ∨ s' = (s.forceClose .timeout).2 := by
  rw [Monitor.sweep, sweepQueues_sessions, getElem?_forceLate, hbefore, Option.map_some] at hafter
  obtain rfl := Option.some.inj hafter
  split
  · exact .inr rfl
  · exact .inl rfl

/-- No session begins to close during its upgrade. -/
theorem isPending_of_lives
    (hassemble : Channel.assemble (Decoder.of pipeline) connection remote = .ok channel)
    (h : Lives (Session.of channel options) events s) (hbegun : s.closeStarted ≠ none) :
    s.stored.isPending = false := by
  induction h with
  | refl => exact absurd rfl hbegun
  | @acts middle after _ _ action hlives hstep ih =>
    have hsane : (Session.of channel options).core.Sane := Session.sane_of_assemble hassemble
    obtain ⟨moves, seen, hpast, -⟩ := hlives.turns hsane
    have hreaches : Reaches (fun _ => True) _ _ :=
      Session.step_reaches (hpast.sane hsane) trivial hstep
    obtain ⟨others, hlater⟩ := hreaches
    have hedges : ReflTransGen Edge middle.stored after.stored := hpast.edges hassemble hlater
    apply isPending_of_edges hedges
    rcases Session.closeStarted_step hstep with hsame | hopened
    · exact ih (by rwa [← hsame])
    · rw [hopened]
      rfl
  | swept _ hbefore hafter ih =>
    rcases sweep_cases hbefore hafter with rfl | rfl
    · exact ih hbegun
    · exact ih hbegun

theorem Session.IsLived.isPending (h : s.IsLived) (hbegun : s.closeStarted ≠ none) :
    s.stored.isPending = false := by
  obtain ⟨pipeline, options, connection, remote, channel, events, hassemble, hlives⟩ := h
  exact isPending_of_lives hassemble hlives hbegun

/-- As long as it is not closing, a session closes for no reason yet. -/
theorem Session.IsLived.fresh (h : s.IsLived) (hopen : s.isClosing = false) :
    s.channel.closing = {} := by
  obtain ⟨pipeline, options, connection, remote, channel, events, hassemble, hlives⟩ := h
  obtain ⟨moves, seen, hturns, -⟩ := hlives.turns (Session.sane_of_assemble hassemble)
  exact (Channel.fresh_of_moves hassemble hturns.channel hopen).1

end Lived

/-! ## The result -/

/-- Whatever is in the queues, a sweep closes the sessions that are overdue, and changes no other.
Its number is that of the sessions which it made close.  Behind it a queue has, in order, the
entries that need watching and are in time.  If the sessions came about as sessions do, nobody who
waits for an upgrade is late with closing, and those that are closed are so for being late. -/
theorem sweeps_overdue (now openTimeout closeTimeout : Nat) (opening closing : List Nat)
    (sessions : List Session) :
    let swept := sweepQueues now openTimeout closeTimeout opening closing sessions
    let overdue := isOverdue now openTimeout closeTimeout opening closing
    swept.sessions = forceLate overdue sessions ∧
      swept.forced = (closedBetween sessions swept.sessions).card ∧
      (swept.opening = opening.filter fun index => (sessions[index]?).any fun s =>
        !s.isClosing && s.stored.isPending && !s.isLateOpening now openTimeout) ∧
      (swept.closing = closing.filter fun index => (sessions[index]?).any fun s =>
        !s.isClosing && s.closeStarted.isSome && !overdue index s) ∧
      ((∀ s ∈ sessions, s.IsLived) →
        (swept.opening = opening.filter fun index => (sessions[index]?).any fun s =>
          !s.isClosing && s.stored.isPending && !overdue index s) ∧
        ∀ s ∈ sessions, ∀ index, overdue index s = true →
          (s.forceClose .timeout).2.channel.closing.IsFor .timeout) := by
  intro swept overdue
  have hclosing : ∀ s, s.isClosing = true → Fate.closing now closeTimeout s = .dropped :=
    Fate.closing_of_isClosing now closeTimeout
  have hopens := sweepQueue_sweeps (Fate.opening_of_isClosing now openTimeout) opening sessions
  have hcloses := sweepQueue_sweeps hclosing closing
    (sweepQueue (Fate.opening now openTimeout) opening sessions).sessions
  have hopened : swept.opening = opening.filter fun index => (sessions[index]?).any fun s =>
      !s.isClosing && s.stored.isPending && !s.isLateOpening now openTimeout := by
    refine hopens.queue_eq.trans (List.filter_congr fun index _ => ?_)
    simp only [keptIn, Fate.opening_beq_kept]
  refine ⟨sweepQueues_sessions .., ?_, hopened, ?_, fun hlived => ⟨?_, ?_⟩⟩
  · show _ + _ = _
    rw [hopens.forced_eq, hcloses.forced_eq]
    exact (card_closedBetween hopens.onward hcloses.onward).symm
  · refine hcloses.queue_eq.trans (List.filter_congr fun index hmem => ?_)
    rw [hopens.sessions_eq, keptIn_forceLate hclosing]
    congr 1
    funext s
    simp only [overdue]
    rw [lateIn, Fate.opening_beq_overdue, Fate.closing_beq_kept, isOverdue,
      List.contains_iff_mem.2 hmem]
    cases s.isClosing <;> cases s.closeStarted.isSome <;> simp
  · refine hopened.trans (List.filter_congr fun index hmem => ?_)
    cases hs : sessions[index]? with
    | none => rfl
    | some s =>
      have hbegun := (hlived s (List.mem_of_getElem? hs)).isPending
      show (_ && _ && _) = (_ && _ && !isOverdue _ _ _ _ _ _ _)
      rw [isOverdue, List.contains_iff_mem.2 hmem]
      cases hstarted : s.closeStarted with
      | none =>
        rw [Session.isLateClosing, hstarted]
        cases s.isClosing <;> simp
      | some began =>
        have hover : s.stored.isPending = false := hbegun (by simp [hstarted])
        rw [hover]
        simp
  · intro s hmem index hlate
    have hopen : s.isClosing = false := by
      simp only [overdue, isOverdue, Bool.and_eq_true, Bool.not_eq_true'] at hlate
      exact hlate.1
    exact (Channel.abort_closes s.channel .timeout).isFor_of_fresh ((hlived s hmem).fresh hopen)

/-- Of a session that waits for its upgrade and one that is closing, both in both queues and the
first of them twice in a row, only the other one is closed, and it counts once. -/
theorem sweeps_overdue_twice :
    ∃ s : Session, s.IsLived ∧
      let swept := sweepQueues 1000000 2000000 10000 [0, 0, 1] [1, 1, 0] [freshSession, s]
      swept.forced = 1 ∧ swept.opening = [0, 0] ∧ swept.closing = [] ∧
        (closedBetween [freshSession, s] swept.sessions).card = 1 ∧
        (s.forceClose .timeout).2.channel.closing.IsFor .timeout := by
  let after (s : Session) :=
    sweepQueues 1000000 2000000 10000 [0, 0, 1] [1, 1, 0] [freshSession, s]
  have hrun : ((freshSession.steps (upgrading ++ [.closeHandshake 1 1000 ""])).map fun reached =>
        (isOverdue 1000000 2000000 10000 [0, 0, 1] [1, 1, 0] 1 reached.2,
          (after reached.2).forced, (after reached.2).opening, (after reached.2).closing)) =
      some (true, 1, [0, 0], []) := by
    decide +kernel
  obtain ⟨⟨events, s⟩, hsteps, hsame⟩ := Option.map_eq_some_iff.1 hrun
  simp only [Prod.mk.injEq] at hsame
  obtain ⟨hoverdue, hforced, hopening, hclosing⟩ := hsame
  have hassemble : Channel.assemble (Decoder.of {}) {} none = .ok freshSession.channel := rfl
  have hfresh : freshSession.IsLived := ⟨{}, {}, {}, none, _, [], hassemble, .refl _⟩
  have hlived : s.IsLived :=
    ⟨{}, {}, {}, none, _, _, hassemble, (Lives.refl freshSession).steps hsteps⟩
  obtain ⟨_, hcount, _, _, hreasons⟩ :=
    sweeps_overdue 1000000 2000000 10000 [0, 0, 1] [1, 1, 0] [freshSession, s]
  obtain ⟨_, hreason⟩ := hreasons (by simp [hfresh, hlived])
  refine ⟨s, hlived, hforced, hopening, hclosing, hcount.symm.trans hforced, ?_⟩
  exact hreason s (by simp) 1 hoverdue

end FramedChannel.WebSocket
