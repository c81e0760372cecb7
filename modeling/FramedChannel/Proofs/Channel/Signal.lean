import FramedChannel.Package.FixedSize
import FramedChannel.Proofs.Channel.History

/-!
# The close signal

A channel closes once and for one reason, whoever closes it and in whatever
order.

* `closedOf`, `noticedOf` and `abortsOf` read the events that belong to closing.
* `Channel.reasons` are the reasons that the moves of a channel offer until the
  signal fires.
* `Closes` lists all that a move can do to the closing of a channel, and
  `move_closes` says that the list is complete.
* `Signalled` is the invariant: the reason that is recorded is the first one
  offered, and the signal has it once it fired.  There is one lemma for each of
  the three steps in which a channel closes.
* `moves_closed` is the result.
-/

namespace FramedChannel

variable {σ π : Type}

/-! ## What can be seen -/

/-- The values with which the close signal fired. -/
def closedOf (events : List (Event π)) : List CloseReason :=
  events.filterMap fun
    | .closed reason => some reason
    | _ => none

/-- The calls that saw the close signal, and what they saw. -/
def noticedOf (events : List (Event π)) : List (Nat × CloseReason) :=
  events.filterMap fun
    | .noticed call reason => some (call, reason)
    | _ => none

/-- The attempts to close with their reasons, and whether they were told to be the first. -/
def abortsOf (events : List (Event π)) : List (CloseReason × Bool) :=
  events.filterMap fun
    | .aborted reason first => some (reason, first)
    | _ => none

section Append

variable (events more : List (Event π))

@[simp] theorem closedOf_append : closedOf (events ++ more) = closedOf events ++ closedOf more :=
  List.filterMap_append ..

@[simp] theorem noticedOf_append :
    noticedOf (events ++ more) = noticedOf events ++ noticedOf more :=
  List.filterMap_append ..

@[simp] theorem abortsOf_append : abortsOf (events ++ more) = abortsOf events ++ abortsOf more :=
  List.filterMap_append ..

end Append

/-- The attempts to close that were told to be the first. -/
def firstAborts (events : List (Event π)) : List CloseReason :=
  ((abortsOf events).filter Prod.snd).map Prod.fst

@[simp] theorem firstAborts_append (events more : List (Event π)) :
    firstAborts (events ++ more) = firstAborts events ++ firstAborts more := by
  simp [firstAborts]

/-- Nothing of closing can be seen, but for calls that see the signal as it is. -/
structure Uneventful (closing : Closing) (events : List (Event π)) : Prop where
  closed : closedOf events = []
  aborts : firstAborts events = []
  noticed : ∀ notice ∈ noticedOf events, closing.signal = some notice.2

namespace Closing

/-- Nobody has begun to close. -/
def isFresh (closing : Closing) : Bool :=
  closing.recorded.isNone && !closing.cancelled

/-- What can be seen of the signal when it is to fire. -/
def firing (closing : Closing) : List (Event π) :=
  match closing.signal with
  | none => [.closed (closing.recorded.getD .unknown)]
  | some _ => []

/-- The reason that is offered, unless the signal fired and it is too late. -/
def counts (closing : Closing) (offered : Option CloseReason) : List CloseReason :=
  if closing.signal.isNone then offered.toList else []

/-- A reason is recorded, if one is offered, and the channel is cancelled. -/
def offer (closing : Closing) (offered : Option CloseReason) : Closing :=
  (offered.elim closing closing.record).cancel

@[simp] theorem signal_offer (closing : Closing) (offered : Option CloseReason) :
    (closing.offer offered).signal = closing.signal := by
  cases offered <;> rfl

@[simp] theorem changes_offer (closing : Closing) (offered : Option CloseReason) :
    (closing.offer offered).changes = closing.changes := by
  cases offered <;> rfl

@[simp] theorem recorded_offer (closing : Closing) (offered : Option CloseReason) :
    (closing.offer offered).recorded = closing.recorded.or offered := by
  cases offered <;> cases h : closing.recorded <;> simp [offer, record, cancel, h]

@[simp] theorem cancelled_offer (closing : Closing) (offered : Option CloseReason) :
    (closing.offer offered).cancelled = true := rfl

@[simp] theorem cancelled_finish (closing : Closing) :
    closing.finish.cancelled = closing.cancelled := by
  unfold finish
  split <;> rfl

end Closing

namespace Channel

variable {c after : Channel σ π} {events : List (Event π)}

theorem finish_eq (c : Channel σ π) :
    c.finish = (c.closing.firing, { c with closing := c.closing.finish }) := by
  unfold finish Closing.firing
  cases h : c.closing.signal <;> simp [h]

/-! ## All that a move can do -/

/-- The reason for closing that a move comes with.  It is recorded unless there is one already. -/
def offers (c : Channel σ π) : Move → Option CloseReason
  | .act (.abort reason) | .act (.close _ reason) => some reason
  | .act (.drain (.fail fault)) =>
    match c.drain with
    | .writing .. => some fault.closeReason
    | _ => none
  | .act .supervise =>
    match c.supervisor, c.fill with
    | .watchingFill, .ended reason => reason
    | _, _ => none
  | _ => none

/-- The reasons that some moves come with, up to the one with which the signal fires. -/
def reasons [PackageDecoder σ π] (c : Channel σ π) : List Move → List CloseReason
  | [] => []
  | move :: rest =>
    match c.move move with
    | none => []
    | some (_, after) =>
      c.closing.counts (c.offers move) ++ after.reasons rest

/-- What a move does to the closing of a channel, with the reason that it offers. -/
inductive Closes (c after : Channel σ π) : Option CloseReason → List (Event π) → Prop where
  | keeps {events : List (Event π)} (hevents : Uneventful c.closing events)
      (hclosing : after.closing = c.closing) (hsupervisor : after.supervisor = c.supervisor) :
      Closes c after none events
  | aborts (reason : CloseReason) (hclosing : after.closing = c.closing.offer (some reason)) :
      Closes c after (some reason) [.aborted reason c.closing.isFresh]
  /-- The channel was never started, and is closed at once. -/
  | drops (reason : CloseReason)
      (hclosing : after.closing = (c.closing.offer (some reason)).finish)
      (hstage : after.stage = .dropped) :
      Closes c after (some reason)
        (.aborted reason c.closing.isFresh :: (c.closing.offer (some reason)).firing)
  /-- A loop ended.  Only a fill loop that was stopped offers no reason. -/
  | ends (offered : Option CloseReason) (hclosing : after.closing = c.closing.offer offered)
      (hstopped : offered = none → c.fill = .ended none) : Closes c after offered []
  | finishes (hclosing : after.closing = c.closing.finish)
      (hsupervisor : c.supervisor = .watchingDrain) (hdrain : c.drain = .ended)
      (hdrain' : after.drain = .ended) : Closes c after none c.closing.firing

/-- Neither the events nor the channel behind them show anything of closing. -/
theorem Closes.of_same (hevents : closedOf events = [] ∧ abortsOf events = [] ∧
    noticedOf events = []) (hclosing : after.closing = c.closing)
    (hsupervisor : after.supervisor = c.supervisor) : Closes c after none events := by
  refine .keeps ⟨hevents.1, ?_, ?_⟩ hclosing hsupervisor
  · rw [firstAborts, hevents.2.1]
    rfl
  · rw [hevents.2.2]
    intro notice hmem
    cases hmem

theorem abort_closes (c : Channel σ π) (reason : CloseReason) :
    Closes c (c.abort reason).2 (some reason) (c.abort reason).1 := by
  unfold abort
  dsimp only
  split
  · rw [finish_eq]
    exact .drops reason rfl rfl
  · exact .aborts reason rfl

/-- A call that waits for the signal makes no difference. -/
theorem Closes.waitClosed {offered : Option CloseReason} (h : Closes c after offered events)
    (call : Nat) : Closes c (after.waitClosed call) offered events := by
  cases h with
  | keeps hevents hclosing hsupervisor => exact .keeps hevents hclosing hsupervisor
  | aborts reason hclosing => exact .aborts reason hclosing
  | drops reason hclosing hstage => exact .drops reason hclosing hstage
  | ends offered hclosing hstopped => exact .ends offered hclosing hstopped
  | finishes hclosing hsupervisor hdrain hdrain' =>
    exact .finishes hclosing hsupervisor hdrain hdrain'

theorem run_closes (c : Channel σ π) :
    c.run.2.closing = c.closing ∧ c.run.2.supervisor = c.supervisor := by
  have hstart : c.start.2.closing = c.closing ∧ c.start.2.supervisor = c.supervisor := by
    unfold start
    split <;> exact ⟨rfl, rfl⟩
  unfold run
  split
  · split <;> rename_i hstarted <;> rw [hstarted] at hstart <;> exact hstart
  · exact ⟨rfl, rfl⟩

theorem stepSend_closes (h : c.stepSend = some (events, after)) : Closes c after none events := by
  unfold stepSend at h
  split at h
  · cases h
  · rename_i sender progress hproceed
    have hqueued : ∀ sent : List (Event π), sent = [] ∨ (∃ s, sent = [.returned sender s]) →
        closedOf ((progress.queued.map (.queued sender)).toList ++ sent) = [] ∧
          abortsOf ((progress.queued.map (.queued sender)).toList ++ sent) = [] ∧
          noticedOf ((progress.queued.map (.queued sender)).toList ++ sent) = [] := by
      rintro sent (rfl | ⟨s, rfl⟩) <;> cases progress.queued <;> exact ⟨rfl, rfl, rfl⟩
    dsimp only at h
    split at h
    · cases h
      have hsame := hqueued [] (.inl rfl)
      rw [List.append_nil] at hsame
      exact .of_same hsame rfl rfl
    · cases h
      refine .of_same (hqueued _ (.inr ⟨_, rfl⟩)) ?_ ?_
      all_goals
        split
        · unfold replied
          split <;> rfl
        · rfl

theorem stepFill_closes [PackageDecoder σ π] {action : FillAction}
    (h : c.stepFill action = some (events, after)) : Closes c after none events := by
  unfold stepFill at h
  repeat' split at h
  all_goals cases h
  all_goals exact .of_same ⟨rfl, rfl, rfl⟩ rfl rfl

theorem stepDrain_closes {action : DrainAction} (h : c.stepDrain action = some (events, after)) :
    Closes c after (c.offers (.act (.drain action))) events := by
  cases action with
  | fail fault =>
    simp only [stepDrain] at h
    split at h
    · rename_i batch taken hdrain
      cases h
      simp only [offers, hdrain]
      exact .ends _ rfl fun habsurd => absurd habsurd (Option.some_ne_none _)
    · rename_i batch taken deadline hdrain
      cases h
      simp only [offers, hdrain]
      exact .of_same ⟨rfl, rfl, rfl⟩ rfl rfl
    · rename_i deadline hdrain
      cases h
      simp only [offers, hdrain]
      exact .of_same ⟨rfl, rfl, rfl⟩ rfl rfl
    · cases h
  | take =>
    simp only [stepDrain] at h
    split at h
    · split at h
      · cases h
      · cases h
        refine .of_same ⟨rfl, rfl, rfl⟩ ?_ ?_ <;> (unfold beginBatch; split <;> rfl)
    · cases h
  | _ =>
    simp only [stepDrain] at h
    repeat' split at h
    all_goals cases h
    all_goals exact .of_same ⟨rfl, rfl, rfl⟩ rfl rfl

theorem stepSupervisor_closes (h : c.stepSupervisor = some (events, after)) :
    Closes c after (c.offers (.act .supervise)) events := by
  unfold stepSupervisor at h
  split at h
  · rename_i reason hsupervisor hfill
    cases h
    simp only [offers, hsupervisor, hfill]
    refine .ends reason rfl ?_
    rintro rfl
    exact hfill
  · rename_i hsupervisor hdrain
    rw [finish_eq] at h
    cases h
    simp only [offers, hsupervisor]
    exact .finishes rfl hsupervisor hdrain hdrain
  · cases h

theorem stepReader_closes (h : c.stepReader = some (events, after)) :
    Closes c after none events := by
  unfold stepReader at h
  repeat' split at h
  all_goals cases h
  all_goals exact .of_same ⟨rfl, rfl, rfl⟩ rfl rfl

theorem stepCloser_closes {call : Nat} (h : c.stepCloser call = some (events, after)) :
    Closes c after none events := by
  unfold stepCloser at h
  split at h
  · rename_i reason hsignal
    split at h
    · cases h
      refine .keeps ⟨rfl, rfl, ?_⟩ rfl rfl
      intro notice hmem
      obtain rfl := List.mem_singleton.1 hmem
      exact hsignal
    · cases h
  · cases h

/-- Every move does one of these things to the closing of a channel. -/
theorem move_closes [PackageDecoder σ π] {move : Move} (h : c.move move = some (events, after)) :
    Closes c after (c.offers move) events := by
  cases move with
  | giveUp call =>
    cases h
    exact .of_same ⟨rfl, rfl, rfl⟩ rfl rfl
  | act action =>
    change c.step action = some (events, after) at h
    cases action with
    | abort reason =>
      have habort := abort_closes c reason
      rw [show c.abort reason = (events, after) from Option.some.inj h] at habort
      exact habort
    | close call reason =>
      have habort := (abort_closes c reason).waitClosed call
      simp only [step, close, Option.some.injEq, Prod.mk.injEq] at h
      obtain ⟨rfl, rfl⟩ := h
      exact habort
    | start =>
      simp only [step, start] at h
      split at h <;> cases h <;> exact .of_same ⟨rfl, rfl, rfl⟩ rfl rfl
    | run =>
      obtain ⟨hclosing, hsupervisor⟩ := run_closes c
      simp only [step, Option.some.injEq, Prod.mk.injEq] at h
      obtain ⟨rfl, rfl⟩ := h
      exact .of_same ⟨rfl, rfl, rfl⟩ hclosing hsupervisor
    | send send =>
      simp only [step, Channel.send, Option.some.injEq] at h
      split at h <;> cases h <;> exact .of_same ⟨rfl, rfl, rfl⟩ rfl rfl
    | collect | release | next _ =>
      simp only [step, collect] at h
      repeat' split at h
      all_goals cases h
      all_goals exact .of_same ⟨rfl, rfl, rfl⟩ rfl rfl
    | waitClosed _ | tick _ =>
      cases h
      exact .of_same ⟨rfl, rfl, rfl⟩ rfl rfl
    | proceed => exact stepSend_closes h
    | receive => exact stepReader_closes h
    | notice call => exact stepCloser_closes h
    | fill action =>
      simp only [step] at h
      split at h
      · exact stepFill_closes h
      · cases h
    | drain action =>
      simp only [step] at h
      split at h
      · exact stepDrain_closes h
      · cases h
    | supervise =>
      simp only [step] at h
      split at h
      · exact stepSupervisor_closes h
      · cases h

end Channel

/-! ## The invariant -/

/-- How far closing is behind some events, in which the given reasons were offered. -/
structure Signalled (closing : Closing) (reasons : List CloseReason) (events : List (Event π)) :
    Prop where
  /-- The first reason counts. -/
  recorded : closing.signal = none → closing.recorded = reasons.head?
  value : ∀ value, closing.signal = some value → value = reasons.head?.getD .unknown
  closed : closedOf events = closing.signal.toList
  changes : closing.changes = closing.signal.toList.length
  noticed : ∀ notice ∈ noticedOf events, closing.signal = some notice.2
  /-- Until the channel is cancelled nothing was recorded, fired or told to be the first. -/
  fresh : closing.cancelled = false →
    closing.recorded = none ∧ closing.signal = none ∧ firstAborts events = []
  first : firstAborts events = [] ∨ ∃ reason, firstAborts events = [reason] ∧
    reasons.head? = some reason

namespace Signalled

variable {closing : Closing} {reasons : List CloseReason} {events more : List (Event π)}

theorem keep (h : Signalled closing reasons events) (hmore : Uneventful closing more) :
    Signalled closing reasons (events ++ more) := by
  have hfirst : firstAborts (events ++ more) = firstAborts events := by
    rw [firstAborts_append, hmore.aborts, List.append_nil]
  refine ⟨h.recorded, h.value, ?_, h.changes, ?_, ?_, ?_⟩
  · rw [closedOf_append, hmore.closed, List.append_nil, h.closed]
  · intro notice hmem
    rw [noticedOf_append] at hmem
    rcases List.mem_append.1 hmem with hold | hnew
    · exact h.noticed notice hold
    · exact hmore.noticed notice hnew
  · rw [hfirst]
    exact h.fresh
  · rw [hfirst]
    exact h.first

theorem offer (h : Signalled closing reasons events) (offered : Option CloseReason) :
    Signalled (closing.offer offered) (reasons ++ closing.counts offered) events := by
  refine ⟨?_, ?_, ?_, ?_, ?_, ?_, ?_⟩
  · intro hsignal
    rw [Closing.signal_offer] at hsignal
    rw [Closing.recorded_offer, h.recorded hsignal, Closing.counts, hsignal, List.head?_append]
    cases offered <;> rfl
  · intro value hsignal
    rw [Closing.signal_offer] at hsignal
    rw [Closing.counts, hsignal]
    simpa using h.value value hsignal
  · rw [Closing.signal_offer]
    exact h.closed
  · rw [Closing.signal_offer, Closing.changes_offer]
    exact h.changes
  · rw [Closing.signal_offer]
    exact h.noticed
  · intro hopen
    rw [Closing.cancelled_offer] at hopen
    cases hopen
  · obtain hnone | ⟨reason, hone, hhead⟩ := h.first
    · exact .inl hnone
    · refine .inr ⟨reason, hone, ?_⟩
      rw [List.head?_append, hhead]
      rfl

/-- An attempt to close is told to be the first only if nothing was offered before. -/
theorem abort (h : Signalled closing reasons events) (reason : CloseReason) :
    Signalled (closing.offer (some reason)) (reasons ++ closing.counts (some reason))
      (events ++ [.aborted reason closing.isFresh]) := by
  have hoffer := h.offer (some reason)
  cases hfresh : closing.isFresh with
  | false => exact hoffer.keep ⟨rfl, rfl, fun _ hmem => by cases hmem⟩
  | true =>
    simp only [Closing.isFresh, Bool.and_eq_true, Option.isNone_iff_eq_none,
      Bool.not_eq_true'] at hfresh
    obtain ⟨hrecorded, hopen⟩ := hfresh
    obtain ⟨_, hsignal, hnone⟩ := h.fresh hopen
    have hreasons : reasons.head? = none := by rw [← h.recorded hsignal, hrecorded]
    refine ⟨hoffer.recorded, hoffer.value, ?_, hoffer.changes, ?_, ?_, .inr ⟨reason, ?_, ?_⟩⟩
    · rw [closedOf_append, hoffer.closed]
      exact List.append_nil _
    · intro notice hmem
      rw [noticedOf_append] at hmem
      rcases List.mem_append.1 hmem with hold | hnew
      · exact hoffer.noticed notice hold
      · cases hnew
    · intro hopen'
      rw [Closing.cancelled_offer] at hopen'
      cases hopen'
    · rw [firstAborts_append, hnone]
      rfl
    · rw [List.head?_append, hreasons, Closing.counts, hsignal]
      rfl

/-- The signal fires with the first reason that was offered. -/
theorem finish (h : Signalled closing reasons events) (hcancelled : closing.cancelled = true) :
    Signalled closing.finish reasons (events ++ closing.firing) := by
  cases hsignal : closing.signal with
  | some value =>
    rw [Closing.finish_of_signal hsignal]
    refine h.keep ⟨?_, ?_, ?_⟩ <;> simp [Closing.firing, hsignal, closedOf, firstAborts, abortsOf,
      noticedOf]
  | none =>
    have hfinish : closing.finish = { closing with
        signal := some (closing.recorded.getD .unknown), changes := closing.changes + 1 } := by
      simp [Closing.finish, hsignal]
    have hfiring : closing.firing (π := π) = [.closed (closing.recorded.getD .unknown)] := by
      simp [Closing.firing, hsignal]
    have hfirst : firstAborts (events ++ closing.firing) = firstAborts events := by
      rw [firstAborts_append, hfiring]
      exact List.append_nil _
    rw [hfinish]
    refine ⟨?_, ?_, ?_, ?_, ?_, ?_, ?_⟩
    · intro hnone
      cases hnone
    · intro value hvalue
      cases hvalue
      rw [h.recorded hsignal]
    · rw [closedOf_append, h.closed, hsignal, hfiring]
      rfl
    · show closing.changes + 1 = 1
      rw [h.changes, hsignal]
      rfl
    · -- Nobody can have seen the signal before it fired.
      intro notice hmem
      rw [noticedOf_append, hfiring] at hmem
      rcases List.mem_append.1 hmem with hold | hnew
      · have hseen := h.noticed notice hold
        rw [hsignal] at hseen
        cases hseen
      · cases hnew
    · intro hopen
      change closing.cancelled = false at hopen
      rw [hcancelled] at hopen
      cases hopen
    · rw [hfirst]
      exact h.first

end Signalled

/-! ## Moves -/

namespace Channel

variable {c after : Channel σ π} {events more : List (Event π)} {moves : List Move}
  {reasons : List CloseReason} {offered : Option CloseReason}

/-- The invariant of a channel.  The supervisor only waits for the drain loop once the channel is
cancelled. -/
structure ClosesOnce (c : Channel σ π) (reasons : List CloseReason) (events : List (Event π)) :
    Prop where
  signalled : Signalled c.closing reasons events
  supervised : c.closing.cancelled = false → c.supervisor = .watchingFill

theorem ClosesOnce.closes (h : ClosesOnce c reasons events)
    (hcloses : Closes c after offered more) :
    ClosesOnce after (reasons ++ c.closing.counts offered) (events ++ more) := by
  have hnothing : reasons ++ c.closing.counts none = reasons := by simp [Closing.counts]
  cases hcloses with
  | keeps hevents hclosing hsupervisor =>
    refine ⟨?_, ?_⟩
    · rw [hclosing, hnothing]
      exact h.signalled.keep hevents
    · rw [hclosing, hsupervisor]
      exact h.supervised
  | aborts reason hclosing =>
    refine ⟨?_, ?_⟩
    · rw [hclosing]
      exact h.signalled.abort reason
    · simp [hclosing]
  | drops reason hclosing _ =>
    refine ⟨?_, ?_⟩
    · have hfinish := (h.signalled.abort reason).finish (Closing.cancelled_offer ..)
      rw [List.append_assoc, List.singleton_append] at hfinish
      rw [hclosing]
      exact hfinish
    · simp [hclosing]
  | ends offered hclosing _ =>
    refine ⟨?_, ?_⟩
    · rw [hclosing, List.append_nil]
      exact h.signalled.offer offered
    · simp [hclosing]
  | finishes hclosing hsupervisor _ _ =>
    have hcancelled : c.closing.cancelled = true := by
      by_contra hopen
      have hfill := h.supervised (by simpa using hopen)
      rw [hsupervisor] at hfill
      cases hfill
    refine ⟨?_, ?_⟩
    · rw [hclosing, hnothing]
      exact h.signalled.finish hcancelled
    · rw [hclosing, Closing.cancelled_finish, hcancelled]
      intro hopen
      cases hopen

/-- A channel that is closing stays so, and a signal that fired keeps its value and does not fire
again. -/
theorem Closes.onward (h : Closes c after offered more) :
    (c.isClosing → after.isClosing) ∧
      ∀ value, c.closing.signal = some value →
        after.closing.signal = some value ∧ closedOf more = [] := by
  unfold isClosing
  cases h with
  | keeps hevents hclosing _ =>
    rw [hclosing]
    exact ⟨id, fun value hsignal => ⟨hsignal, hevents.closed⟩⟩
  | aborts reason hclosing =>
    rw [hclosing, Closing.signal_offer]
    exact ⟨fun _ => rfl, fun value hsignal => ⟨hsignal, rfl⟩⟩
  | drops reason hclosing _ =>
    rw [hclosing]
    refine ⟨fun _ => by simp, fun value hsignal => ?_⟩
    simp [Closing.firing, hsignal, closedOf]
  | ends offered hclosing _ =>
    rw [hclosing, Closing.signal_offer]
    exact ⟨fun _ => rfl, fun value hsignal => ⟨hsignal, rfl⟩⟩
  | finishes hclosing _ _ _ =>
    rw [hclosing, Closing.cancelled_finish]
    refine ⟨id, fun value hsignal => ?_⟩
    simp [Closing.firing, hsignal, closedOf]

/-- The signal only fires on a channel that was never started, or behind the drain loop. -/
theorem Closes.signal (h : Closes c after offered more) :
    after.closing.signal = c.closing.signal ∨ after.stage = .dropped ∨ after.drain = .ended := by
  cases h with
  | keeps _ hclosing _ => exact .inl (by rw [hclosing])
  | aborts reason hclosing => exact .inl (by rw [hclosing, Closing.signal_offer])
  | drops reason _ hstage => exact .inr (.inl hstage)
  | ends offered hclosing _ => exact .inl (by rw [hclosing, Closing.signal_offer])
  | finishes _ _ _ hdrain => exact .inr (.inr hdrain)

variable [PackageDecoder σ π]

theorem reasons_concat {move : Move} {middle : Channel σ π}
    (h : c.moves moves = some (events, middle)) (hmove : middle.move move = some (more, after)) :
    c.reasons (moves ++ [move]) =
      c.reasons moves ++ middle.closing.counts (middle.offers move) := by
  induction moves generalizing c events with
  | nil =>
    cases h
    simp [reasons, hmove]
  | cons first rest ih =>
    simp only [Channel.moves, Option.bind_eq_bind, Option.bind_eq_some_iff] at h
    obtain ⟨⟨begun, reached⟩, hfirst, ⟨others, last⟩, hrest, hsame⟩ := h
    cases hsame
    simp only [List.cons_append, reasons, hfirst, ih hrest, List.append_assoc]

/-- A channel that was just assembled has not begun to close. -/
theorem closesOnce_of_assemble {decoder : σ} {options : ConnectionOptions} {remote : Option Socket}
    (h : assemble decoder options remote = .ok c) : ClosesOnce c [] ([] : List (Event π)) := by
  obtain rfl := eq_of_assemble h
  refine ⟨⟨fun _ => rfl, ?_, rfl, rfl, ?_, fun _ => ⟨rfl, rfl, rfl⟩, .inl rfl⟩, fun _ => rfl⟩
  · intro value hsignal
    cases hsignal
  · intro notice hmem
    cases hmem

theorem closesOnce_of_moves {decoder : σ} {options : ConnectionOptions} {remote : Option Socket}
    (hassemble : assemble decoder options remote = .ok c)
    (hmoves : c.moves moves = some (events, after)) :
    ClosesOnce after (c.reasons moves) events := by
  refine moves_induction (P := fun moves events after => ClosesOnce after (c.reasons moves) events)
    (closesOnce_of_assemble hassemble) ?_ hmoves
  intro moves events middle move more after hdone hmiddle hmove
  rw [reasons_concat hdone hmove]
  exact hmiddle.closes (move_closes hmove)

/-- Whatever a channel does from now on, it stays closed for the reason for which it closed. -/
theorem moves_onward (hmoves : c.moves moves = some (events, after)) :
    (c.isClosing → after.isClosing) ∧
      ∀ value, c.closing.signal = some value →
        after.closing.signal = some value ∧ closedOf events = [] := by
  refine moves_induction (P := fun _ events after => (c.isClosing → after.isClosing) ∧
    ∀ value, c.closing.signal = some value →
      after.closing.signal = some value ∧ closedOf events = []) ?_ ?_ hmoves
  · exact ⟨id, fun value hsignal => ⟨hsignal, rfl⟩⟩
  · intro moves events middle move more after _ ⟨hclosing, hsignal⟩ hmove
    obtain ⟨hclosing', hsignal'⟩ := (move_closes hmove).onward
    refine ⟨fun h => hclosing' (hclosing h), fun value h => ?_⟩
    obtain ⟨hmiddle, hnone⟩ := hsignal value h
    obtain ⟨hafter, hnone'⟩ := hsignal' value hmiddle
    refine ⟨hafter, ?_⟩
    rw [closedOf_append, hnone, hnone', List.append_nil]

end Channel

/-- The close signal fires at most once and keeps its value.  The value is the first reason that
was offered before, and `unknown` if there was none; every call that waits for the signal gets it.
At most one attempt to close is told that it was the first, and then its reason is the value.  A
channel that is closing never opens again. -/
theorem moves_closed [PackageDecoder σ π] {decoder : σ} {options : ConnectionOptions}
    {remote : Option Socket} {c after : Channel σ π} {moves : List Move} {events : List (Event π)}
    (hassemble : Channel.assemble decoder options remote = .ok c)
    (hmoves : c.moves moves = some (events, after)) :
    closedOf events = after.closing.signal.toList ∧
      after.closing.changes = (closedOf events).length ∧
      (∀ value, after.closing.signal = some value →
        value = (c.reasons moves).head?.getD .unknown) ∧
      (∀ notice ∈ noticedOf events, after.closing.signal = some notice.2) ∧
      ((abortsOf events).filter Prod.snd).length ≤ 1 ∧
      (∀ reason, (reason, true) ∈ abortsOf events →
        ∀ value, after.closing.signal = some value → value = reason) ∧
      ∀ {later : List Move} {more : List (Event π)} {final : Channel σ π},
        after.moves later = some (more, final) →
          (after.isClosing → final.isClosing) ∧
            ∀ value, after.closing.signal = some value →
              final.closing.signal = some value ∧ closedOf more = [] := by
  obtain ⟨h, _⟩ := Channel.closesOnce_of_moves hassemble hmoves
  refine ⟨h.closed, ?_, h.value, h.noticed, ?_, ?_, fun hlater => Channel.moves_onward hlater⟩
  · rw [h.closed, h.changes]
  · have hlength : ((abortsOf events).filter Prod.snd).length = (firstAborts events).length := by
      simp [firstAborts]
    rw [hlength]
    obtain hnone | ⟨reason, hone, _⟩ := h.first
    · simp [hnone]
    · simp [hone]
  · intro reason hmem value hsignal
    have hfirst : reason ∈ firstAborts events :=
      List.mem_map.2 ⟨(reason, true), List.mem_filter.2 ⟨hmem, rfl⟩, rfl⟩
    obtain hnone | ⟨reason', hone, hhead⟩ := h.first
    · rw [hnone] at hfirst
      cases hfirst
    · rw [hone, List.mem_singleton] at hfirst
      rw [h.value value hsignal, hhead, hfirst]
      rfl

/-- The write side fails while the application closes, a second attempt to close comes with another
reason, and two calls see the signal. -/
def failedThenClosed : List Move :=
  [.act .start, .act (.send ⟨.call 0, .chunk [1]⟩), .act .proceed, .act .proceed, .act .proceed,
    .act (.drain .take), .act (.close 1 .localClosing), .act (.drain (.fail .brokenPipe)),
    .act (.abort .timeout), .act (.fill .stop), .act .supervise, .act .supervise,
    .act (.close 2 .timeout), .act (.notice 2), .act (.notice 1)]

theorem moves_failedThenClosed :
    ∃ (c after : Channel FixedSize Bytes) (events : List (Event Bytes)),
      Channel.assemble (FixedSize.mk 4) {} none = .ok c ∧
        c.moves failedThenClosed = some (events, after) ∧
        c.reasons failedThenClosed = [.localClosing, .remoteClosing, .timeout] ∧
        noticedOf events = [(2, .localClosing), (1, .localClosing)] ∧
        closedOf events = [.localClosing] ∧
        ∀ value, after.closing.signal = some value →
          value = (c.reasons failedThenClosed).head?.getD .unknown := by
  refine ⟨_, _, _, rfl, rfl, by decide +kernel, rfl, rfl, ?_⟩
  have hassemble : Channel.assemble (π := Bytes) (FixedSize.mk 4) {} none = .ok _ := rfl
  exact (moves_closed hassemble rfl).2.2.1

end FramedChannel
