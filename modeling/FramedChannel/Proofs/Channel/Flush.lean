import FramedChannel.Proofs.Channel.Accepted
import FramedChannel.Proofs.Channel.Signal

/-!
# What a channel flushes when it closes

A drain loop that sees between two batches that the channel is cancelled writes
all that is left and shuts the write side down.  One that sees it in the middle
of a batch gives up: it loses the rest of the batch with the queue behind it,
and never shuts the write side down.

* `Move.isSetback` are the failures of the transport.
* `Drains` lists what a step of the drain loop can do without one, and
  `stepDrain_drains` says that the list is complete.  `Bystander` is what the
  other moves have in common.
* `Flushing` is the invariant, and `moves_flushed` the result.
* `moves_abandoned` is a run in which chunks are lost that were accepted before
  the channel was cancelled.
-/

namespace FramedChannel

variable {σ π : Type}

/-- A write or a shutdown that fails, or a last batch or a shutdown that takes too long. -/
def Move.isSetback : Move → Bool
  | .act (.drain (.fail _)) | .act (.drain .expire) => true
  | _ => false

/-- All chunks that went into the queue, one behind the other. -/
def queuedBytes (events : List (Event π)) : Bytes :=
  ((queuedOf events).map Prod.snd).flatten

namespace Channel

variable {c after : Channel σ π} {events more : List (Event π)}

/-- The bytes that the drain loop and the queue still have. -/
def unsent (c : Channel σ π) : Bytes :=
  c.drain.rest ++ c.outbox.queue.flatten

/-! ## The drain loop -/

/-- What a step of the drain loop does if the transport does not fail. -/
inductive Drains (c after : Channel σ π) : DrainAction → List (Event π) → Prop where
  /-- It moves bytes on, and loses none. -/
  | works {action : DrainAction} {events : List (Event π)} (haction : action ≠ .abandon)
      (hunsent : writtenOf events ++ after.unsent = c.unsent) (hshut : .shutDown ∉ events)
      (hdrain : after.drain ≠ .ended) : Drains c after action events
  | shutsDown (hunsent : after.unsent = c.unsent) (hdrain : after.drain = .ended) :
      Drains c after .shutDown [.shutDown]
  | abandons (hdrain : after.drain = .ended) : Drains c after .abandon []

theorem stepDrain_ne_ended {action : DrainAction}
    (h : c.stepDrain action = some (events, after)) : c.drain ≠ .ended := by
  intro hended
  cases action <;> simp [stepDrain, hended] at h

/-- Every step of the drain loop does one of these things, unless the transport fails. -/
theorem stepDrain_drains {action : DrainAction} (h : c.stepDrain action = some (events, after))
    (hsetback : (Move.act (.drain action)).isSetback = false)
    (hdry : c.drain.isClosing = true → c.outbox.queue = []) : Drains c after action events := by
  have hdrained := stepDrain_drained h
  have hqueue := flatten_take_append_drop maxBatch c.outbox.queue
  generalize hbefore : c.drain = before at hdrained
  generalize hafter : after.drain = behind at hdrained
  generalize houtbox : after.outbox = outbox at hdrained
  cases hdrained with
  | took =>
    refine .works (by simp) ?_ (by simp) (by simp [hafter])
    simp [unsent, Drain.rest, hbefore, hafter, houtbox, hqueue, writtenOf]
  | skipped hsize =>
    rw [Batch.flatten_eq_nil_of_size hsize, List.nil_append] at hqueue
    refine .works (by simp) ?_ (by simp) (by simp [hafter])
    simp [unsent, Drain.rest, Outbox.release, hbefore, hafter, houtbox, hqueue, writtenOf]
  | wrote | flushed =>
    refine .works (by simp) ?_ (by simp) (by simp [hafter])
    rw [writtenOf_singleton, unsent, unsent, hbefore, hafter, houtbox, Drain.rest, Drain.rest,
      ← List.append_assoc, piece_append]
  | confirmed hall | passed _ _ hall =>
    refine .works (by simp) ?_ (by simp) (by simp [hafter])
    simp [unsent, Drain.rest, Outbox.release, hbefore, hafter, houtbox, hall,
      Batch.drop_flatten_of_le (Nat.le_refl _), writtenOf]
  | flushes =>
    refine .works (by simp) ?_ (by simp) (by simp [hafter])
    simp [unsent, Drain.rest, Outbox.discard, hbefore, hafter, houtbox, writtenOf]
  | shuts _ hsize =>
    refine .works (by simp) ?_ (by simp) (by simp [hafter])
    simp [unsent, Drain.rest, Outbox.release, Outbox.discard, hbefore, hafter, houtbox,
      Batch.flatten_eq_nil_of_size hsize, writtenOf]
  | broke haction =>
    obtain rfl | ⟨fault, rfl⟩ := haction
    · exact .abandons hafter
    · cases hsetback
  | cut haction | unshut haction => obtain rfl | ⟨fault, rfl⟩ := haction <;> cases hsetback
  | shutDown =>
    refine .shutsDown ?_ hafter
    have hempty : c.outbox.queue = [] := hdry (by rw [hbefore]; rfl)
    simp [unsent, Drain.rest, Outbox.discard, hbefore, hafter, houtbox, hempty]

/-! ## The other moves -/

/-- A move that leaves the drain loop and the queue alone, unless it drops a channel that was never
started. -/
structure Bystander (c after : Channel σ π) (events : List (Event π)) : Prop where
  drain : after.drain = c.drain
  queue : after.stage ≠ .dropped → after.outbox.queue = c.outbox.queue
  queued : queuedOf events = []
  written : writtenOf events = []
  shutDown : .shutDown ∉ events

theorem Bystander.of_same (hevents : queuedOf events = [] ∧ writtenOf events = [])
    (hshut : .shutDown ∉ events) (hdrain : after.drain = c.drain)
    (hqueue : after.outbox.queue = c.outbox.queue) : Bystander c after events :=
  ⟨hdrain, fun _ => hqueue, hevents.1, hevents.2, hshut⟩

theorem abort_bystander (c : Channel σ π) (reason : CloseReason) :
    Bystander c (c.abort reason).2 (c.abort reason).1 := by
  unfold abort
  dsimp only
  split
  · rw [finish_eq]
    refine ⟨rfl, fun hstage => absurd rfl hstage, ?_, ?_, ?_⟩ <;>
      unfold Closing.firing <;> split <;> simp [queuedOf, writtenOf]
  · exact .of_same ⟨rfl, rfl⟩ (by simp) rfl rfl

theorem send_bystander (c : Channel σ π) (send : Send) :
    Bystander c (c.send send).2 (c.send send).1 := by
  unfold Channel.send
  split
  · exact .of_same ⟨rfl, rfl⟩ (by simp) rfl rfl
  · exact .of_same ⟨rfl, rfl⟩ (by simp) rfl (queue_enter _ _).1

theorem collect_bystander (c : Channel σ π) : Bystander c c.collect.2 c.collect.1 := by
  unfold collect
  split <;> exact .of_same ⟨rfl, rfl⟩ (by simp) rfl rfl

theorem stepFill_bystander [PackageDecoder σ π] {action : FillAction}
    (h : c.stepFill action = some (events, after)) : Bystander c after events := by
  cases action with
  | reply =>
    simp only [stepFill] at h
    split at h
    · split at h
      · cases h
        exact .of_same ⟨rfl, rfl⟩ (by simp) rfl rfl
      · cases h
        exact .of_same ⟨rfl, rfl⟩ (by simp) rfl (queue_enter _ _).1
    · cases h
  | _ =>
    simp only [stepFill] at h
    repeat' split at h
    all_goals cases h
    all_goals exact .of_same ⟨rfl, rfl⟩ (by simp) rfl rfl

theorem stepSupervisor_bystander (h : c.stepSupervisor = some (events, after)) :
    Bystander c after events := by
  unfold stepSupervisor at h
  split at h
  · cases h
    exact .of_same ⟨rfl, rfl⟩ (by simp) rfl rfl
  · rw [finish_eq] at h
    cases h
    refine .of_same ⟨?_, ?_⟩ ?_ rfl rfl <;>
      unfold Closing.firing <;> split <;> simp [queuedOf, writtenOf]
  · cases h

theorem queue_giveUp (o : Outbox) (call : Nat) : (o.giveUp call).queue = o.queue := by
  unfold Outbox.giveUp
  split
  · exact (queue_leave o).1
  · rfl

/-- Every move but those of the drain loop and of the send that has the lock is one of a
bystander. -/
theorem move_bystander [PackageDecoder σ π] {move : Move} (h : c.move move = some (events, after))
    (hdrain : ∀ action, move ≠ .act (.drain action)) (hproceed : move ≠ .act .proceed) :
    Bystander c after events := by
  cases move with
  | giveUp call =>
    cases h
    exact .of_same ⟨rfl, rfl⟩ (by simp) rfl (queue_giveUp _ _)
  | act action =>
    change c.step action = some (events, after) at h
    cases action with
    | proceed => exact absurd rfl hproceed
    | drain action => exact absurd rfl (hdrain action)
    | start =>
      simp only [step, start] at h
      split at h <;> cases h <;> exact .of_same ⟨rfl, rfl⟩ (by simp) rfl rfl
    | run =>
      obtain ⟨houtbox, hdrain'⟩ := run_effect c
      simp only [step, Option.some.injEq, Prod.mk.injEq] at h
      obtain ⟨rfl, rfl⟩ := h
      exact .of_same ⟨rfl, rfl⟩ (by simp) hdrain' (by rw [houtbox])
    | abort reason =>
      have habort := abort_bystander c reason
      rw [show c.abort reason = (events, after) from Option.some.inj h] at habort
      exact habort
    | close call reason =>
      obtain ⟨hdrain', hqueue, hqueued, hwritten, hshut⟩ := abort_bystander c reason
      simp only [step, close, Option.some.injEq, Prod.mk.injEq] at h
      obtain ⟨rfl, rfl⟩ := h
      exact ⟨hdrain', hqueue, hqueued, hwritten, hshut⟩
    | send send =>
      have hsend := send_bystander c send
      rw [show c.send send = (events, after) from Option.some.inj h] at hsend
      exact hsend
    | collect =>
      have hcollect := collect_bystander c
      simp only [step] at h
      split at h
      · rw [show c.collect = (events, after) from Option.some.inj h] at hcollect
        exact hcollect
      · cases h
    | release | next _ =>
      simp only [step] at h
      split at h <;> cases h
      exact .of_same ⟨rfl, rfl⟩ (by simp) rfl rfl
    | waitClosed _ | tick _ =>
      cases h
      exact .of_same ⟨rfl, rfl⟩ (by simp) rfl rfl
    | receive =>
      simp only [step, stepReader] at h
      repeat' split at h
      all_goals cases h
      all_goals exact .of_same ⟨rfl, rfl⟩ (by simp) rfl rfl
    | notice call =>
      simp only [step, stepCloser] at h
      repeat' split at h
      all_goals cases h
      all_goals exact .of_same ⟨rfl, rfl⟩ (by simp) rfl rfl
    | fill action =>
      simp only [step] at h
      split at h
      · exact stepFill_bystander h
      · cases h
    | supervise =>
      simp only [step] at h
      split at h
      · exact stepSupervisor_bystander h
      · cases h

/-- A move is a step of the drain loop, or leaves the loop where it is. -/
theorem drained_of_move [PackageDecoder σ π] {move : Move}
    (h : c.move move = some (events, after)) :
    ((∀ action, move ≠ .act (.drain action)) ∧ after.drain = c.drain) ∨
      ∃ action, move = .act (.drain action) ∧
        Drained c.outbox action c.drain events after.outbox after.drain := by
  by_cases hloop : ∃ action, move = .act (.drain action)
  · obtain ⟨action, rfl⟩ := hloop
    simp only [Channel.move, step] at h
    split at h
    · exact .inr ⟨action, rfl, stepDrain_drained h⟩
    · cases h
  · have hother : ∀ action, move ≠ .act (.drain action) := fun action => (hloop ⟨action, ·⟩)
    refine .inl ⟨hother, ?_⟩
    by_cases hproceed : move = .act .proceed
    · subst hproceed
      obtain ⟨_, _, _, _, _, hdrain⟩ := step_proceed h
      exact hdrain
    · exact (move_bystander h hother hproceed).drain

/-- The drain loop does not go on once it is over. -/
theorem ended_of_move [PackageDecoder σ π] {move : Move} (h : c.move move = some (events, after))
    (hended : c.drain = .ended) : after.drain = .ended := by
  obtain ⟨_, hsame⟩ | ⟨action, _, hdrained⟩ := drained_of_move h
  · exact hsame.trans hended
  · rw [hended] at hdrained
    cases hdrained

/-- Where the signal of a started channel fired, the drain loop is over. -/
theorem ended_of_signal [PackageDecoder σ π] {decoder : σ} {options : ConnectionOptions}
    {remote : Option Socket} {moves : List Move}
    (hassemble : assemble decoder options remote = .ok c)
    (hmoves : c.moves moves = some (events, after)) :
    after.closing.signal = none ∨ after.stage = .dropped ∨ after.drain = .ended := by
  refine moves_induction (P := fun _ _ after =>
    after.closing.signal = none ∨ after.stage = .dropped ∨ after.drain = .ended) ?_ ?_ hmoves
  · obtain rfl := eq_of_assemble hassemble
    exact .inl rfl
  · intro moves events middle move more after _ h hmove
    have hstays : middle.stage = .dropped ∨ middle.drain = .ended →
        after.stage = .dropped ∨ after.drain = .ended :=
      Or.imp (dropped_of_move hmove) (ended_of_move hmove)
    obtain hsame | hover := (move_closes hmove).signal
    · rw [hsame]
      exact h.imp_right hstays
    · exact .inr hover

/-! ## The invariant -/

/-- Nothing is lost unless the drain loop gives up, and it shuts the write side down unless it gave
up. -/
structure Flushing (c : Channel σ π) (moves : List Move) (events : List (Event π)) : Prop where
  all : c.stage ≠ .dropped → .act (.drain .abandon) ∉ moves →
    writtenOf events ++ c.unsent = queuedBytes events
  running : c.drain ≠ .ended → .shutDown ∉ events ∧ .act (.drain .abandon) ∉ moves
  ended : c.drain = .ended → (.shutDown ∈ events ↔ .act (.drain .abandon) ∉ moves)

section Flushing

variable {moves : List Move} {move : Move}

theorem queuedBytes_append (events more : List (Event π)) :
    queuedBytes (events ++ more) = queuedBytes events ++ queuedBytes more := by
  simp [queuedBytes]

/-- A move that is none of the drain loop keeps the invariant if it accounts for what it puts in the
queue. -/
theorem Flushing.other (h : Flushing c moves events) (hmove : move ≠ .act (.drain .abandon))
    (hdrain : after.drain = c.drain) (hshut : .shutDown ∉ more) (hwritten : writtenOf more = [])
    (hunsent : after.stage ≠ .dropped →
      c.stage ≠ .dropped ∧ after.unsent = c.unsent ++ queuedBytes more) :
    Flushing after (moves ++ [move]) (events ++ more) := by
  have hmem : .act (.drain .abandon) ∈ moves ++ [move] ↔ .act (.drain .abandon) ∈ moves := by
    simp [hmove.symm]
  have hmem' : .shutDown ∈ events ++ more ↔ .shutDown ∈ events := by simp [hshut]
  refine ⟨?_, ?_, ?_⟩
  · intro hstage hwhole
    rw [hmem] at hwhole
    obtain ⟨hstage', hsame⟩ := hunsent hstage
    rw [writtenOf_append, hwritten, List.append_nil, hsame, ← List.append_assoc,
      h.all hstage' hwhole, queuedBytes_append]
  · rw [hdrain, hmem, hmem']
    exact h.running
  · rw [hdrain, hmem, hmem']
    exact h.ended

/-- A step of the drain loop keeps the invariant, unless the transport fails. -/
theorem Flushing.drain {action : DrainAction} (h : Flushing c moves events)
    (hbefore : c.drain ≠ .ended) (hstage : after.stage = c.stage) (hqueued : queuedOf more = [])
    (hdrains : Drains c after action more) :
    Flushing after (moves ++ [.act (.drain action)]) (events ++ more) := by
  obtain ⟨hshut, hwhole⟩ := h.running hbefore
  have hbytes : queuedBytes (events ++ more) = queuedBytes events := by
    simp [queuedBytes, hqueued]
  cases hdrains with
  | works haction hunsent hshut' hdrain =>
    refine ⟨?_, ?_, fun hended => absurd hended hdrain⟩
    · intro hstarted _
      rw [hstage] at hstarted
      rw [hbytes, writtenOf_append, List.append_assoc, hunsent]
      exact h.all hstarted hwhole
    · intro _
      simp [hshut, hshut', hwhole, haction.symm]
  | shutsDown hunsent hdrain =>
    refine ⟨?_, fun hrunning => absurd hdrain hrunning, ?_⟩
    · intro hstarted _
      rw [hstage] at hstarted
      have hnone : writtenOf [Event.shutDown (π := π)] = [] := rfl
      rw [hbytes, writtenOf_append, hnone, List.append_nil, hunsent]
      exact h.all hstarted hwhole
    · intro _
      simp [hwhole]
  | abandons hdrain =>
    refine ⟨?_, fun hrunning => absurd hdrain hrunning, ?_⟩
    · intro _ habsurd
      simp at habsurd
    · intro _
      simp [hshut]

variable [PackageDecoder σ π] {decoder : σ} {options : ConnectionOptions} {remote : Option Socket}

/-- A move without a setback keeps the invariant. -/
theorem Flushing.step {l : Ledger} {admitted : List Send} {dropped : Nat}
    (h : Flushing c moves events) (hbalanced : Balanced l c events admitted dropped)
    (hmove : c.move move = some (more, after)) (hsetback : move.isSetback = false) :
    Flushing after (moves ++ [move]) (events ++ more) := by
  have hstage : after.stage ≠ .dropped → c.stage ≠ .dropped := mt (dropped_of_move hmove)
  by_cases hproceed : move = .act .proceed
  · subst hproceed
    obtain ⟨sender, progress, hstep, rfl, houtbox, hdrain⟩ := step_proceed hmove
    obtain ⟨_, _, _, _, hqueue, _, _⟩ := hbalanced.kept.proceed (π := π) hstep
    refine h.other (by simp) hdrain ?_ (writtenOf_eventsOf ..) fun hafter => ⟨hstage hafter, ?_⟩
    · unfold eventsOf
      cases progress.queued <;> cases progress.sent <;> simp
    · rw [unsent, unsent, hdrain, houtbox, hqueue, queuedBytes, queuedOf_eventsOf]
      cases progress.queued <;> simp
  · by_cases hloop : ∃ action, move = .act (.drain action)
    · obtain ⟨action, rfl⟩ := hloop
      simp only [Channel.move, step] at hmove
      split at hmove
      · have hdry : c.drain.isClosing = true → c.outbox.queue = [] :=
          fun hclosing => hbalanced.flow.dry (hbalanced.flow.shut hclosing)
        exact h.drain (stepDrain_ne_ended hmove) (stage_stepDrain hmove) (stepDrain_effect hmove).1
          (stepDrain_drains hmove hsetback hdry)
      · cases hmove
    · have hby := move_bystander hmove (fun action => (hloop ⟨action, ·⟩)) hproceed
      refine h.other (fun hmove => hloop ⟨_, hmove⟩) hby.drain hby.shutDown hby.written ?_
      intro hafter
      refine ⟨hstage hafter, ?_⟩
      rw [unsent, unsent, hby.drain, hby.queue hafter, queuedBytes, hby.queued]
      simp

theorem flushing_of_moves (hassemble : assemble decoder options remote = .ok c)
    (hmoves : c.moves moves = some (events, after))
    (hsetback : ∀ move ∈ moves, move.isSetback = false) : Flushing after moves events := by
  refine moves_induction (P := fun moves events after =>
    (∀ move ∈ moves, move.isSetback = false) → Flushing after moves events) ?_ ?_ hmoves hsetback
  · intro _
    obtain rfl := eq_of_assemble hassemble
    exact ⟨fun _ _ => rfl, fun _ => by simp, fun hended => by cases hended⟩
  · intro moves events middle move more after hdone h hmove hall
    have hbalanced := (balanced_of_assemble hassemble).moves hdone
    exact (h fun move hmem => hall move (List.mem_append_left _ hmem)).step hbalanced hmove
      (hall move (by simp))

end Flushing

end Channel

/-- When the signal of a started channel fires and the transport did not fail, the write side was
shut down and the transport has all chunks that were ever put in the queue, in order, unless the
drain loop saw in the middle of a batch that the channel is cancelled.  These are the chunks of the
sends that returned well, as they were called. -/
theorem moves_flushed [PackageDecoder σ π] {decoder : σ} {options : ConnectionOptions}
    {remote : Option Socket} {c after : Channel σ π} {moves : List Move} {events : List (Event π)}
    (hassemble : Channel.assemble decoder options remote = .ok c)
    (hmoves : c.moves moves = some (events, after)) (hstarted : after.stage = .started)
    (hsignal : after.closing.signal ≠ none) (hsetback : ∀ move ∈ moves, move.isSetback = false) :
    let accounts := (c.ledger moves).accounts
    (.shutDown ∈ events ↔ .act (.drain .abandon) ∉ moves) ∧
      (.act (.drain .abandon) ∉ moves →
        writtenOf events = (accounts.flatMap Account.queued).flatten) ∧
      (∀ account ∈ accounts, account.Exact) ∧
      (returnsOf events).filter (!turnedAway ·) =
        (accounts.filterMap Account.returned).filter (!turnedAway ·) := by
  have hnot : after.stage ≠ .dropped := by simp [hstarted]
  have hended : after.drain = .ended := by
    obtain hnone | hdropped | hended := Channel.ended_of_signal hassemble hmoves
    · exact absurd hnone hsignal
    · exact absurd hdropped hnot
    · exact hended
  have hbalanced := (balanced_of_assemble hassemble).moves hmoves
  have hflushing := Channel.flushing_of_moves hassemble hmoves hsetback
  refine ⟨hflushing.ended hended, ?_, hbalanced.kept.exact, hbalanced.returns⟩
  intro hwhole
  have hqueue : after.outbox.queue = [] :=
    hbalanced.flow.dry (hbalanced.flow.shut (by rw [hended]; rfl))
  have hall := hflushing.all hnot hwhole
  have hqueued : queuedOf events = (c.ledger moves).queued := hbalanced.queued
  rw [Channel.unsent, hended, hqueue, queuedBytes, hqueued, Ledger.map_snd_queued] at hall
  simpa [Drain.rest, Ledger.chunks] using hall

/-- A channel with a chunk in its queue that is closed between two batches, and all that happens
until the signal fires. -/
def closedBetween : List Move :=
  [.act .start, .act (.send ⟨.call 0, .chunk [1, 2, 3, 4]⟩), .act .proceed, .act .proceed,
    .act .proceed, .act (.abort .localClosing), .act (.drain .flush), .act (.drain (.write 3)),
    .act (.drain (.write 1)), .act (.drain .confirm), .act (.drain .shutDown), .act (.fill .stop),
    .act .supervise, .act .supervise]

theorem moves_closedBetween :
    ∃ (c after : Channel FixedSize Bytes) (events : List (Event Bytes)),
      Channel.assemble (FixedSize.mk 4) {} none = .ok c ∧
        c.moves closedBetween = some (events, after) ∧
        after.closing.signal = some .localClosing ∧ writtenOf events = [1, 2, 3, 4] ∧
        (.shutDown ∈ events ↔ .act (.drain .abandon) ∉ closedBetween) := by
  refine ⟨_, _, _, rfl, rfl, rfl, rfl, ?_⟩
  have hassemble : Channel.assemble (π := Bytes) (FixedSize.mk 4) {} none = .ok _ := rfl
  exact (moves_flushed hassemble rfl rfl (by simp) (by decide)).1

/-- Two sends, and a drain loop that is in the middle of the first chunk. -/
def halfWritten : List Move :=
  [.act .start, .act (.send ⟨.call 0, .chunk [1, 2, 3, 4]⟩), .act .proceed, .act .proceed,
    .act .proceed, .act (.drain .take), .act (.drain (.write 2)),
    .act (.send ⟨.call 1, .chunk [5]⟩), .act .proceed, .act .proceed, .act .proceed]

/-- The channel is closed there, and all happens that has to until the signal fires. -/
def closedMidway : List Move :=
  [.act (.abort .localClosing), .act (.drain .abandon), .act (.fill .stop), .act .supervise,
    .act .supervise]

/-- Two sends returned well before the channel was cancelled, and the transport never failed nor
took any time.  The signal fires with only half of the first chunk written and the write side still
open. -/
theorem moves_abandoned :
    ∃ (c middle after : Channel FixedSize Bytes) (first more : List (Event Bytes)),
      Channel.assemble (FixedSize.mk 4) {} none = .ok c ∧
        c.moves halfWritten = some (first, middle) ∧ ¬middle.isClosing ∧
        returnsOf first = [(.call 0, .done 0), (.call 1, .done 0)] ∧
        middle.moves closedMidway = some (more, after) ∧
        (∀ move ∈ closedMidway, move.isSetback = false ∧ ∀ time, move ≠ .act (.tick time)) ∧
        after.closing.signal = some .localClosing ∧
        writtenOf (first ++ more) = [1, 2] ∧ .shutDown ∉ first ++ more := by
  refine ⟨_, _, _, _, _, rfl, rfl, by decide, rfl, rfl, ?_, rfl, rfl, by decide⟩
  simp [closedMidway, Move.isSetback]

end FramedChannel
