import Mathlib.Data.List.Basic
import FramedChannel.Channel.Step

/-!
# The sending side of a channel

What a step of a channel does to its outbox and its drain loop, and what can be
seen of it there.

* `queuedOf`, `returnsOf` and `writtenOf` read the events that belong to sends
  and to writes.
* `Drained` lists all that a step of the drain loop can do, and
  `stepDrain_drained` says that the list is complete.
* `Effect` does so for every step other than `Action.proceed`, with
  `step_effect`.
* `step_proceed` is the remaining step.
-/

namespace FramedChannel

variable {σ π : Type}

/-! ## What can be seen -/

/-- The chunks that went into the queue, with the senders of them. -/
def queuedOf (events : List (Event π)) : List (Sender × Bytes) :=
  events.filterMap fun
    | .queued sender chunk => some (sender, chunk)
    | _ => none

/-- The sends that returned, and how. -/
def returnsOf (events : List (Event π)) : List (Sender × Sent) :=
  events.filterMap fun
    | .returned sender sent => some (sender, sent)
    | _ => none

/-- The bytes that the transport took. -/
def writtenOf (events : List (Event π)) : Bytes :=
  (events.filterMap fun
    | .written bytes => some bytes
    | _ => none).flatten

section Append

variable (events more : List (Event π))

@[simp] theorem queuedOf_append : queuedOf (events ++ more) = queuedOf events ++ queuedOf more :=
  List.filterMap_append ..

@[simp] theorem returnsOf_append :
    returnsOf (events ++ more) = returnsOf events ++ returnsOf more :=
  List.filterMap_append ..

@[simp] theorem writtenOf_append :
    writtenOf (events ++ more) = writtenOf events ++ writtenOf more := by
  simp [writtenOf]

end Append

namespace Channel

/-- The sends that an action lets in.  Once the channel is closing it lets none in. -/
def admits (c : Channel σ π) : Action → List Send
  | .send send => if c.isClosing then [] else [send]
  | .fill .reply =>
    match c.fill with
    | .delivering (.reply bytes :: _) _ => if c.isClosing then [] else [⟨.reply, .chunk bytes⟩]
    | _ => []
  | _ => []

/-! ## All that a step can do -/

/-- What a step does to an outbox and a drain loop, with the sends that it lets in, those that it
turns away and the bytes that it writes.  The step of the send that holds the lock is left out. -/
inductive Effect (o : Outbox) :
    Drain → List Send → List (Sender × Sent) → Bytes → Outbox → Drain → Prop where
  | nothing (d : Drain) : Effect o d [] [] [] o d
  | refused (d : Drain) (sender : Sender) :
      Effect o d [] [(sender, .failed .channelClosed)] [] o d
  | admitted (d : Drain) (send : Send) : Effect o d [send] [] [] (o.enter send) d
  /-- The channel is closed before it was started. -/
  | dropped (d : Drain) : Effect o d [] [] [] o.discard d
  | took (h : Batch.size (o.queue.take maxBatch) ≠ 0) :
      Effect o .idle [] [] [] { o with queue := o.queue.drop maxBatch }
        (.writing (o.queue.take maxBatch) 0)
  /-- The batch has nothing to write. -/
  | skipped (h : Batch.size (o.queue.take maxBatch) = 0) :
      Effect o .idle [] [] []
        (Outbox.release { o with queue := o.queue.drop maxBatch } (o.queue.take maxBatch).length)
        .idle
  | wrote {batch : List Bytes} {taken count : Nat} (h : fits batch taken count) :
      Effect o (.writing batch taken) [] [] (piece batch taken count) o
        (.writing batch (taken + count))
  | confirmed {batch : List Bytes} {taken : Nat} (h : taken = Batch.size batch) :
      Effect o (.writing batch taken) [] [] [] (o.release batch.length) .idle
  /-- Writing failed, or was given up. -/
  | broke (batch : List Bytes) (taken : Nat) :
      Effect o (.writing batch taken) [] [] [] (o.release batch.length).discard .ended
  | flushes (deadline : Nat) (h : Batch.size o.queue ≠ 0) :
      Effect o .idle [] [] [] o.discard (.flushing o.queue 0 deadline)
  /-- There is nothing to flush. -/
  | shuts (deadline : Nat) (h : Batch.size o.queue = 0) :
      Effect o .idle [] [] [] (o.discard.release o.queue.length) (.shutting deadline)
  | flushed {batch : List Bytes} {taken count : Nat} (deadline : Nat)
      (h : fits batch taken count) :
      Effect o (.flushing batch taken deadline) [] [] (piece batch taken count) o
        (.flushing batch (taken + count) deadline)
  /-- The flush is over, well or not. -/
  | shutsFlushed (batch : List Bytes) (taken deadline deadline' : Nat) :
      Effect o (.flushing batch taken deadline) [] [] [] (o.release batch.length)
        (.shutting deadline')
  | ended (deadline : Nat) : Effect o (.shutting deadline) [] [] [] o.discard .ended

variable {c after : Channel σ π} {events : List (Event π)}

/-- The effect of a step, read off its channels and its events. -/
def HasEffect (c : Channel σ π) (admitted : List Send) (events : List (Event π))
    (after : Channel σ π) : Prop :=
  queuedOf events = [] ∧
    Effect c.outbox c.drain admitted (returnsOf events) (writtenOf events) after.outbox after.drain

/-- Nothing of the sending side can be seen. -/
structure Quiet (events : List (Event π)) : Prop where
  queued : queuedOf events = []
  returns : returnsOf events = []
  written : writtenOf events = []

theorem Quiet.hasEffect {admitted : List Send} (h : Quiet events)
    (heffect : Effect c.outbox c.drain admitted [] [] after.outbox after.drain) :
    HasEffect c admitted events after := by
  refine ⟨h.queued, ?_⟩
  rw [h.returns, h.written]
  exact heffect

theorem Quiet.hasEffect_nothing (h : Quiet events) (houtbox : after.outbox = c.outbox)
    (hdrain : after.drain = c.drain) : HasEffect c [] events after := by
  refine h.hasEffect ?_
  rw [houtbox, hdrain]
  exact .nothing _

theorem quiet_nil : Quiet ([] : List (Event π)) := ⟨rfl, rfl, rfl⟩

/-! ## Calls -/

theorem quiet_finish (c : Channel σ π) : Quiet c.finish.1 := by
  unfold finish
  dsimp only
  split <;> exact ⟨rfl, rfl, rfl⟩

theorem Quiet.aborted (h : Quiet events) (reason : CloseReason) (first : Bool) :
    Quiet (.aborted reason first :: events) :=
  ⟨h.queued, h.returns, h.written⟩

theorem abort_effect (c : Channel σ π) (reason : CloseReason) :
    HasEffect c [] (c.abort reason).1 (c.abort reason).2 := by
  unfold abort
  dsimp only
  split
  · exact ((quiet_finish _).aborted reason _).hasEffect (.dropped c.drain)
  · exact (quiet_nil.aborted reason _).hasEffect_nothing rfl rfl

theorem run_effect (c : Channel σ π) :
    c.run.2.outbox = c.outbox ∧ c.run.2.drain = c.drain := by
  have hstart : c.start.2.outbox = c.outbox ∧ c.start.2.drain = c.drain := by
    unfold start
    split <;> exact ⟨rfl, rfl⟩
  unfold run
  split
  · split
    · rename_i hstarted
      rw [hstarted] at hstart
      exact hstart
    · rename_i hstarted
      rw [hstarted] at hstart
      exact hstart
  · exact ⟨rfl, rfl⟩

theorem send_effect (c : Channel σ π) (send : Send) :
    HasEffect c (c.admits (.send send)) (c.send send).1 (c.send send).2 := by
  have hadmits : c.admits (.send send) = if c.isClosing then [] else [send] := rfl
  rw [hadmits, Channel.send]
  split
  · exact ⟨rfl, .refused _ _⟩
  · exact quiet_nil.hasEffect (.admitted _ _)

theorem collect_effect (c : Channel σ π) : HasEffect c [] c.collect.1 c.collect.2 := by
  unfold collect
  split <;> exact Quiet.hasEffect_nothing ⟨rfl, rfl, rfl⟩ rfl rfl

/-! ## The loops -/

/-- What a step of the drain loop does to an outbox and to the loop, with what can be seen of it. -/
inductive Drained (o : Outbox) :
    DrainAction → Drain → List (Event π) → Outbox → Drain → Prop where
  | took (h : Batch.size (o.queue.take maxBatch) ≠ 0) :
      Drained o .take .idle [] { o with queue := o.queue.drop maxBatch }
        (.writing (o.queue.take maxBatch) 0)
  /-- The batch has nothing to write. -/
  | skipped (h : Batch.size (o.queue.take maxBatch) = 0) :
      Drained o .take .idle []
        (Outbox.release { o with queue := o.queue.drop maxBatch } (o.queue.take maxBatch).length)
        .idle
  | wrote {batch : List Bytes} {taken count : Nat} (h : fits batch taken count) :
      Drained o (.write count) (.writing batch taken) [.written (piece batch taken count)] o
        (.writing batch (taken + count))
  | confirmed {batch : List Bytes} {taken : Nat} (h : taken = Batch.size batch) :
      Drained o .confirm (.writing batch taken) [] (o.release batch.length) .idle
  /-- Writing failed, or was given up. -/
  | broke {action : DrainAction} (h : action = .abandon ∨ ∃ fault, action = .fail fault)
      (batch : List Bytes) (taken : Nat) :
      Drained o action (.writing batch taken) [] (o.release batch.length).discard .ended
  | flushes (deadline : Nat) (h : Batch.size o.queue ≠ 0) :
      Drained o .flush .idle [] o.discard (.flushing o.queue 0 deadline)
  /-- There is nothing to flush. -/
  | shuts (deadline : Nat) (h : Batch.size o.queue = 0) :
      Drained o .flush .idle [] (o.discard.release o.queue.length) (.shutting deadline)
  | flushed {batch : List Bytes} {taken count : Nat} (deadline : Nat)
      (h : fits batch taken count) :
      Drained o (.write count) (.flushing batch taken deadline)
        [.written (piece batch taken count)] o (.flushing batch (taken + count) deadline)
  | passed {batch : List Bytes} {taken : Nat} (deadline deadline' : Nat)
      (h : taken = Batch.size batch) :
      Drained o .confirm (.flushing batch taken deadline) [] (o.release batch.length)
        (.shutting deadline')
  /-- The last batch is cut short. -/
  | cut {action : DrainAction} (h : action = .expire ∨ ∃ fault, action = .fail fault)
      (batch : List Bytes) (taken deadline deadline' : Nat) :
      Drained o action (.flushing batch taken deadline) [] (o.release batch.length)
        (.shutting deadline')
  | shutDown (deadline : Nat) :
      Drained o .shutDown (.shutting deadline) [.shutDown] o.discard .ended
  /-- The write side cannot be shut down, or not in time. -/
  | unshut {action : DrainAction} (h : action = .expire ∨ ∃ fault, action = .fail fault)
      (deadline : Nat) : Drained o action (.shutting deadline) [] o.discard .ended

theorem stepDrain_drained {action : DrainAction} (h : c.stepDrain action = some (events, after)) :
    Drained c.outbox action c.drain events after.outbox after.drain := by
  cases hdrain : c.drain with
  | idle =>
    cases action with
    | take =>
      simp only [stepDrain, hdrain] at h
      split at h
      · cases h
      · cases h
        unfold beginBatch
        split
        · rename_i hsize
          exact .skipped hsize
        · rename_i hsize
          exact .took hsize
    | flush =>
      simp only [stepDrain, hdrain] at h
      split at h
      · split at h
        · rename_i hsize
          cases h
          exact .shuts _ hsize
        · rename_i hsize
          cases h
          exact .flushes _ hsize
      · cases h
    | _ => simp [stepDrain, hdrain] at h
  | writing batch taken =>
    cases action with
    | write count =>
      simp only [stepDrain, hdrain] at h
      split at h
      · rename_i hfits
        cases h
        exact .wrote hfits
      · cases h
    | confirm =>
      simp only [stepDrain, hdrain] at h
      split at h
      · rename_i hall
        cases h
        exact .confirmed hall
      · cases h
    | fail fault =>
      simp only [stepDrain, hdrain] at h
      cases h
      exact .broke (.inr ⟨fault, rfl⟩) batch taken
    | abandon =>
      simp only [stepDrain, hdrain] at h
      split at h
      · cases h
        exact .broke (.inl rfl) batch taken
      · cases h
    | _ => simp [stepDrain, hdrain] at h
  | flushing batch taken deadline =>
    cases action with
    | write count =>
      simp only [stepDrain, hdrain] at h
      split at h
      · rename_i hfits
        cases h
        exact .flushed deadline hfits
      · cases h
    | confirm =>
      simp only [stepDrain, hdrain] at h
      split at h
      · rename_i hall
        cases h
        exact .passed deadline _ hall
      · cases h
    | fail fault =>
      simp only [stepDrain, hdrain] at h
      cases h
      exact .cut (.inr ⟨fault, rfl⟩) batch taken deadline _
    | expire =>
      simp only [stepDrain, hdrain] at h
      split at h
      · cases h
        exact .cut (.inl rfl) batch taken deadline _
      · cases h
    | _ => simp [stepDrain, hdrain] at h
  | shutting deadline =>
    cases action with
    | shutDown =>
      simp only [stepDrain, hdrain] at h
      cases h
      exact .shutDown deadline
    | fail fault =>
      simp only [stepDrain, hdrain] at h
      cases h
      exact .unshut (.inr ⟨fault, rfl⟩) deadline
    | expire =>
      simp only [stepDrain, hdrain] at h
      split at h
      · cases h
        exact .unshut (.inl rfl) deadline
      · cases h
    | _ => simp [stepDrain, hdrain] at h
  | ended => cases action <;> simp [stepDrain, hdrain] at h

/-- Nothing of the senders can be seen of a step of the drain loop. -/
theorem Drained.senders {o o' : Outbox} {d d' : Drain} {action : DrainAction}
    (h : Drained o action d events o' d') : queuedOf events = [] ∧ returnsOf events = [] := by
  cases h <;> exact ⟨rfl, rfl⟩

theorem writtenOf_singleton (bytes : Bytes) :
    writtenOf [Event.written (π := π) bytes] = bytes :=
  List.append_nil _

theorem Drained.effect {o o' : Outbox} {d d' : Drain} {action : DrainAction}
    (h : Drained o action d events o' d') : Effect o d [] [] (writtenOf events) o' d' := by
  cases h with
  | took h => exact .took h
  | skipped h => exact .skipped h
  | wrote h =>
    rw [writtenOf_singleton]
    exact .wrote h
  | confirmed h => exact .confirmed h
  | broke _ batch taken => exact .broke batch taken
  | flushes deadline h => exact .flushes deadline h
  | shuts deadline h => exact .shuts deadline h
  | flushed deadline h =>
    rw [writtenOf_singleton]
    exact .flushed deadline h
  | passed deadline deadline' _ => exact .shutsFlushed _ _ deadline deadline'
  | cut _ batch taken deadline deadline' => exact .shutsFlushed batch taken deadline deadline'
  | shutDown deadline => exact .ended deadline
  | unshut _ deadline => exact .ended deadline

theorem stepDrain_effect {action : DrainAction} (h : c.stepDrain action = some (events, after)) :
    HasEffect c [] events after := by
  have hdrained := stepDrain_drained h
  obtain ⟨hqueued, hreturns⟩ := hdrained.senders
  refine ⟨hqueued, ?_⟩
  rw [hreturns]
  exact hdrained.effect

theorem stepFill_effect [PackageDecoder σ π] {action : FillAction}
    (h : c.stepFill action = some (events, after)) :
    HasEffect c (c.admits (.fill action)) events after := by
  cases action with
  | read bytes =>
    simp only [stepFill] at h
    split at h
    · split at h
      · cases h
        exact quiet_nil.hasEffect_nothing rfl rfl
      · cases h
    · cases h
  | finish =>
    simp only [stepFill] at h
    split at h <;> cases h
    exact quiet_nil.hasEffect_nothing rfl rfl
  | fail fault =>
    simp only [stepFill] at h
    split at h <;> cases h
    exact quiet_nil.hasEffect_nothing rfl rfl
  | overflow =>
    simp only [stepFill] at h
    split at h
    · split at h <;> cases h
      exact quiet_nil.hasEffect_nothing rfl rfl
    · cases h
  | stop =>
    simp only [stepFill] at h
    split at h
    · split at h <;> cases h
      exact quiet_nil.hasEffect_nothing rfl rfl
    · split at h <;> cases h
      exact quiet_nil.hasEffect_nothing rfl rfl
    · cases h
  | deliver =>
    simp only [stepFill] at h
    split at h
    · split at h
      · cases h
        exact quiet_nil.hasEffect_nothing rfl rfl
      · split at h <;> cases h
        exact quiet_nil.hasEffect_nothing rfl rfl
    · cases h
  | reply =>
    simp only [stepFill] at h
    split at h
    · rename_i bytes rest ending hfill
      simp only [admits, hfill]
      split at h
      · rename_i hclosing
        rw [if_pos hclosing]
        cases h
        exact ⟨rfl, .refused _ _⟩
      · rename_i hopen
        rw [if_neg hopen]
        cases h
        exact ⟨rfl, .admitted _ _⟩
    · cases h

theorem stepSupervisor_effect (h : c.stepSupervisor = some (events, after)) :
    HasEffect c [] events after := by
  unfold stepSupervisor at h
  split at h
  · cases h
    exact quiet_nil.hasEffect_nothing rfl rfl
  · rw [Option.some.injEq, Prod.ext_iff] at h
    obtain ⟨rfl, rfl⟩ := h
    exact (quiet_finish _).hasEffect_nothing rfl rfl
  · cases h

theorem stepReader_effect (h : c.stepReader = some (events, after)) :
    HasEffect c [] events after := by
  unfold stepReader at h
  split at h
  · cases h
    exact Quiet.hasEffect_nothing ⟨rfl, rfl, rfl⟩ rfl rfl
  · split at h <;> cases h
    exact Quiet.hasEffect_nothing ⟨rfl, rfl, rfl⟩ rfl rfl
  · cases h

theorem stepCloser_effect {call : Nat} (h : c.stepCloser call = some (events, after)) :
    HasEffect c [] events after := by
  unfold stepCloser at h
  split at h
  · split at h <;> cases h
    exact Quiet.hasEffect_nothing ⟨rfl, rfl, rfl⟩ rfl rfl
  · cases h

/-! ## All steps -/

/-- Every step but that of the send which holds the lock has an effect of the list. -/
theorem step_effect [PackageDecoder σ π] {action : Action}
    (h : c.step action = some (events, after)) (hother : action ≠ .proceed) :
    HasEffect c (c.admits action) events after := by
  cases action with
  | proceed => exact absurd rfl hother
  | start =>
    simp only [step, start] at h
    split at h <;> cases h <;> exact Quiet.hasEffect_nothing ⟨rfl, rfl, rfl⟩ rfl rfl
  | run =>
    obtain ⟨houtbox, hdrain⟩ := run_effect c
    simp only [step, Option.some.injEq, Prod.mk.injEq] at h
    obtain ⟨rfl, rfl⟩ := h
    exact Quiet.hasEffect_nothing ⟨rfl, rfl, rfl⟩ houtbox hdrain
  | release =>
    simp only [step] at h
    split at h <;> cases h
    exact quiet_nil.hasEffect_nothing rfl rfl
  | abort reason =>
    have habort := abort_effect c reason
    rw [show c.abort reason = (events, after) from Option.some.inj h] at habort
    exact habort
  | close call reason =>
    have habort := abort_effect c reason
    simp only [step, close, Option.some.injEq, Prod.mk.injEq] at h
    obtain ⟨rfl, rfl⟩ := h
    exact habort
  | send send =>
    have hsend := send_effect c send
    rw [show c.send send = (events, after) from Option.some.inj h] at hsend
    exact hsend
  | next call =>
    simp only [step] at h
    split at h <;> cases h
    exact quiet_nil.hasEffect_nothing rfl rfl
  | collect =>
    have hcollect := collect_effect c
    simp only [step] at h
    split at h
    · rw [show c.collect = (events, after) from Option.some.inj h] at hcollect
      exact hcollect
    · cases h
  | waitClosed call =>
    cases h
    exact quiet_nil.hasEffect_nothing rfl rfl
  | receive => exact stepReader_effect h
  | notice call => exact stepCloser_effect h
  | fill action =>
    simp only [step] at h
    split at h
    · exact stepFill_effect h
    · cases h
  | drain action =>
    simp only [step] at h
    split at h
    · exact stepDrain_effect h
    · cases h
  | supervise =>
    simp only [step] at h
    split at h
    · exact stepSupervisor_effect h
    · cases h
  | tick time =>
    cases h
    exact quiet_nil.hasEffect_nothing rfl rfl

/-- What can be seen of a step of the send that holds the lock. -/
def eventsOf (sender : Sender) (progress : Outbox.Progress) : List (Event π) :=
  (progress.queued.map (.queued sender)).toList ++
    (progress.sent.map (.returned sender)).toList

section EventsOf

variable (sender : Sender) (progress : Outbox.Progress)

@[simp] theorem queuedOf_eventsOf :
    queuedOf (eventsOf (π := π) sender progress) = (progress.queued.map (sender, ·)).toList := by
  unfold eventsOf
  cases progress.queued <;> cases progress.sent <;> rfl

@[simp] theorem returnsOf_eventsOf :
    returnsOf (eventsOf (π := π) sender progress) = (progress.sent.map (sender, ·)).toList := by
  unfold eventsOf
  cases progress.queued <;> cases progress.sent <;> rfl

@[simp] theorem writtenOf_eventsOf : writtenOf (eventsOf (π := π) sender progress) = [] := by
  unfold eventsOf
  cases progress.queued <;> cases progress.sent <;> rfl

end EventsOf

/-- A step of the send that holds the lock does to the outbox what the outbox says, and nothing to
the drain loop. -/
theorem step_proceed [PackageDecoder σ π] (h : c.step .proceed = some (events, after)) :
    ∃ sender progress, c.outbox.proceed c.now = some (sender, progress) ∧
      events = eventsOf sender progress ∧ after.outbox = progress.outbox ∧
      after.drain = c.drain := by
  simp only [step, stepSend] at h
  split at h
  · cases h
  · rename_i sender progress hproceed
    refine ⟨sender, progress, hproceed, ?_⟩
    split at h
    · rename_i hsent
      cases h
      simp [eventsOf, hsent]
    · rename_i sent hsent
      cases h
      refine ⟨by simp [eventsOf, hsent], ?_⟩
      split
      · unfold replied
        split <;> exact ⟨rfl, rfl⟩
      · exact ⟨rfl, rfl⟩

end Channel

end FramedChannel
