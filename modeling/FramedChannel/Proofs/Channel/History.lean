import Mathlib.Data.List.Induction
import FramedChannel.Channel.Move

/-!
# Histories of a channel

The moves of a channel can be cut in two, and what holds of all of them is shown
by induction from the front: `moves_induction` adds one move behind a history
that is already known.
-/

namespace FramedChannel.Channel

variable {σ π : Type} [PackageDecoder σ π] {c after : Channel σ π} {events : List (Event π)}
  {moves : List Move}

/-- What a channel is that was just assembled. -/
theorem eq_of_assemble {decoder : σ} {options : ConnectionOptions} {remote : Option Socket}
    (h : assemble decoder options remote = .ok c) :
    c = { options, remote, outbox := .of options,
          reassembly := .of decoder options.maxPackageLength } := by
  unfold assemble at h
  cases hqueue : checkQueue options.sendQueueCapacity with
  | error breach =>
    rw [hqueue] at h
    cases h
  | ok =>
    rw [hqueue] at h
    exact (Except.ok.inj h).symm

/-- Moves behind other moves go on where these ended. -/
theorem moves_append_eq_some {later : List Move}
    (h : c.moves (moves ++ later) = some (events, after)) :
    ∃ first middle more, c.moves moves = some (first, middle) ∧
      middle.moves later = some (more, after) ∧ events = first ++ more := by
  induction moves generalizing c events with
  | nil => exact ⟨[], c, events, rfl, h, rfl⟩
  | cons move rest ih =>
    simp only [List.cons_append, Channel.moves, Option.bind_eq_bind, Option.bind_eq_some_iff] at h
    obtain ⟨⟨begun, reached⟩, hmove, ⟨others, last⟩, hrest, hsame⟩ := h
    cases hsame
    obtain ⟨first, middle, more, hfirst, hlater, rfl⟩ := ih hrest
    refine ⟨begun ++ first, middle, more, ?_, hlater, (List.append_assoc ..).symm⟩
    simp [Channel.moves, hmove, hfirst]

/-- A move in front of other moves. -/
theorem moves_cons {middle : Channel σ π} {move : Move} {first more : List (Event π)}
    (h : c.move move = some (first, middle)) (h' : middle.moves moves = some (more, after)) :
    c.moves (move :: moves) = some (first ++ more, after) := by
  simp [Channel.moves, h, h']

/-- Histories that meet make one. -/
theorem moves_append {middle : Channel σ π} {later : List Move} {more : List (Event π)}
    (h : c.moves moves = some (events, middle)) (h' : middle.moves later = some (more, after)) :
    c.moves (moves ++ later) = some (events ++ more, after) := by
  induction moves generalizing c events with
  | nil =>
    cases h
    exact h'
  | cons move rest ih =>
    simp only [Channel.moves, Option.bind_eq_bind, Option.bind_eq_some_iff] at h
    obtain ⟨⟨begun, reached⟩, hmove, ⟨others, last⟩, hrest, hsame⟩ := h
    cases hsame
    rw [List.append_assoc]
    exact moves_cons hmove (ih hrest)

/-- The history of one move. -/
theorem moves_singleton {move : Move} (h : c.moves [move] = some (events, after)) :
    c.move move = some (events, after) := by
  simp only [Channel.moves, Option.bind_eq_bind, Option.bind_eq_some_iff] at h
  obtain ⟨⟨first, middle⟩, hmove, ⟨more, last⟩, hnone, hsame⟩ := h
  cases hnone
  cases hsame
  rw [hmove, List.append_nil]

/-- What holds in the beginning, and behind every move if it held in front of it, holds behind all
moves. -/
theorem moves_induction {P : List Move → List (Event π) → Channel σ π → Prop} (hnil : P [] [] c)
    (hmove : ∀ {moves : List Move} {events : List (Event π)} {middle : Channel σ π} {move : Move}
      {more : List (Event π)} {after : Channel σ π},
      c.moves moves = some (events, middle) → P moves events middle →
        middle.move move = some (more, after) → P (moves ++ [move]) (events ++ more) after)
    (h : c.moves moves = some (events, after)) : P moves events after := by
  induction moves using List.reverseRecOn generalizing events after with
  | nil =>
    cases h
    exact hnil
  | append_singleton moves move ih =>
    obtain ⟨first, middle, more, hfirst, hlast, rfl⟩ := moves_append_eq_some h
    exact hmove hfirst (ih hfirst) (moves_singleton hlast)

/-! ## The stage -/

omit [PackageDecoder σ π] in
theorem stage_abort (c : Channel σ π) (reason : CloseReason) :
    (c.abort reason).2.stage = c.stage ∨ c.stage = .assembled := by
  unfold abort
  dsimp only
  split
  · rename_i hstage
    exact .inr hstage
  · exact .inl rfl

omit [PackageDecoder σ π] in
theorem stage_start (c : Channel σ π) : c.start.2.stage = c.stage ∨ c.stage = .assembled := by
  unfold start
  split
  · rename_i hstage
    exact .inr hstage
  · exact .inl rfl

omit [PackageDecoder σ π] in
theorem stage_run (c : Channel σ π) : c.run.2.stage = c.stage ∨ c.stage = .assembled := by
  have hstart := stage_start c
  unfold run
  split
  · split <;> rename_i hstarted <;> rw [hstarted] at hstart <;> exact hstart
  · exact .inl rfl

omit [PackageDecoder σ π] in
theorem stage_stepSend (h : c.stepSend = some (events, after)) : after.stage = c.stage := by
  unfold stepSend at h
  split at h
  · cases h
  · dsimp only at h
    split at h
    · cases h
      rfl
    · cases h
      split
      · unfold replied
        split <;> rfl
      · rfl

omit [PackageDecoder σ π] in
theorem stage_stepDrain {action : DrainAction} (h : c.stepDrain action = some (events, after)) :
    after.stage = c.stage := by
  have hbatch : ∀ (c : Channel σ π) (batch : List Bytes), (c.beginBatch batch).stage = c.stage := by
    intro c batch
    unfold beginBatch
    split <;> rfl
  cases action with
  | take =>
    simp only [stepDrain] at h
    repeat' split at h
    all_goals cases h
    exact hbatch _ _
  | _ =>
    simp only [stepDrain] at h
    repeat' split at h
    all_goals cases h
    all_goals rfl

theorem stage_stepFill {action : FillAction} (h : c.stepFill action = some (events, after)) :
    after.stage = c.stage := by
  unfold stepFill at h
  repeat' split at h
  all_goals cases h
  all_goals rfl

/-- A channel that was started or dropped stays so. -/
theorem stage_move {move : Move} (h : c.move move = some (events, after)) :
    after.stage = c.stage ∨ c.stage = .assembled := by
  cases move with
  | giveUp call =>
    cases h
    exact .inl rfl
  | act action =>
    change c.step action = some (events, after) at h
    cases action with
    | start =>
      have hstart := stage_start c
      simp only [step, Option.some.injEq, Prod.mk.injEq] at h
      obtain ⟨rfl, rfl⟩ := h
      exact hstart
    | run =>
      have hrun := stage_run c
      simp only [step, Option.some.injEq, Prod.mk.injEq] at h
      obtain ⟨rfl, rfl⟩ := h
      exact hrun
    | abort reason =>
      have habort := stage_abort c reason
      rw [show c.abort reason = (events, after) from Option.some.inj h] at habort
      exact habort
    | close call reason =>
      have habort := stage_abort c reason
      simp only [step, close, Option.some.injEq, Prod.mk.injEq] at h
      obtain ⟨rfl, rfl⟩ := h
      exact habort
    | proceed => exact .inl (stage_stepSend h)
    | fill action =>
      simp only [step] at h
      split at h
      · exact .inl (stage_stepFill h)
      · cases h
    | drain action =>
      simp only [step] at h
      split at h
      · exact .inl (stage_stepDrain h)
      · cases h
    | _ =>
      simp only [step, stepSupervisor, stepReader, stepCloser, Channel.send, collect, finish] at h
      repeat' split at h
      all_goals cases h
      all_goals exact .inl rfl

theorem dropped_of_move {move : Move} (h : c.move move = some (events, after))
    (hdropped : c.stage = .dropped) : after.stage = .dropped := by
  obtain hsame | hassembled := stage_move h
  · exact hsame.trans hdropped
  · rw [hdropped] at hassembled
    cases hassembled

end FramedChannel.Channel
