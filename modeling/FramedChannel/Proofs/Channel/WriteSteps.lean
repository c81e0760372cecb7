import FramedChannel.Proofs.Channel.Flush
import FramedChannel.Proofs.Channel.Offers
import FramedChannel.Testbed.Rig

/-!
# A batch is written by steps of the drain loop

`Batch.write` offers a batch to a writer until all is taken, and a channel has a
step for every answer: it goes on by the bytes that were taken, ends the batch,
or fails.  This module shows that a write is made of these steps, for every
writer that takes no more than it is offered.

* `Call.step?` is the step that goes with a call of the writer, and
  `Outcome.step?` the one that ends the batch.
* `Midway` holds of a channel that is in the middle of a batch, and
  `midway_of_moves` says that nothing more has to be asked of a channel that
  came there by its own moves.
* `move_write` is one call that takes bytes, `moves_of_offers` the whole loop, and
  `moves_of_write` a whole write.
* `steps_write` says that a rig, which makes one step of all bytes that a wire
  took, comes to the same.
* `write_of_moves` is the result, for a channel that came to the middle of a
  batch in any way.
-/

namespace FramedChannel

/-! ## The steps of calls -/

namespace Batch

/-- The step of the drain loop that ends a batch of which not all was written.  A loop that has to
wait makes none. -/
def Outcome.stop? : Outcome → Option DrainAction
  | failed fault => some (.fail fault)
  | _ => none

/-- The step of the drain loop that ends a batch. -/
def Outcome.step? : Outcome → Option DrainAction
  | written => some .confirm
  | outcome => outcome.stop?

namespace Call

/-- The step of the drain loop that goes with a call of its writer. -/
def step? : Call → Option DrainAction
  | write _ (.took (count + 1)) => some (.write (count + 1))
  | write slices answer => (write slices answer).ending?.bind Outcome.stop?
  | flush answer => answer.step?

/-- The writer took no more than it was offered. -/
def IsModest : Call → Prop
  | write slices (.took count) => count ≤ size slices
  | _ => True

theorem step?_of_ending? {slices : List Bytes} {answer : Writing} {outcome : Outcome}
    (h : (write slices answer).ending? = some outcome) :
    (write slices answer).step? = outcome.stop? := by
  rcases answer with (_ | count) | _ | fault
  · simp [step?, h]
  · cases h
  · simp [step?, h]
  · simp [step?, h]

end Call

/-- A writer that never takes more than it is offered. -/
def Writer.IsModest {ω : Type} (writer : Writer ω) : Prop :=
  ∀ w slices, (Call.write slices (writer.write w slices).1).IsModest

/-- The moves of a channel that go with some calls of its writer. -/
def movesOf (calls : List Call) : List Move :=
  (calls.filterMap Call.step?).map fun action => .act (.drain action)

/-- The moves of a channel that go with a step of its drain loop, if there is one. -/
def moveOf (step : Option DrainAction) : List Move :=
  step.toList.map fun action => .act (.drain action)

theorem map_act_drain (step : Option DrainAction) :
    (step.toList.map Action.drain).map Move.act = moveOf step :=
  List.map_map

theorem movesOf_cons (call : Call) (calls : List Call) :
    movesOf (call :: calls) = moveOf call.step? ++ movesOf calls := by
  unfold movesOf moveOf
  cases h : call.step? <;> simp [h]

theorem movesOf_append (calls more : List Call) :
    movesOf (calls ++ more) = movesOf calls ++ movesOf more := by
  simp [movesOf]

theorem movesOf_singleton (call : Call) : movesOf [call] = moveOf call.step? := by
  rw [movesOf_cons]
  exact List.append_nil _

end Batch

/-! ## In the middle of a batch -/

/-- The batch that a drain loop writes, and how many of its bytes are written. -/
def Drain.position? : Drain → Option (List Bytes × Nat)
  | writing batch taken | flushing batch taken _ => some (batch, taken)
  | _ => none

/-- The loop with that many bytes of its batch written. -/
def Drain.reach (total : Nat) : Drain → Drain
  | writing batch _ => writing batch total
  | flushing batch _ deadline => flushing batch total deadline
  | d => d

theorem Drain.reach_self {d : Drain} {batch : List Bytes} {taken : Nat}
    (h : d.position? = some (batch, taken)) : d.reach taken = d := by
  cases d <;> cases h <;> rfl

theorem Drain.reach_reach (d : Drain) (taken total : Nat) :
    (d.reach taken).reach total = d.reach total := by
  cases d <;> rfl

theorem Drain.position?_reach {d : Drain} {batch : List Bytes} {taken : Nat}
    (h : d.position? = some (batch, taken)) (total : Nat) :
    (d.reach total).position? = some (batch, total) := by
  cases d <;> cases h <;> rfl

namespace Channel

open Batch

variable {σ π : Type} {c after : Channel σ π} {events : List (Event π)} {batch : List Bytes}
  {taken total : Nat}

/-- The channel with that many bytes of its batch written. -/
def wroteTo (c : Channel σ π) (total : Nat) : Channel σ π :=
  { c with drain := c.drain.reach total }

/-- A started channel is in the middle of a batch that has bytes. -/
structure Midway (c : Channel σ π) (batch : List Bytes) (taken : Nat) : Prop where
  position : c.drain.position? = some (batch, taken)
  started : c.isStarted = true
  filled : size batch ≠ 0
  below : taken ≤ size batch

theorem Midway.wroteTo (h : Midway c batch taken) (hle : total ≤ size batch) :
    Midway (c.wroteTo total) batch total :=
  ⟨Drain.position?_reach h.position total, h.started, h.filled, hle⟩

theorem Midway.wroteTo_self (h : Midway c batch taken) : c.wroteTo taken = c := by
  rw [Channel.wroteTo, Drain.reach_self h.position]

theorem wroteTo_wroteTo (c : Channel σ π) (taken total : Nat) :
    (c.wroteTo taken).wroteTo total = c.wroteTo total := by
  rw [wroteTo, wroteTo, wroteTo, Drain.reach_reach]

theorem Midway.drain (h : Midway c batch taken) :
    c.drain = .writing batch taken ∨ ∃ deadline, c.drain = .flushing batch taken deadline := by
  have hposition := h.position
  cases hdrain : c.drain with
  | writing =>
    rw [hdrain] at hposition
    cases hposition
    exact .inl rfl
  | flushing _ _ deadline =>
    rw [hdrain] at hposition
    cases hposition
    exact .inr ⟨deadline, rfl⟩
  | idle | shutting | ended =>
    rw [hdrain] at hposition
    cases hposition

/-- A step of the drain loop that comes to the middle of a batch began in the middle of it or took
the batch. -/
theorem midway_of_drained {o o' : Outbox} {d d' : Drain} {action : DrainAction}
    (h : Drained o action d events o' d') (hposition : d'.position? = some (batch, taken)) :
    (size batch ≠ 0 ∧ taken = 0) ∨
      ∃ before, d.position? = some (batch, before) ∧
        (before ≤ size batch → taken ≤ size batch) := by
  cases h with
  | took hsize | flushes _ hsize =>
    cases hposition
    exact .inl ⟨hsize, rfl⟩
  | wrote hfits | flushed _ hfits =>
    cases hposition
    exact .inr ⟨_, rfl, fun _ => hfits.2⟩
  | _ => cases hposition

variable [PackageDecoder σ π]

theorem started_of_drain {action : DrainAction}
    (h : c.move (.act (.drain action)) = some (events, after)) : c.isStarted = true := by
  simp only [Channel.move, step] at h
  split at h
  · assumption
  · cases h

/-- A channel that came to the middle of a batch is started, and the batch has bytes. -/
theorem midway_of_moves {decoder : σ} {options : ConnectionOptions} {remote : Option Socket}
    {moves : List Move} (hassemble : assemble decoder options remote = .ok c)
    (hmoves : c.moves moves = some (events, after))
    (hposition : after.drain.position? = some (batch, taken)) : Midway after batch taken := by
  refine moves_induction (P := fun _ _ after => ∀ batch taken,
    after.drain.position? = some (batch, taken) → Midway after batch taken) ?_ ?_ hmoves _ _
    hposition
  · obtain rfl := eq_of_assemble hassemble
    intro batch taken hposition
    cases hposition
  · intro moves events middle move more after _ h hmove batch taken hposition
    have hstage : middle.isStarted = true → after.isStarted = true := by
      intro hstarted
      have hstarted : middle.stage = .started := by simpa [isStarted] using hstarted
      obtain hsame | hassembled := stage_move hmove
      · simp [isStarted, hsame, hstarted]
      · rw [hstarted] at hassembled
        cases hassembled
    obtain ⟨_, hsame⟩ | ⟨action, rfl, hdrained⟩ := drained_of_move hmove
    · rw [hsame] at hposition
      have hmiddle := h batch taken hposition
      exact ⟨hsame ▸ hposition, hstage hmiddle.started, hmiddle.filled, hmiddle.below⟩
    · have hstarted := hstage (started_of_drain hmove)
      obtain ⟨hsize, rfl⟩ | ⟨before, hbefore, hle⟩ := midway_of_drained hdrained hposition
      · exact ⟨hposition, hstarted, hsize, Nat.zero_le _⟩
      · have hmiddle := h batch before hbefore
        exact ⟨hposition, hstarted, hmiddle.filled, hle hmiddle.below⟩

/-! ## One call -/

theorem move_drain (h : Midway c batch taken) (action : DrainAction) :
    c.move (.act (.drain action)) = c.stepDrain action := by
  simp only [Channel.move, step, h.started, if_true]

/-- The transport takes some bytes of the batch. -/
theorem move_write {count : Nat} (h : Midway c batch taken) (hfits : fits batch taken count) :
    c.move (.act (.drain (.write count))) =
      some ([.written (piece batch taken count)], c.wroteTo (taken + count)) := by
  rw [move_drain h]
  obtain hdrain | ⟨deadline, hdrain⟩ := h.drain <;>
    simp only [stepDrain, hdrain, if_pos hfits, wroteTo, Drain.reach]

/-- The transport passes on all of the batch. -/
theorem exists_move_confirm (h : Midway c batch taken) (hall : taken = size batch) :
    ∃ after, c.move (.act (.drain .confirm)) = some ([], after) := by
  rw [move_drain h]
  obtain hdrain | ⟨deadline, hdrain⟩ := h.drain <;> simp [stepDrain, hdrain, hall]

/-- The transport fails. -/
theorem exists_move_fail (h : Midway c batch taken) (fault : TransportFault) :
    ∃ after, c.move (.act (.drain (.fail fault))) = some ([], after) := by
  rw [move_drain h]
  obtain hdrain | ⟨deadline, hdrain⟩ := h.drain <;> simp [stepDrain, hdrain]

theorem exists_moves_stop (h : Midway c batch taken) (outcome : Outcome) :
    ∃ after, c.moves (moveOf outcome.stop?) = some ([], after) := by
  cases outcome with
  | written | blocked => exact ⟨c, rfl⟩
  | failed fault =>
    obtain ⟨after, hmove⟩ := exists_move_fail h fault
    exact ⟨after, moves_cons hmove rfl⟩

theorem exists_moves_step (h : Midway c batch taken) (hall : taken = size batch)
    (answer : Outcome) : ∃ after, c.moves (moveOf answer.step?) = some ([], after) := by
  cases answer with
  | written =>
    obtain ⟨after, hmove⟩ := exists_move_confirm h hall
    exact ⟨after, moves_cons hmove rfl⟩
  | blocked => exact exists_moves_stop h .blocked
  | failed fault => exact exists_moves_stop h (.failed fault)

/-! ## All calls of a write -/

variable {ω : Type}

/-- The loop over the calls of a writer comes to the steps that go with them: the writer takes what
these write, and the channel ends as if it had written all at once. -/
theorem moves_of_offers {writer : Writer ω} {w w' : ω} {calls : List Call} {outcome : Outcome}
    (hoffers : Offers writer batch taken w calls outcome total w') (hwriter : writer.IsModest)
    (h : Midway c batch taken) :
    ∃ (events : List (Event π)) (after : Channel σ π),
      c.moves (movesOf calls) = some (events, after) ∧ writtenOf events = received calls ∧
        (c.wroteTo total).moves (moveOf outcome.stop?) = some ([], after) ∧
        total ≤ size batch := by
  induction hoffers generalizing c with
  | done => exact ⟨[], c, rfl, rfl, by rw [h.wroteTo_self]; rfl, h.below⟩
  | @stops taken w _ answer outcome hlt hwrite hends =>
    obtain ⟨after, hmove⟩ := exists_moves_stop h outcome
    refine ⟨[], after, ?_, ?_, ?_, h.below⟩
    · rw [movesOf_singleton, Call.step?_of_ending? hends, hmove]
    · rw [received_cons, Call.took_of_ending? hends]
      rfl
    · rw [h.wroteTo_self, hmove]
  | @goesOn taken count total w _ _ calls outcome hlt hwrite hrest ih =>
    -- The slices that are offered are what is left of the batch, so the step can be made.
    have hleft : count + 1 ≤ size batch - taken := by
      have hmodest := hwriter w (remaining batch taken)
      rw [hwrite] at hmodest
      rwa [Call.IsModest, ← length_flatten, flatten_remaining, List.length_drop,
        length_flatten] at hmodest
    have hfits : fits batch taken (count + 1) := ⟨Nat.succ_pos _, by have := h.below; omega⟩
    have hmove := move_write h hfits
    obtain ⟨events, after, hmoves, hwritten, hstop, hle⟩ := ih (h.wroteTo hfits.2)
    rw [wroteTo_wroteTo] at hstop
    refine ⟨.written (piece batch taken (count + 1)) :: events, after, ?_, ?_, hstop, hle⟩
    · rw [movesOf_cons]
      exact moves_cons hmove hmoves
    · rw [received_cons, ← hwritten, Call.took, flatten_remaining]
      rfl

/-- A write of the batch that a channel is in the middle of is made of the steps that go with the
calls of the writer.  They are the steps of a channel that writes at once all that the writer took,
and ends the batch as the write ended. -/
theorem moves_of_write {writer : Writer ω} (hwriter : writer.IsModest)
    (h : Midway c batch taken) (w : ω) :
    ∃ (calls : List Call) (outcome : Outcome) (total : Nat) (w' : ω) (events : List (Event π))
      (after : Channel σ π),
      Batch.write writer.logged batch taken ([], w) = (outcome, total, calls, w') ∧
        Batch.write writer batch taken w = (outcome, total, w') ∧
        c.moves (movesOf calls) = some (events, after) ∧ writtenOf events = received calls ∧
        received calls = piece batch taken (total - taken) ∧
        (c.wroteTo total).moves (moveOf outcome.step?) = some ([], after) ∧
        taken ≤ total ∧ total ≤ size batch := by
  obtain ⟨calls, outcome, total, w', hoffers⟩ := exists_offers writer batch taken w
  obtain ⟨events, after, hmoves, hwritten, hstop, hle⟩ := moves_of_offers hoffers hwriter h
  have hlogged : offer writer.logged batch taken ([], w) = (outcome, total, calls, w') :=
    hoffers.offer_logged []
  cases outcome with
  | blocked | failed =>
    exact ⟨calls, _, total, w', events, after, write_of_offer h.filled hlogged (by simp),
      write_of_offer h.filled hoffers.offer_eq (by simp), hmoves, hwritten, hoffers.received_eq,
      hstop, hoffers.le_total, hle⟩
  | written =>
    rcases hflush : writer.flush w' with ⟨answer, final⟩
    -- The loop makes no step of its own when all is taken.
    cases hstop
    have hall : total = size batch := by
      obtain ⟨-, hge⟩ | ⟨slices, answer, -, hends⟩ := hoffers.written_or_ends
      · exact Nat.le_antisymm hle hge
      · exact absurd hends (Call.ending?_ne_written _)
    obtain ⟨last, hlast⟩ := exists_moves_step (h.wroteTo hle) hall answer
    refine ⟨calls ++ [.flush answer], answer, total, final, events, last,
      write_of_flush h.filled hlogged (logged_flush hflush calls),
      write_of_flush h.filled hoffers.offer_eq hflush, ?_, ?_, ?_, hlast, hoffers.le_total, hle⟩
    · rw [movesOf_append, movesOf_singleton]
      have hboth := moves_append hmoves hlast
      rwa [List.append_nil] at hboth
    · rw [received_concat_flush, hwritten]
    · rw [received_concat_flush, hoffers.received_eq, piece]

/-! ## The writes of a rig -/

/-- A wire takes no more than it is offered. -/
theorem isModest_wire : Testbed.Wire.writer.IsModest := by
  intro w slices
  cases w with
  | duplex incoming outgoing =>
    simp only [Testbed.Wire.writer, Testbed.Wire.write]
    split
    · trivial
    · split
      · trivial
      · simp only [Call.IsModest, Testbed.Pipe.write, ← length_flatten]
        exact Nat.min_le_right _ _
  | script s =>
    simp only [Testbed.Wire.writer, Testbed.Wire.write, Testbed.Script.write]
    split
    · trivial
    · simp only [Call.IsModest, Testbed.Script.accepts, ← length_flatten]
      cases s.writeLimit with
      | none => exact Nat.min_le_left _ _
      | some limit => exact Nat.le_trans (Nat.min_le_left _ _) (Nat.min_le_left _ _)

omit [PackageDecoder σ π] in
/-- The actions of a rig that writes. -/
theorem actions_write {w w' : Testbed.Wire} {outcome : Outcome} (h : Midway c batch taken)
    (hwrite : Batch.write Testbed.Wire.writer batch taken w = (outcome, total, w')) :
    Testbed.actions c w .write =
      ((if taken < total then [.drain (.write (total - taken))] else []) ++
        outcome.step?.toList.map .drain, w') := by
  obtain hdrain | ⟨deadline, hdrain⟩ := h.drain <;>
    cases outcome <;> simp only [Testbed.actions, hdrain, hwrite] <;> rfl

/-- A rig makes one step of all bytes that its wire takes.  It comes to the same as the steps that
go with the calls. -/
theorem steps_write (h : Midway c batch taken) (w : Testbed.Wire) :
    ∃ (calls : List Call) (outcome : Outcome) (total : Nat) (w' : Testbed.Wire)
      (events more : List (Event π)) (after : Channel σ π),
      Batch.write Testbed.Wire.writer.logged batch taken ([], w) = (outcome, total, calls, w') ∧
        (Testbed.actions c w .write).2 = w' ∧
        c.moves (movesOf calls) = some (events, after) ∧
        c.steps (Testbed.actions c w .write).1 = some (more, after) ∧
        writtenOf more = writtenOf events := by
  obtain ⟨calls, outcome, total, w', events, after, hlogged, hwrite, hmoves, hwritten, hreceived,
    hlast, hle, hsize⟩ := moves_of_write isModest_wire h w
  rw [actions_write h hwrite, ← moves_map_act, List.map_append, map_act_drain]
  obtain rfl | hlt := Nat.eq_or_lt_of_le hle
  · rw [h.wroteTo_self] at hlast
    refine ⟨calls, outcome, taken, w', events, [], after, hlogged, rfl, hmoves, ?_, ?_⟩
    · rwa [if_neg (Nat.lt_irrefl taken)]
    · rw [hwritten, hreceived, Nat.sub_self, piece, List.take_zero]
      rfl
  · have hfits : fits batch taken (total - taken) := ⟨Nat.sub_pos_of_lt hlt, by omega⟩
    have hmove := move_write h hfits
    rw [Nat.add_sub_cancel' hle] at hmove
    refine ⟨calls, outcome, total, w', events, [.written (piece batch taken (total - taken))],
      after, hlogged, rfl, hmoves, ?_, ?_⟩
    · rw [if_pos hlt]
      exact moves_cons hmove hlast
    · rw [writtenOf_singleton, hwritten, hreceived]

/-! ## The writes of a channel -/

/-- Whenever a channel is in the middle of a batch, a write of what is left of it, by any writer
that takes no more than it is offered, is made of the steps of the channel that go with the
calls. -/
theorem write_of_moves {decoder : σ} {options : ConnectionOptions} {remote : Option Socket}
    {moves : List Move} (hassemble : assemble decoder options remote = .ok c)
    (hmoves : c.moves moves = some (events, after))
    (hposition : after.drain.position? = some (batch, taken)) {writer : Writer ω}
    (hwriter : writer.IsModest) (w : ω) :
    ∃ (calls : List Call) (outcome : Outcome) (total : Nat) (w' : ω) (more : List (Event π))
      (last : Channel σ π),
      Batch.write writer.logged batch taken ([], w) = (outcome, total, calls, w') ∧
        c.moves (moves ++ movesOf calls) = some (events ++ more, last) ∧
        writtenOf more = received calls ∧
        (after.wroteTo total).moves (moveOf outcome.step?) = some ([], last) := by
  have h := midway_of_moves hassemble hmoves hposition
  obtain ⟨calls, outcome, total, w', more, last, hlogged, -, hcalls, hwritten, -, hlast, -⟩ :=
    moves_of_write hwriter h w
  exact ⟨calls, outcome, total, w', more, last, hlogged, moves_append hmoves hcalls, hwritten,
    hlast⟩

end Channel

end FramedChannel
