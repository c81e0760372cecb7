import FramedChannel.Proofs.Channel.Flush

/-!
# The slots of a channel

Every slot that is taken belongs to a chunk in the queue, to a chunk in the
batch, to the send that is about to put its chunk in the queue, or it is lost.
Slots are lost with the chunks that are still in the queue when a drain loop
breaks off in the middle of a batch, or when a channel is closed before it was
started, and with a call that is dropped while it has a slot.

* `Channel.held` counts the slots that somebody will give back, and
  `Channel.forfeited` those that nobody will.
* `Slotting` lists all that a move can do to the slots, and `move_slotting` says
  that the list is complete.
* `Slotted` is the invariant, and `moves_slots` and `moves_given_back` the
  results.
* `moves_slots_sentThenDropped` and `moves_given_back_closedMidway` are runs in
  which slots are lost.
-/

namespace FramedChannel

variable {σ π : Type}

/-! ## Whose the slots are -/

/-- The batch that a drain loop writes. -/
def Drain.batch : Drain → List Bytes
  | writing batch _ | flushing batch _ _ => batch
  | _ => []

/-- A step with which the drain loop breaks a batch off. -/
def DrainAction.breaksOff : DrainAction → Bool
  | fail _ | abandon => true
  | _ => false

namespace Outbox

/-- The sends that have a slot and have yet to put their chunk in the queue.  That can only be the
one that holds the lock. -/
def reserved (o : Outbox) : Nat :=
  match o.holder with
  | some ⟨_, .queueing ..⟩ => 1
  | _ => 0

/-- The slots that will be given back. -/
def held (o : Outbox) (d : Drain) : Nat :=
  o.queue.length + d.batch.length + o.reserved

variable (o : Outbox)

theorem reserved_le_one : o.reserved ≤ 1 := by
  unfold reserved
  split <;> decide

theorem reserved_of_free (h : o.holder = none) : o.reserved = 0 := by
  rw [reserved, h]

theorem slots_enter (send : Send) :
    (o.enter send).slots = o.slots ∧ (o.enter send).reserved = o.reserved := by
  unfold enter
  split
  · rename_i hholder
    exact ⟨rfl, (o.reserved_of_free hholder).symm⟩
  · exact ⟨rfl, rfl⟩

theorem slots_leave : o.leave.slots = o.slots ∧ o.leave.reserved = 0 := by
  unfold leave
  split <;> exact ⟨rfl, rfl⟩

/-- Sends that are let in take no slot yet. -/
theorem held_enter (d : Drain) (send : Send) :
    (o.enter send).slots = o.slots ∧ (o.enter send).held d = o.held d := by
  obtain ⟨hslots, hreserved⟩ := o.slots_enter send
  refine ⟨hslots, ?_⟩
  rw [held, held, hreserved, (queue_enter o send).1]

/-- The send that leaves no longer has a slot of its own. -/
theorem held_leave (d : Drain) :
    o.leave.slots = o.slots ∧ o.leave.held d + o.reserved = o.held d := by
  obtain ⟨hslots, hreserved⟩ := o.slots_leave
  refine ⟨hslots, ?_⟩
  rw [held, held, hreserved, (queue_leave o).1]
  rfl

end Outbox

namespace Channel

/-- The slots of the chunks in the queue and in the batch, and of the send that has yet to put its
chunk in the queue. -/
def held (c : Channel σ π) : Nat :=
  c.outbox.held c.drain

/-- The slots that are lost with a move. -/
def forfeits (c : Channel σ π) : Move → Nat
  | .act (.abort _) | .act (.close _ _) =>
    if c.stage = .assembled then c.outbox.queue.length else 0
  | .act (.drain action) => if action.breaksOff then c.outbox.queue.length else 0
  | .giveUp call => if c.outbox.isHeldBy call then c.outbox.reserved else 0
  | _ => 0

/-- The slots that are lost with some moves. -/
def forfeited [PackageDecoder σ π] (c : Channel σ π) : List Move → Nat
  | [] => 0
  | move :: rest =>
    match c.move move with
    | none => 0
    | some (_, after) => c.forfeits move + after.forfeited rest

/-! ## All that a move can do -/

/-- What happens to the slots when an outbox and a drain loop become others and some slots are
lost. -/
inductive Slotting (o : Outbox) (d : Drain) (lost : Nat) (o' : Outbox) (d' : Drain) : Prop where
  | keeps (hslots : o'.slots = o.slots) (hheld : o'.held d' + lost = o.held d)
  | takes (hslots : o.slots.take? = some o'.slots) (hheld : o'.held d' + lost = o.held d + 1)
  | gives (count : Nat) (hslots : o'.slots = o.slots.release count)
      (hheld : o'.held d' + count + lost = o.held d)

variable {c after : Channel σ π} {events more : List (Event π)} {moves : List Move} {move : Move}

/-- A drain loop loses what is behind a batch that it breaks off. -/
theorem Drained.slotting {o o' : Outbox} {d d' : Drain} {action : DrainAction}
    (h : Drained o action d events o' d') (hdry : d.isClosing = true → o.queue = []) :
    Slotting o d (if action.breaksOff then o.queue.length else 0) o' d' := by
  cases h with
  | took =>
    refine .keeps rfl ?_
    simp only [DrainAction.breaksOff, Outbox.held, Drain.batch, List.length_take, List.length_drop]
    show _ + _ + o.reserved + 0 = _ + 0 + o.reserved
    omega
  | skipped =>
    refine .gives _ rfl ?_
    simp only [DrainAction.breaksOff, Outbox.held, Drain.batch, Outbox.release, List.length_take,
      List.length_drop]
    show _ + 0 + o.reserved + _ + 0 = _ + 0 + o.reserved
    omega
  | wrote | flushed => exact .keeps rfl rfl
  | confirmed | passed =>
    refine .gives _ rfl ?_
    simp only [Outbox.held, Drain.batch]
    show o.queue.length + 0 + o.reserved + _ + 0 = o.queue.length + _ + o.reserved
    omega
  | broke haction =>
    have hbreaks : action.breaksOff = true := by
      obtain rfl | ⟨fault, rfl⟩ := haction <;> rfl
    refine .gives _ rfl ?_
    rw [hbreaks, if_pos rfl]
    simp only [Outbox.held, Drain.batch]
    show 0 + 0 + o.reserved + _ + o.queue.length = o.queue.length + _ + o.reserved
    omega
  | flushes =>
    refine .keeps rfl ?_
    show 0 + o.queue.length + o.reserved + 0 = o.queue.length + 0 + o.reserved
    omega
  | shuts =>
    refine .gives _ rfl ?_
    show 0 + 0 + o.reserved + o.queue.length + 0 = o.queue.length + 0 + o.reserved
    omega
  | cut =>
    -- The queue was flushed into the batch, and nothing came behind it.
    have hempty : o.queue.length = 0 := List.length_eq_zero_iff.2 (hdry rfl)
    refine .gives _ rfl ?_
    rw [hempty, ite_self]
    simp only [Outbox.held, Drain.batch]
    show o.queue.length + 0 + o.reserved + _ + 0 = o.queue.length + _ + o.reserved
    omega
  | shutDown | unshut =>
    have hempty : o.queue.length = 0 := List.length_eq_zero_iff.2 (hdry rfl)
    rw [hempty, ite_self]
    refine .keeps rfl ?_
    show 0 + 0 + o.reserved + 0 = o.queue.length + 0 + o.reserved
    omega

/-- The send that holds the lock takes a slot before it puts its chunk in the queue, and gives it
back if it cannot. -/
theorem proceed_slotting {o : Outbox} {now : Nat} {sender : Sender} {progress : Outbox.Progress}
    (d : Drain) (h : o.proceed now = some (sender, progress)) :
    Slotting o d 0 progress.outbox d := by
  unfold Outbox.proceed at h
  split at h
  · cases h
  · rename_i holder hholder
    obtain ⟨progress', hproceed, hsame⟩ := Option.map_eq_some_iff.1 h
    cases hsame
    obtain ⟨sender, holding⟩ := holder
    have hreserved : ∀ o' : Outbox, o'.holder = o.holder → o'.reserved = o.reserved := by
      intro o' hsame
      rw [Outbox.reserved, Outbox.reserved, hsame]
    cases holding with
    | entered load =>
      have hnone : o.reserved = 0 := by rw [Outbox.reserved, hholder]
      cases load with
      | chunk bytes =>
        cases hproceed
        refine .keeps rfl ?_
        simp [Outbox.held, Outbox.holdingOn, Outbox.reserved, hholder]
      | written bytes fault =>
        simp only [Outbox.proceedFrom] at hproceed
        obtain ⟨hslots, hheld⟩ := Outbox.held_leave { o with scratch := [] } d
        rw [hreserved { o with scratch := [] } rfl, hnone] at hheld
        repeat' split at hproceed
        all_goals cases hproceed
        · exact .keeps hslots hheld
        · exact .keeps hslots hheld
        · refine .keeps rfl ?_
          simp [Outbox.held, Outbox.holdingOn, Outbox.reserved, hholder]
    | reserving chunk deadline before =>
      have hnone : o.reserved = 0 := by rw [Outbox.reserved, hholder]
      simp only [Outbox.proceedFrom] at hproceed
      split at hproceed
      · rename_i slots htake
        cases hproceed
        refine .takes htake ?_
        simp [Outbox.held, Outbox.holdingOn, Outbox.reserved, hholder]
      · split at hproceed <;> cases hproceed
        obtain ⟨hslots, hheld⟩ := o.held_leave d
        rw [hnone] at hheld
        exact .keeps hslots hheld
    | queueing chunk before =>
      have hone : o.reserved = 1 := by rw [Outbox.reserved, hholder]
      simp only [Outbox.proceedFrom] at hproceed
      repeat' split at hproceed
      all_goals cases hproceed
      · obtain ⟨hslots, hheld⟩ := (o.release 1).held_leave d
        rw [hreserved (o.release 1) rfl, hone] at hheld
        exact .gives 1 hslots hheld
      · obtain ⟨hslots, hheld⟩ := Outbox.held_leave { o with queue := o.queue ++ [chunk] } d
        rw [hreserved { o with queue := o.queue ++ [chunk] } rfl, hone] at hheld
        refine .keeps hslots ?_
        simp only [Outbox.held, List.length_append, List.length_singleton] at hheld ⊢
        have hsame : Outbox.reserved { o with queue := o.queue ++ [chunk] } = o.reserved := rfl
        simp only [Outbox.returning]
        omega

/-- The outbox behind a move that is none of the drain loop and none of the send that has the
lock. -/
def outboxBeside (c : Channel σ π) : Move → Outbox
  | .act (.abort _) | .act (.close _ _) =>
    if c.stage = .assembled then c.outbox.discard else c.outbox
  | .act action => (c.admits action).foldl Outbox.enter c.outbox
  | .giveUp call => c.outbox.giveUp call

theorem abort_outbox (c : Channel σ π) (reason : CloseReason) :
    (c.abort reason).2.outbox =
      if c.stage = .assembled then c.outbox.discard else c.outbox := by
  unfold abort
  dsimp only
  split
  · rename_i hstage
    rw [if_pos hstage, finish_eq]
  · rename_i hstage
    rw [if_neg hstage]

theorem stepFill_outbox [PackageDecoder σ π] {action : FillAction}
    (h : c.stepFill action = some (events, after)) :
    after.outbox = (c.admits (.fill action)).foldl Outbox.enter c.outbox := by
  cases action with
  | reply =>
    simp only [stepFill] at h
    split at h
    · rename_i bytes rest ending hfill
      simp only [admits, hfill]
      split at h
      · rename_i hclosing
        cases h
        rw [if_pos hclosing]
        rfl
      · rename_i hopen
        cases h
        rw [if_neg hopen]
        rfl
    · cases h
  | _ =>
    simp only [stepFill] at h
    repeat' split at h
    all_goals cases h
    all_goals rfl

/-- A move that is none of the drain loop and none of the send that has the lock only lets sends
in, drops a call, or drops a channel that was not started. -/
theorem move_outbox [PackageDecoder σ π] (h : c.move move = some (events, after))
    (hdrain : ∀ action, move ≠ .act (.drain action)) (hproceed : move ≠ .act .proceed) :
    after.outbox = c.outboxBeside move := by
  cases move with
  | giveUp call =>
    cases h
    rfl
  | act action =>
    change c.step action = some (events, after) at h
    cases action with
    | proceed => exact absurd rfl hproceed
    | drain action => exact absurd rfl (hdrain action)
    | abort reason =>
      have habort := abort_outbox c reason
      rw [show c.abort reason = (events, after) from Option.some.inj h] at habort
      exact habort
    | close call reason =>
      have habort := abort_outbox c reason
      simp only [step, close, Option.some.injEq, Prod.mk.injEq] at h
      obtain ⟨rfl, rfl⟩ := h
      exact habort
    | run =>
      simp only [step, Option.some.injEq, Prod.mk.injEq] at h
      obtain ⟨rfl, rfl⟩ := h
      exact (run_effect c).1
    | send send =>
      simp only [step, Channel.send, Option.some.injEq] at h
      simp only [outboxBeside, admits]
      split at h
      · rename_i hclosing
        cases h
        rw [if_pos hclosing]
        rfl
      · rename_i hopen
        cases h
        rw [if_neg hopen]
        rfl
    | fill action =>
      simp only [step] at h
      split at h
      · exact stepFill_outbox h
      · cases h
    | _ =>
      simp only [step, start, stepSupervisor, stepReader, stepCloser, collect, finish] at h
      repeat' split at h
      all_goals cases h
      all_goals rfl

/-- All that a move can do to the outbox and the drain loop. -/
theorem outbox_cases [PackageDecoder σ π] (h : c.move move = some (events, after)) :
    (∃ sender progress, move = .act .proceed ∧ c.outbox.proceed c.now = some (sender, progress) ∧
      after.outbox = progress.outbox ∧ after.drain = c.drain) ∨
    (∃ action, move = .act (.drain action) ∧
      Drained c.outbox action c.drain events after.outbox after.drain) ∨
    ((∀ action, move ≠ .act (.drain action)) ∧ after.outbox = c.outboxBeside move ∧
      after.drain = c.drain) := by
  by_cases hproceed : move = .act .proceed
  · subst hproceed
    obtain ⟨sender, progress, hstep, _, houtbox, hdrain⟩ := step_proceed h
    exact .inl ⟨sender, progress, rfl, hstep, houtbox, hdrain⟩
  · obtain ⟨hother, hdrain⟩ | ⟨action, hloop, hdrained⟩ := drained_of_move h
    · exact .inr (.inr ⟨hother, move_outbox h hother hproceed, hdrain⟩)
    · exact .inr (.inl ⟨action, hloop, hdrained⟩)

/-- Sends that are let in take no slot yet. -/
theorem foldl_enter_slotting (o : Outbox) (d : Drain) (sends : List Send) :
    Slotting o d 0 (sends.foldl Outbox.enter o) d := by
  have hsame : (sends.foldl Outbox.enter o).slots = o.slots ∧
      (sends.foldl Outbox.enter o).held d = o.held d := by
    induction sends generalizing o with
    | nil => exact ⟨rfl, rfl⟩
    | cons send rest ih =>
      obtain ⟨hslots, hheld⟩ := o.held_enter d send
      obtain ⟨hslots', hheld'⟩ := ih (o.enter send)
      exact ⟨hslots'.trans hslots, hheld'.trans hheld⟩
  exact .keeps hsame.1 hsame.2

/-- A call that is dropped with a slot keeps it. -/
theorem giveUp_slotting (o : Outbox) (d : Drain) (call : Nat) :
    Slotting o d (if o.isHeldBy call then o.reserved else 0) (o.giveUp call) d := by
  unfold Outbox.giveUp
  split
  · obtain ⟨hslots, hheld⟩ := o.held_leave d
    exact .keeps hslots hheld
  · exact .keeps rfl rfl

theorem outboxBeside_slotting (hdrain : ∀ action, move ≠ .act (.drain action)) :
    Slotting c.outbox c.drain (c.forfeits move) (c.outboxBeside move) c.drain := by
  have hdrop : Slotting c.outbox c.drain (if c.stage = .assembled then c.outbox.queue.length else 0)
      (if c.stage = .assembled then c.outbox.discard else c.outbox) c.drain := by
    split
    · refine .keeps rfl ?_
      show 0 + _ + c.outbox.reserved + c.outbox.queue.length = _ + _ + _
      omega
    · exact .keeps rfl rfl
  cases move with
  | giveUp call => exact giveUp_slotting c.outbox c.drain call
  | act action =>
    cases action with
    | abort | close => exact hdrop
    | drain action => exact absurd rfl (hdrain action)
    | _ => exact foldl_enter_slotting ..

/-- Every move takes one slot, gives some back, or leaves them alone. -/
theorem move_slotting [PackageDecoder σ π] (h : c.move move = some (events, after))
    (hdry : c.drain.isClosing = true → c.outbox.queue = []) :
    Slotting c.outbox c.drain (c.forfeits move) after.outbox after.drain := by
  obtain ⟨sender, progress, rfl, hstep, houtbox, hdrain⟩ | ⟨action, rfl, hdrained⟩ |
    ⟨hdrain, houtbox, hsame⟩ := outbox_cases h
  · rw [houtbox, hdrain]
    exact proceed_slotting c.drain hstep
  · exact hdrained.slotting hdry
  · rw [houtbox, hsame]
    exact outboxBeside_slotting hdrain

/-! ## The invariant -/

/-- The counter is exact, and within its limit. -/
structure Slotted (limit lost : Nat) (c : Channel σ π) : Prop where
  limited : c.outbox.slots.limit = limit
  bound : c.pendingCount ≤ limit
  exact : c.pendingCount = c.held + lost

/-- The counter goes up by one, or down by what is given back, and never beyond its bounds. -/
theorem Slotted.slotting {limit lost forfeit : Nat} (h : Slotted limit lost c)
    (hlimit : limit < UInt64.size)
    (hslotting : Slotting c.outbox c.drain forfeit after.outbox after.drain) :
    Slotted limit (lost + forfeit) after := by
  obtain ⟨hsame, hbound, hexact⟩ := h
  simp only [held, pendingCount] at hbound hexact
  cases hslotting with
  | keeps hslots hheld =>
    refine ⟨by rw [hslots, hsame], ?_, ?_⟩ <;> simp only [held, pendingCount] <;> rw [hslots]
    · exact hbound
    · omega
  | takes hslots hheld =>
    have htaken := Slots.toNat_taken_of_take? hslots (hsame ▸ hlimit)
    obtain ⟨hfree, hlimited⟩ := Slots.lt_of_take? hslots
    refine ⟨hlimited.trans hsame, ?_, ?_⟩ <;> simp only [held, pendingCount] <;> omega
  | gives count hslots hheld =>
    have hcount : count ≤ c.outbox.slots.taken.toNat := by omega
    have htaken := c.outbox.slots.toNat_taken_release hcount
    refine ⟨by rw [hslots, ← hsame]; rfl, ?_, ?_⟩ <;> simp only [held, pendingCount] <;>
      rw [hslots, htaken] <;> omega

section Runs

variable [PackageDecoder σ π] {decoder : σ} {options : ConnectionOptions} {remote : Option Socket}

theorem forfeited_concat {middle : Channel σ π} (h : c.moves moves = some (events, middle))
    (hmove : middle.move move = some (more, after)) :
    c.forfeited (moves ++ [move]) = c.forfeited moves + middle.forfeits move := by
  induction moves generalizing c events with
  | nil =>
    cases h
    simp [forfeited, hmove]
  | cons first rest ih =>
    simp only [Channel.moves, Option.bind_eq_bind, Option.bind_eq_some_iff] at h
    obtain ⟨⟨begun, reached⟩, hfirst, ⟨others, last⟩, hrest, hsame⟩ := h
    cases hsame
    simp only [List.cons_append, forfeited, hfirst, ih hrest, Nat.add_assoc]

theorem dry_of_moves (hassemble : assemble decoder options remote = .ok c)
    (hmoves : c.moves moves = some (events, after)) :
    after.drain.isClosing = true → after.outbox.queue = [] := by
  have hflow := ((balanced_of_assemble hassemble).moves hmoves).flow
  exact fun hclosing => hflow.dry (hflow.shut hclosing)

theorem slotted_of_moves (hassemble : assemble decoder options remote = .ok c)
    (hlimit : options.maxPendingSends < UInt64.size)
    (hmoves : c.moves moves = some (events, after)) :
    Slotted options.maxPendingSends (c.forfeited moves) after := by
  refine moves_induction (P := fun moves _ after =>
    Slotted options.maxPendingSends (c.forfeited moves) after) ?_ ?_ hmoves
  · obtain rfl := eq_of_assemble hassemble
    exact ⟨rfl, Nat.zero_le _, rfl⟩
  · intro moves events middle move more after hdone h hmove
    rw [forfeited_concat hdone hmove]
    exact h.slotting hlimit (move_slotting hmove (dry_of_moves hassemble hdone))

/-! ## What is lost -/

omit [PackageDecoder σ π] in
/-- A drain loop that flushed the queue goes on to its end. -/
theorem Drained.closing {o o' : Outbox} {d d' : Drain} {action : DrainAction}
    (h : Drained o action d events o' d') (hflush : d.isClosing = true ∨ action = .flush) :
    d'.isClosing = true := by
  cases h <;> simp_all [Drain.isClosing]

omit [PackageDecoder σ π] in
/-- A drain loop ends where it breaks a batch off, unless that is the last one. -/
theorem Drained.broken {o o' : Outbox} {d d' : Drain} {action : DrainAction}
    (h : Drained o action d events o' d') (hbreaks : action.breaksOff = true) :
    d.isClosing = true ∨ d' = .ended := by
  cases h with
  | broke | unshut => exact .inr rfl
  | cut => exact .inl rfl
  | _ => cases hbreaks

omit [PackageDecoder σ π] in
theorem stage_abort_of_assembled (hstage : c.stage = .assembled) (reason : CloseReason) :
    (c.abort reason).2.stage = .dropped := by
  simp [abort, hstage, finish]

/-- Apart from calls that are dropped, slots are only lost with a channel that was not started, and
with a batch that is broken off before the queue was flushed. -/
theorem forfeits_le (h : c.move move = some (events, after))
    (hdry : c.drain.isClosing = true → c.outbox.queue = []) :
    c.forfeits move ≤ [move].countP Move.isGiveUp ∨ after.stage = .dropped ∨
      (c.drain.isClosing = false ∧ move ≠ .act (.drain .flush) ∧ after.drain = .ended) := by
  have habort : ∀ reason, (c.abort reason).2.stage = after.stage →
      (if c.stage = .assembled then c.outbox.queue.length else 0) ≤ 0 ∨ after.stage = .dropped := by
    intro reason hsame
    split
    · rename_i hstage
      exact .inr (hsame ▸ stage_abort_of_assembled hstage reason)
    · exact .inl (Nat.le_refl 0)
  cases move with
  | giveUp call =>
    refine .inl ?_
    show (if c.outbox.isHeldBy call then c.outbox.reserved else 0) ≤ 1
    split
    · exact c.outbox.reserved_le_one
    · exact Nat.zero_le 1
  | act action =>
    cases action with
    | abort reason =>
      refine (habort reason ?_).imp_right .inl
      rw [show c.abort reason = (events, after) from Option.some.inj h]
    | close call reason =>
      refine (habort reason ?_).imp_right .inl
      simp only [Channel.move, step, close, Option.some.injEq, Prod.mk.injEq] at h
      obtain ⟨-, rfl⟩ := h
      rfl
    | drain action =>
      simp only [Channel.move, step] at h
      split at h
      · simp only [forfeits]
        by_cases hbreaks : action.breaksOff = true
        · cases hclosing : c.drain.isClosing with
          | true =>
            refine .inl ?_
            rw [hdry hclosing]
            simp
          | false =>
            refine .inr (.inr ⟨rfl, ?_, ?_⟩)
            · intro hflush
              cases hflush
              cases hbreaks
            · obtain hclosing' | hended := (stepDrain_drained h).broken hbreaks
              · rw [hclosing] at hclosing'
                cases hclosing'
              · exact hended
        · rw [if_neg hbreaks]
          exact .inl (Nat.zero_le _)
      · cases h
    | _ => exact .inl (Nat.zero_le _)

/-- Unless the drain loop broke a batch off, no slots are lost but with calls that are dropped. -/
structure Sparing (c : Channel σ π) (moves : List Move) (lost : Nat) : Prop where
  flushed : .act (.drain .flush) ∈ moves → c.drain.isClosing = true
  spared : c.stage ≠ .dropped → c.drain ≠ .ended ∨ .act (.drain .flush) ∈ moves →
    lost ≤ moves.countP Move.isGiveUp

theorem Sparing.step {lost : Nat} (h : Sparing c moves lost)
    (hdry : c.drain.isClosing = true → c.outbox.queue = [])
    (hmove : c.move move = some (more, after)) :
    Sparing after (moves ++ [move]) (lost + c.forfeits move) := by
  have hflush : move = .act (.drain .flush) →
      c.drain ≠ .ended ∧ after.drain.isClosing = true := by
    rintro rfl
    simp only [Channel.move, step] at hmove
    split at hmove
    · exact ⟨stepDrain_ne_ended hmove, (stepDrain_drained hmove).closing (.inr rfl)⟩
    · cases hmove
  refine ⟨?_, ?_⟩
  · intro hmem
    rcases List.mem_append.1 hmem with hold | hnew
    · obtain ⟨_, hsame⟩ | ⟨action, _, hdrained⟩ := drained_of_move hmove
      · rw [hsame]
        exact h.flushed hold
      · exact hdrained.closing (.inl (h.flushed hold))
    · exact (hflush (List.mem_singleton.1 hnew).symm).2
  · intro hstage hrunning
    have hrunning' : c.drain ≠ .ended ∨ .act (.drain .flush) ∈ moves := by
      rcases hrunning with hdrain | hmem
      · exact .inl (mt (ended_of_move hmove) hdrain)
      · rcases List.mem_append.1 hmem with hold | hnew
        · exact .inr hold
        · exact .inl (hflush (List.mem_singleton.1 hnew).symm).1
    have hbefore := h.spared (mt (dropped_of_move hmove) hstage) hrunning'
    rw [List.countP_append]
    obtain hfew | hdropped | ⟨hopen, hother, hended⟩ := forfeits_le hmove hdry
    · omega
    · exact absurd hdropped hstage
    · -- A loop that flushed the queue has no batch left to break off.
      rcases hrunning with hdrain | hmem
      · exact absurd hended hdrain
      · rcases List.mem_append.1 hmem with hold | hnew
        · rw [h.flushed hold] at hopen
          cases hopen
        · exact absurd (List.mem_singleton.1 hnew).symm hother

theorem sparing_of_moves (hassemble : assemble decoder options remote = .ok c)
    (hmoves : c.moves moves = some (events, after)) :
    Sparing after moves (c.forfeited moves) := by
  refine moves_induction (P := fun moves _ after => Sparing after moves (c.forfeited moves))
    ?_ ?_ hmoves
  · exact ⟨fun hmem => (by cases hmem), fun _ _ => Nat.le_refl 0⟩
  · intro moves events middle move more after hdone h hmove
    rw [forfeited_concat hdone hmove]
    exact h.step (dry_of_moves hassemble hdone) hmove

/-! ## What is left behind -/

/-- Only a channel that was not started is dropped, and its queue goes with it. -/
theorem outbox_of_dropped (h : c.move move = some (events, after)) (hstage : c.stage ≠ .dropped)
    (hdropped : after.stage = .dropped) : after.outbox.isOpen = false := by
  have hassembled : c.stage = .assembled := by
    obtain hsame | hassembled := stage_move h
    · exact absurd (hsame ▸ hdropped) hstage
    · exact hassembled
  have habort : ∀ reason, (c.abort reason).2.outbox.isOpen = false := by
    intro reason
    rw [abort_outbox, if_pos hassembled]
    rfl
  cases move with
  | giveUp call =>
    cases h
    exact absurd hdropped hstage
  | act action =>
    change c.step action = some (events, after) at h
    cases action with
    | abort reason =>
      have hclosed := habort reason
      rw [show c.abort reason = (events, after) from Option.some.inj h] at hclosed
      exact hclosed
    | close call reason =>
      have hclosed := habort reason
      simp only [step, close, Option.some.injEq, Prod.mk.injEq] at h
      obtain ⟨-, rfl⟩ := h
      exact hclosed
    | drain | fill | supervise => simp [step, isStarted, hassembled] at h
    | proceed => exact absurd ((stage_stepSend h).symm.trans hdropped) hstage
    | _ =>
      simp only [step, start, run, stepReader, stepCloser, Channel.send, collect,
        hassembled] at h
      repeat' split at h
      all_goals cases h
      all_goals first | exact absurd hdropped hstage | cases hdropped

omit [PackageDecoder σ π] in
theorem isOpen_outboxBeside (hclosed : c.outbox.isOpen = false) :
    (c.outboxBeside move).isOpen = false := by
  have hdrop : (if c.stage = .assembled then c.outbox.discard else c.outbox).isOpen = false := by
    split
    · rfl
    · exact hclosed
  cases move with
  | giveUp call =>
    show (c.outbox.giveUp call).isOpen = false
    unfold Outbox.giveUp
    split
    · exact (queue_leave c.outbox).2.trans hclosed
    · exact hclosed
  | act action =>
    have henter : ∀ (sends : List Send) (o : Outbox), o.isOpen = false →
        (sends.foldl Outbox.enter o).isOpen = false := by
      intro sends
      induction sends with
      | nil => exact fun _ h => h
      | cons send rest ih => exact fun o h => ih _ ((queue_enter o send).2.trans h)
    cases action with
    | abort | close => exact hdrop
    | _ => exact henter _ _ hclosed

/-- A queue that takes no more chunks never does again. -/
theorem isOpen_of_moves (hassemble : assemble decoder options remote = .ok c)
    (hdone : c.moves moves = some (events, after)) {final : Channel σ π}
    (h : after.move move = some (more, final)) (hclosed : after.outbox.isOpen = false) :
    final.outbox.isOpen = false := by
  obtain ⟨sender, progress, rfl, hstep, houtbox, _⟩ | ⟨action, rfl, hdrained⟩ |
    ⟨_, houtbox, _⟩ := outbox_cases h
  · have hkept := ((balanced_of_assemble hassemble).moves hdone).kept
    obtain ⟨_, _, _, _, _, hopen, _⟩ := hkept.proceed (π := π) hstep
    rw [houtbox, hopen]
    exact hclosed
  · generalize after.outbox = o at hdrained hclosed
    generalize after.drain = d at hdrained
    generalize final.outbox = o' at hdrained
    generalize final.drain = d' at hdrained
    cases hdrained <;> first | exact hclosed | rfl
  · rw [houtbox]
    exact isOpen_outboxBeside hclosed

/-- The loops of a channel that was not started have not begun, and nothing is in its queue once it
is dropped. -/
theorem idle_of_moves (hassemble : assemble decoder options remote = .ok c)
    (hmoves : c.moves moves = some (events, after)) (hstage : after.stage ≠ .started) :
    after.drain = .idle ∧ (after.stage = .dropped → after.outbox.isOpen = false) := by
  refine moves_induction (P := fun _ _ after => after.stage ≠ .started →
    after.drain = .idle ∧ (after.stage = .dropped → after.outbox.isOpen = false))
    ?_ ?_ hmoves hstage
  · obtain rfl := eq_of_assemble hassemble
    exact fun _ => ⟨rfl, fun hdropped => (by cases hdropped)⟩
  · intro moves events middle move more after hdone h hmove hstage
    have hstage' : middle.stage ≠ .started := by
      intro hstarted
      obtain hsame | hassembled := stage_move hmove
      · exact hstage (hsame.trans hstarted)
      · rw [hstarted] at hassembled
        cases hassembled
    obtain ⟨hidle, hshut⟩ := h hstage'
    refine ⟨?_, fun hdropped => ?_⟩
    · obtain ⟨_, hsame⟩ | ⟨action, rfl, _⟩ := drained_of_move hmove
      · exact hsame.trans hidle
      · simp [Channel.move, step, isStarted, hstage'] at hmove
    · by_cases hbefore : middle.stage = .dropped
      · exact isOpen_of_moves hassemble hdone hmove (hshut hbefore)
      · exact outbox_of_dropped hmove hbefore hdropped

/-- Behind the close signal there is no chunk in the queue and none in the batch. -/
theorem empty_of_signal (hassemble : assemble decoder options remote = .ok c)
    (hmoves : c.moves moves = some (events, after)) (hsignal : after.closing.signal ≠ none) :
    after.outbox.queue = [] ∧ after.drain.batch = [] := by
  have hflow := ((balanced_of_assemble hassemble).moves hmoves).flow
  obtain hnone | hdropped | hended := ended_of_signal hassemble hmoves
  · exact absurd hnone hsignal
  · obtain ⟨hidle, hshut⟩ := idle_of_moves hassemble hmoves (by simp [hdropped])
    exact ⟨hflow.dry (hshut hdropped), by rw [hidle]; rfl⟩
  · exact ⟨hflow.dry (hflow.shut (by rw [hended]; rfl)), by rw [hended]; rfl⟩

end Runs

end Channel

section Results

variable [PackageDecoder σ π] {decoder : σ} {options : ConnectionOptions} {remote : Option Socket}
  {c after : Channel σ π} {moves : List Move} {events : List (Event π)}

/-- The counter of a channel never exceeds its limit, and nobody gives back more than is taken.  It
counts the chunks in the queue and in the batch, the send that has a slot and has yet to put its
chunk in the queue, and the slots that were lost.  While the drain loop of a channel runs, these are
none but those of calls that were dropped. -/
theorem moves_slots (hassemble : Channel.assemble decoder options remote = .ok c)
    (hlimit : options.maxPendingSends < UInt64.size)
    (hmoves : c.moves moves = some (events, after)) :
    after.pendingCount ≤ options.maxPendingSends ∧
      (∀ {move : Move} {more : List (Event π)} {final : Channel σ π},
        after.move move = some (more, final) →
          final.outbox.slots = after.outbox.slots ∨
            after.outbox.slots.take? = some final.outbox.slots ∨
            ∃ count ≤ after.pendingCount,
              final.outbox.slots = after.outbox.slots.release count) ∧
      after.pendingCount = after.outbox.queue.length + after.drain.batch.length +
        after.outbox.reserved + c.forfeited moves ∧
      (after.stage ≠ .dropped → after.drain ≠ .ended →
        c.forfeited moves ≤ moves.countP Move.isGiveUp) := by
  obtain ⟨_, hbound, hexact⟩ := Channel.slotted_of_moves hassemble hlimit hmoves
  refine ⟨hbound, ?_, hexact, ?_⟩
  · intro move more final hmove
    cases Channel.move_slotting hmove (Channel.dry_of_moves hassemble hmoves) with
    | keeps hslots _ => exact .inl hslots
    | takes hslots _ => exact .inr (.inl hslots)
    | gives count hslots hheld =>
      refine .inr (.inr ⟨count, ?_, hslots⟩)
      simp only [Channel.held] at hexact
      omega
  · intro hstage hdrain
    exact (Channel.sparing_of_moves hassemble hmoves).spared hstage (.inl hdrain)

/-- A call that was dropped with its slot is the only one that still has one. -/
theorem moves_slots_failedThenSent :
    ∃ (c after : Channel FixedSize Bytes) (events : List (Event Bytes)),
      Channel.assemble (FixedSize.mk 4) {} none = .ok c ∧
        c.moves failedThenSent = some (events, after) ∧
        after.pendingCount = 1 ∧ c.forfeited failedThenSent = 1 ∧
        after.pendingCount = after.outbox.queue.length + after.drain.batch.length +
          after.outbox.reserved + c.forfeited failedThenSent := by
  refine ⟨_, _, _, rfl, rfl, rfl, rfl, ?_⟩
  have hassemble : Channel.assemble (π := Bytes) (FixedSize.mk 4) {} none = .ok _ := rfl
  exact (moves_slots hassemble (by decide) rfl).2.2.1

/-- A send on a channel that is closed before it was started. -/
def sentThenDropped : List Move :=
  [.act (.send ⟨.call 0, .chunk [1]⟩), .act .proceed, .act .proceed, .act .proceed,
    .act (.abort .localClosing)]

/-- The chunk is gone with the queue, and its slot is still taken. -/
theorem moves_slots_sentThenDropped :
    ∃ (c after : Channel FixedSize Bytes) (events : List (Event Bytes)),
      Channel.assemble (FixedSize.mk 4) {} none = .ok c ∧
        c.moves sentThenDropped = some (events, after) ∧ after.drain ≠ .ended ∧
        sentThenDropped.countP Move.isGiveUp = 0 ∧ after.outbox.queue = [] ∧
        after.drain.batch = [] ∧ after.outbox.holder = none ∧ after.pendingCount = 1 :=
  ⟨_, _, _, rfl, rfl, by decide, rfl, rfl, rfl, rfl, rfl⟩

/-- Behind the close signal, with no send in progress, the slots that are still taken are those that
were lost.  A drain loop that came to flush the queue lost none but those of calls that were
dropped. -/
theorem moves_given_back (hassemble : Channel.assemble decoder options remote = .ok c)
    (hlimit : options.maxPendingSends < UInt64.size)
    (hmoves : c.moves moves = some (events, after)) (hsignal : after.closing.signal ≠ none)
    (hsends : after.outbox.holder = none) :
    after.pendingCount = c.forfeited moves ∧
      (after.stage = .started → .act (.drain .flush) ∈ moves →
        after.pendingCount ≤ moves.countP Move.isGiveUp) := by
  obtain ⟨hqueue, hbatch⟩ := Channel.empty_of_signal hassemble hmoves hsignal
  have hlost : after.pendingCount = c.forfeited moves := by
    rw [(Channel.slotted_of_moves hassemble hlimit hmoves).exact, Channel.held, Outbox.held, hqueue,
      hbatch, after.outbox.reserved_of_free hsends]
    exact Nat.zero_add _
  refine ⟨hlost, fun hstarted hflush => ?_⟩
  rw [hlost]
  exact (Channel.sparing_of_moves hassemble hmoves).spared (by simp [hstarted]) (.inr hflush)

theorem moves_given_back_closedBetween :
    ∃ (c after : Channel FixedSize Bytes) (events : List (Event Bytes)),
      Channel.assemble (FixedSize.mk 4) {} none = .ok c ∧
        c.moves closedBetween = some (events, after) ∧
        after.closing.signal = some .localClosing ∧ after.stage = .started ∧
        after.outbox.holder = none ∧ .act (.drain .flush) ∈ closedBetween ∧
        after.pendingCount = c.forfeited closedBetween ∧
        (after.stage = .started → .act (.drain .flush) ∈ closedBetween →
          after.pendingCount ≤ closedBetween.countP Move.isGiveUp) := by
  refine ⟨_, _, _, rfl, rfl, rfl, rfl, rfl, by decide, ?_⟩
  have hassemble : Channel.assemble (π := Bytes) (FixedSize.mk 4) {} none = .ok _ := rfl
  exact moves_given_back hassemble (by decide) rfl (by simp) rfl

/-- The drain loop is cancelled in the middle of a batch.  It gives the slot of the batch back, and
that of the chunk behind it stays taken. -/
theorem moves_given_back_closedMidway :
    ∃ (c after : Channel FixedSize Bytes) (events : List (Event Bytes)),
      Channel.assemble (FixedSize.mk 4) {} none = .ok c ∧
        c.moves (halfWritten ++ closedMidway) = some (events, after) ∧
        after.closing.signal = some .localClosing ∧ after.outbox.holder = none ∧
        after.outbox.waiting = [] ∧ (halfWritten ++ closedMidway).countP Move.isGiveUp = 0 ∧
        after.pendingCount = 1 :=
  ⟨_, _, _, rfl, rfl, rfl, rfl, rfl, rfl, rfl⟩

end Results

end FramedChannel
