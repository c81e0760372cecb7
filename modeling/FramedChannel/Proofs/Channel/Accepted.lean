import FramedChannel.Package.FixedSize
import FramedChannel.Proofs.Channel.History
import FramedChannel.Proofs.Channel.Ledger

/-!
# What reaches the transport

The transport takes a prefix of what the sends of a channel put in the queue,
in the order in which they got the lock, whatever happens in between.

* `Flow` is the invariant between the queue and the transport: what was written,
  what is left of the batch and what is in the queue make up all chunks, and a
  prefix of them once the queue is shut.
* `Balanced` joins it with the ledger, `Balanced.move` is one move of a channel,
  and `Balanced.moves` any number of them.
* `moves_accepted` is the result.
-/

namespace FramedChannel

variable {σ π : Type}

/-! ## From the queue to the transport -/

/-- What is left to write of the batch of a drain loop. -/
def Drain.rest : Drain → Bytes
  | writing batch taken | flushing batch taken _ => batch.flatten.drop taken
  | _ => []

/-- The drain loop has taken what it takes. -/
def Drain.isClosing : Drain → Bool
  | flushing .. | shutting _ | ended => true
  | _ => false

/-- Where the bytes `chunks` are that were put in the queue, of which the transport took `written`.
Only a queue that is shut may have lost some, and nothing is in it. -/
structure Flow (o : Outbox) (d : Drain) (chunks written : Bytes) : Prop where
  below : written ++ d.rest ++ o.queue.flatten <+: chunks
  all : o.isOpen = true → written ++ d.rest ++ o.queue.flatten = chunks
  shut : d.isClosing = true → o.isOpen = false
  dry : o.isOpen = false → o.queue = []

variable {o o' : Outbox} {d d' : Drain} {chunks written written' : Bytes}

/-- A prefix of what there was is left, and the queue is shut. -/
theorem Flow.lose (h : Flow o d chunks written) (hshut : o'.isOpen = false) (hdry : o'.queue = [])
    (hbelow : written' ++ d'.rest <+: written ++ d.rest ++ o.queue.flatten) :
    Flow o' d' chunks written' := by
  refine ⟨?_, ?_, fun _ => hshut, fun _ => hdry⟩
  · rw [hdry, List.flatten_nil, List.append_nil]
    exact hbelow.trans h.below
  · intro hopen
    rw [hshut] at hopen
    cases hopen

/-- What there was is left. -/
theorem Flow.keep (h : Flow o d chunks written) (hopen : o'.isOpen = o.isOpen)
    (hsame : written' ++ d'.rest ++ o'.queue.flatten = written ++ d.rest ++ o.queue.flatten)
    (hshut : d'.isClosing = true → o.isOpen = false) (hdry : o.queue = [] → o'.queue = []) :
    Flow o' d' chunks written' := by
  refine ⟨hsame ▸ h.below, ?_, fun hclosing => hopen.trans (hshut hclosing), ?_⟩
  · rw [hopen, hsame]
    exact h.all
  · rw [hopen]
    exact fun hclosed => hdry (h.dry hclosed)

/-- A piece of a batch and what is left behind it are what was left before. -/
theorem piece_append (batch : List Bytes) (taken count : Nat) :
    Channel.piece batch taken count ++ batch.flatten.drop (taken + count) =
      batch.flatten.drop taken := by
  rw [Channel.piece, ← List.drop_drop, List.take_append_drop]

theorem queue_enter (o : Outbox) (send : Send) :
    (o.enter send).queue = o.queue ∧ (o.enter send).isOpen = o.isOpen := by
  unfold Outbox.enter
  split <;> exact ⟨rfl, rfl⟩

/-- A batch and the queue behind it are the queue in front of it. -/
theorem flatten_take_append_drop (count : Nat) (queue : List Bytes) :
    (queue.take count).flatten ++ (queue.drop count).flatten = queue.flatten := by
  rw [← List.flatten_append, List.take_append_drop]

theorem Flow.effect {admitted : List Send} {returns : List (Sender × Sent)} {bytes : Bytes}
    (h : Flow o d chunks written) (heffect : Channel.Effect o d admitted returns bytes o' d') :
    Flow o' d' chunks (written ++ bytes) := by
  cases heffect with
  | nothing => simpa using h
  | refused => simpa using h
  | admitted _ send =>
    obtain ⟨hqueue, hopen⟩ := queue_enter o send
    refine h.keep hopen ?_ h.shut fun hempty => hqueue.trans hempty
    rw [hqueue, List.append_nil]
  | dropped =>
    refine h.lose rfl rfl ?_
    rw [List.append_nil]
    exact List.prefix_append _ _
  | took =>
    refine h.keep rfl ?_ h.shut fun hempty => by simp [hempty]
    simp [Drain.rest, flatten_take_append_drop]
  | skipped hsize =>
    refine h.keep rfl ?_ h.shut fun hempty => by simp [hempty, Outbox.release]
    have hqueue := flatten_take_append_drop Channel.maxBatch o.queue
    rw [Batch.flatten_eq_nil_of_size hsize, List.nil_append] at hqueue
    simp [Drain.rest, Outbox.release, hqueue]
  | @wrote batch taken count =>
    refine h.keep rfl ?_ h.shut id
    simp only [Drain.rest, List.append_assoc]
    rw [← List.append_assoc (Channel.piece ..), piece_append]
  | @confirmed batch taken hall =>
    refine h.keep rfl ?_ (by simp [Drain.isClosing]) id
    have hrest : batch.flatten.drop taken = [] := by
      rw [hall, List.drop_eq_nil_iff, Bytes.length_flatten]
      exact Nat.le_refl _
    simp [Drain.rest, Outbox.release, hrest]
  | broke batch taken =>
    -- What the transport took of the batch stays taken, and all behind it is lost.
    refine h.lose rfl rfl ?_
    simp only [Drain.rest, List.append_nil, List.append_assoc]
    exact List.prefix_append _ _
  | flushes deadline =>
    refine h.lose rfl rfl ?_
    simp [Drain.rest]
  | shuts deadline =>
    refine h.lose rfl rfl ?_
    simp [Drain.rest]
  | @flushed batch taken count deadline =>
    refine h.keep rfl ?_ h.shut id
    simp only [Drain.rest, List.append_assoc]
    rw [← List.append_assoc (Channel.piece ..), piece_append]
  | shutsFlushed batch taken deadline deadline' =>
    have hshut : o.isOpen = false := h.shut rfl
    refine h.lose hshut (h.dry hshut) ?_
    simp only [Drain.rest, List.append_nil, List.append_assoc]
    exact List.prefix_append _ _
  | ended deadline =>
    refine h.lose rfl rfl ?_
    simp [Drain.rest]

/-- A chunk goes into the queue, if there is one, and only if the queue takes chunks. -/
theorem Flow.queue (h : Flow o d chunks written) {queued : Option Bytes}
    (hqueue : o'.queue = o.queue ++ queued.toList) (hopen : o'.isOpen = o.isOpen)
    (hqueued : queued ≠ none → o.isOpen = true) :
    Flow o' d (chunks ++ queued.toList.flatten) written := by
  cases queued with
  | none =>
    rw [Option.toList_none, List.flatten_nil, List.append_nil]
    rw [Option.toList_none, List.append_nil] at hqueue
    exact h.keep hopen (by rw [hqueue]) h.shut fun hempty => hqueue.trans hempty
  | some chunk =>
    have htakes : o.isOpen = true := hqueued (by simp)
    have hall : written ++ d.rest ++ o'.queue.flatten = chunks ++ [chunk].flatten := by
      rw [hqueue, List.flatten_append, ← List.append_assoc, h.all htakes]
      rfl
    refine ⟨hall ▸ List.prefix_rfl, fun _ => hall, ?_, ?_⟩
    · rw [hopen]
      exact h.shut
    · intro hclosed
      rw [hopen, htakes] at hclosed
      cases hclosed

/-! ## The lock -/

/-- A send was turned away because the channel is closed. -/
def turnedAway (returned : Sender × Sent) : Bool :=
  returned.2 == .failed .channelClosed

/-- A step other than that of the send that has the lock leaves the lock alone, but for a send that
is let in. -/
theorem Channel.Effect.lock {admitted : List Send} {returns : List (Sender × Sent)} {bytes : Bytes}
    (h : Channel.Effect o d admitted returns bytes o' d') :
    (o'.holder = o.holder ∧ o'.waiting = o.waiting ∧ o'.scratch = o.scratch ∧ admitted = [] ∧
      ∀ returned ∈ returns, turnedAway returned = true) ∨
    ∃ send, admitted = [send] ∧ returns = [] ∧ o' = o.enter send := by
  cases h with
  | refused _ sender =>
    refine .inl ⟨rfl, rfl, rfl, rfl, ?_⟩
    intro returned hmem
    obtain rfl := List.mem_singleton.1 hmem
    rfl
  | admitted _ send => exact .inr ⟨send, rfl, rfl, rfl⟩
  | _ => exact .inl ⟨rfl, rfl, rfl, rfl, fun _ hmem => by cases hmem⟩

/-- The ledger behind such a step has the same chunks and returns. -/
theorem Kept.effect {l : Ledger} {admitted : List Send} {returns : List (Sender × Sent)}
    {bytes : Bytes} (h : Kept l o) (heffect : Channel.Effect o d admitted returns bytes o' d') :
    Kept (l.enter o') o' ∧ (l.enter o').queued = l.queued ∧
      (l.enter o').returned = l.returned ∧
      (l.enter o').sends ++ o'.waiting = l.sends ++ o.waiting ++ admitted ∧
      ∀ returned ∈ returns, turnedAway returned = true := by
  rcases heffect.lock with ⟨hholder, hwaiting, hscratch, rfl, hreturns⟩ | ⟨send, rfl, rfl, rfl⟩
  · obtain ⟨hkept, hledger⟩ := h.of_same hholder hwaiting hscratch
    rw [hledger, hwaiting, List.append_nil]
    exact ⟨hkept, rfl, rfl, rfl, hreturns⟩
  · obtain ⟨hkept, hqueued, hreturned, hsends⟩ := h.enter send
    refine ⟨hkept, hqueued, hreturned, hsends, ?_⟩
    intro returned hmem
    cases hmem

/-! ## Moves -/

/-- A ledger fits a channel behind some events, with the sends that were let in and the number of
calls that were dropped. -/
structure Balanced (l : Ledger) (c : Channel σ π) (events : List (Event π))
    (admitted : List Send) (dropped : Nat) : Prop where
  kept : Kept l c.outbox
  flow : Flow c.outbox c.drain l.chunks.flatten (writtenOf events)
  queued : queuedOf events = l.queued
  returned : l.returned.Sublist (returnsOf events)
  returns : (returnsOf events).filter (!turnedAway ·) = l.returned.filter (!turnedAway ·)
  order : (l.sends ++ c.outbox.waiting).Sublist admitted
  count : admitted.length ≤ (l.sends ++ c.outbox.waiting).length + dropped

theorem Ledger.chunks_eq_of_queued {l l' : Ledger} (h : l'.queued = l.queued) :
    l'.chunks = l.chunks := by
  rw [← l'.map_snd_queued, h, l.map_snd_queued]

section Moves

variable {l : Ledger} {c after : Channel σ π} {events more : List (Event π)} {admitted : List Send}
  {dropped : Nat}

theorem Balanced.effect {letIn : List Send} (h : Balanced l c events admitted dropped)
    (heffect : Channel.HasEffect c letIn more after) :
    Balanced (l.enter after.outbox) after (events ++ more) (admitted ++ letIn) dropped := by
  obtain ⟨hnothing, heffect⟩ := heffect
  obtain ⟨hkept, hqueued, hreturned, hsends, hreturns⟩ := h.kept.effect heffect
  refine ⟨hkept, ?_, ?_, ?_, ?_, ?_, ?_⟩
  · rw [Ledger.chunks_eq_of_queued hqueued, writtenOf_append]
    exact h.flow.effect heffect
  · rw [queuedOf_append, hnothing, List.append_nil, hqueued]
    exact h.queued
  · rw [hreturned, returnsOf_append]
    exact h.returned.trans (List.sublist_append_left _ _)
  · have hfilter : (returnsOf more).filter (!turnedAway ·) = [] := by
      rw [List.filter_eq_nil_iff]
      intro returned hmem
      simp [hreturns returned hmem]
    rw [returnsOf_append, List.filter_append, hfilter, List.append_nil, hreturned]
    exact h.returns
  · rw [hsends]
    exact h.order.append_right _
  · have hcount := h.count
    rw [hsends]
    simp only [List.length_append] at hcount ⊢
    omega

theorem Balanced.giveUp (h : Balanced l c events admitted dropped) (call : Nat) :
    Balanced (l.giveUp c.outbox call) { c with outbox := c.outbox.giveUp call } events admitted
      (dropped + 1) := by
  obtain ⟨hkept, hqueued, hreturned, hsends, hlength, hqueue, hopen⟩ := h.kept.giveUp call
  refine ⟨hkept, ?_, ?_, ?_, ?_, ?_, ?_⟩
  · rw [Ledger.chunks_eq_of_queued hqueued]
    exact h.flow.keep hopen (by rw [hqueue]) h.flow.shut fun hempty => hqueue.trans hempty
  · rw [hqueued]
    exact h.queued
  · rw [hreturned]
    exact h.returned
  · rw [hreturned]
    exact h.returns
  · exact hsends.trans h.order
  · have hcount := h.count
    show admitted.length ≤
      ((l.giveUp c.outbox call).sends ++ (c.outbox.giveUp call).waiting).length + (dropped + 1)
    omega

variable [PackageDecoder σ π]

/-- A channel that was just assembled has an empty ledger. -/
theorem balanced_of_assemble {decoder : σ} {options : ConnectionOptions} {remote : Option Socket}
    (h : Channel.assemble decoder options remote = .ok c) :
    Balanced {} c ([] : List (Event π)) [] 0 := by
  obtain rfl := Channel.eq_of_assemble h
  refine ⟨⟨?_, .free, fun _ => rfl, rfl⟩, ⟨List.prefix_rfl, fun _ => rfl, ?_, ?_⟩, rfl,
    List.Sublist.refl _, rfl, List.Sublist.refl _, Nat.le_refl _⟩
  · intro account hmem
    cases hmem
  · intro hclosing
    cases hclosing
  · intro hclosed
    cases hclosed

theorem Balanced.proceed (h : Balanced l c events admitted dropped)
    (hstep : c.step .proceed = some (more, after)) :
    Balanced ((l.note more).enter after.outbox) after (events ++ more) admitted dropped := by
  obtain ⟨sender, progress, hproceed, rfl, houtbox, hdrain⟩ := Channel.step_proceed hstep
  obtain ⟨hkept, hqueued, hreturned, hsends, hqueue, hopen, htakes⟩ :=
    h.kept.proceed (π := π) hproceed
  rw [← houtbox] at hkept hqueued hreturned hsends hqueue hopen
  refine ⟨hkept, ?_, ?_, ?_, ?_, ?_, ?_⟩
  · rw [← Ledger.map_snd_queued, hqueued, List.map_append, Ledger.map_snd_queued,
      List.flatten_append, hdrain, writtenOf_append, Channel.writtenOf_eventsOf, List.append_nil]
    have hchunk : ((progress.queued.map (sender, ·)).toList.map Prod.snd) =
        progress.queued.toList := by
      cases progress.queued <;> rfl
    rw [hchunk]
    exact h.flow.queue hqueue hopen htakes
  · rw [queuedOf_append, Channel.queuedOf_eventsOf, h.queued, hqueued]
  · rw [returnsOf_append, Channel.returnsOf_eventsOf, hreturned]
    exact h.returned.append (List.Sublist.refl _)
  · rw [returnsOf_append, Channel.returnsOf_eventsOf, hreturned, List.filter_append,
      List.filter_append, h.returns]
  · rw [hsends]
    exact h.order
  · rw [hsends]
    exact h.count

/-- The ledger of a channel is kept by every move. -/
theorem Balanced.move {move : Move} (h : Balanced l c events admitted dropped)
    (hmove : c.move move = some (more, after)) :
    Balanced (c.record l move more after) after (events ++ more) (admitted ++ c.letsIn move)
      (dropped + [move].countP Move.isGiveUp) := by
  cases move with
  | giveUp call =>
    cases hmove
    rw [List.append_nil, Channel.letsIn, List.append_nil]
    exact h.giveUp call
  | act action =>
    by_cases hproceed : action = .proceed
    · subst hproceed
      show Balanced _ _ _ (admitted ++ []) dropped
      rw [List.append_nil]
      exact h.proceed hmove
    · have heffect := h.effect (Channel.step_effect hmove hproceed)
      have hrecord : c.record l (.act action) more after = l.enter after.outbox := by
        cases action with
        | proceed => exact absurd rfl hproceed
        | _ => rfl
      rw [hrecord]
      exact heffect

/-- The ledger of a channel is kept by any number of moves. -/
theorem Balanced.moves {moves : List Move} (h : Balanced l c events admitted dropped)
    (hmoves : c.moves moves = some (more, after)) :
    Balanced (c.ledgerFrom l moves) after (events ++ more) (admitted ++ c.admitted moves)
      (dropped + moves.countP Move.isGiveUp) := by
  -- The events and the sends so far grow with every move, and the ledger is about all of them.
  induction moves generalizing c l events more admitted dropped with
  | nil =>
    cases hmoves
    rw [Channel.admitted, List.append_nil, List.append_nil]
    exact h
  | cons move rest ih =>
    simp only [Channel.moves, Option.bind_eq_bind, Option.bind_eq_some_iff] at hmoves
    obtain ⟨⟨first, middle⟩, hmove, ⟨later, last⟩, hrest, hsame⟩ := hmoves
    cases hsame
    have hmiddle := ih (h.move hmove) hrest
    simp only [Channel.ledgerFrom, Channel.admitted, hmove]
    rw [← List.append_assoc, ← List.append_assoc, ← List.singleton_append, List.countP_append,
      ← Nat.add_assoc]
    exact hmiddle

/-- What the transport took is a prefix of the chunks that the sends put in the queue, in the order
in which they got the lock.  A send that returned well put its own chunk there, once; one that
failed, that was dropped or that has not returned put nothing there.  Every return belongs to one of
them, but for the sends that were turned away at once. -/
theorem moves_accepted {decoder : σ} {options : ConnectionOptions} {remote : Option Socket}
    {moves : List Move} (hassemble : Channel.assemble decoder options remote = .ok c)
    (hmoves : c.moves moves = some (events, after)) :
    let accounts := (c.ledger moves).accounts
    writtenOf events <+: (accounts.flatMap Account.queued).flatten ∧
      queuedOf events =
        accounts.flatMap (fun account => account.queued.map (account.send.sender, ·)) ∧
      (∀ account ∈ accounts, account.Exact) ∧
      (accounts.filterMap Account.returned).Sublist (returnsOf events) ∧
      (returnsOf events).filter (!turnedAway ·) =
        (accounts.filterMap Account.returned).filter (!turnedAway ·) ∧
      (accounts.map Account.send ++ after.outbox.waiting).Sublist (c.admitted moves) ∧
      (c.admitted moves).length ≤
        accounts.length + after.outbox.waiting.length + moves.countP Move.isGiveUp := by
  have h := (balanced_of_assemble hassemble).moves hmoves
  rw [List.nil_append, List.nil_append, Nat.zero_add] at h
  have hbegin : writtenOf events <+: (c.ledger moves).chunks.flatten := by
    refine List.IsPrefix.trans ?_ h.flow.below
    rw [List.append_assoc]
    exact List.prefix_append _ _
  have hcount := h.count
  rw [Ledger.sends, List.length_append, List.length_map] at hcount
  exact ⟨hbegin, h.queued, h.kept.exact, h.returned, h.returns, h.order, hcount⟩

end Moves

/-- A writer that fails behind two bytes, a send of two bytes that are written one by one, a send
that is dropped with its slot taken, and a send on a channel that is closed. -/
def failedThenSent : List Move :=
  [.act .start,
    .act (.send ⟨.call 0, .written [1, 2] (some (.protocol .reservedBits))⟩), .act .proceed,
    .act (.send ⟨.call 1, .chunk [3, 4]⟩), .act .proceed, .act .proceed, .act .proceed,
    .act (.drain .take), .act (.drain (.write 1)),
    .act (.send ⟨.call 2, .chunk [5]⟩), .act .proceed, .act .proceed, .giveUp 2,
    .act (.drain (.write 1)), .act (.drain .confirm),
    .act (.abort .localClosing), .act (.send ⟨.call 3, .chunk [6]⟩)]

theorem moves_failedThenSent :
    ∃ (c after : Channel FixedSize Bytes) (events : List (Event Bytes)),
      Channel.assemble (FixedSize.mk 4) {} none = .ok c ∧
        c.moves failedThenSent = some (events, after) ∧
        writtenOf events = [3, 4] ∧
        writtenOf events <+:
          ((c.ledger failedThenSent).accounts.flatMap Account.queued).flatten := by
  refine ⟨_, _, _, rfl, rfl, rfl, ?_⟩
  have hassemble : Channel.assemble (π := Bytes) (FixedSize.mk 4) {} none = .ok _ := rfl
  exact (moves_accepted hassemble rfl).1

end FramedChannel
