import FramedChannel.Channel.Move
import FramedChannel.Proofs.Channel.Effect

/-!
# The ledger of the sends

What became of the sends of a channel, in the order in which they got the lock.

* An `Account` holds a send, the chunks that it put in the queue and how it
  returned.  `Account.Exact` says that these belong together.
* A `Ledger` has the accounts of the sends that returned, and of the one that
  has the lock.  `Channel.ledger` keeps it along the moves of a channel, from
  nothing but the events and the state of the lock.
* `Kept` is the invariant of a ledger: the send that has the lock carries what
  it was called with, and no other send left anything in the scratch buffer.
-/

namespace FramedChannel

variable {σ π : Type}

/-! ## Accounts -/

namespace Load

/-- The chunks that a load is worth: its bytes, but nothing for a writer that wrote nothing or
failed. -/
def chunks : Load → List Bytes
  | .chunk bytes => [bytes]
  | .written bytes none => if bytes.isEmpty then [] else [bytes]
  | .written _ (some _) => []

/-- The failure of a writer. -/
def fault : Load → Option Error
  | .chunk _ => none
  | .written _ fault => fault

end Load

/-- What became of a send that got the lock. -/
structure Account where
  send : Send
  /-- The chunks that it put in the queue, in order. -/
  queued : List Bytes := []
  /-- How it returned, once it did. -/
  sent : Option Sent := none
  deriving DecidableEq, Repr

namespace Account

/-- The account behind an event of its send. -/
def note (account : Account) : Event π → Account
  | .queued _ chunk => { account with queued := account.queued ++ [chunk] }
  | .returned _ sent => { account with sent := some sent }
  | _ => account

/-- The send as it returned. -/
def returned (account : Account) : Option (Sender × Sent) :=
  account.sent.map (account.send.sender, ·)

/-- A send that went well found an empty scratch buffer and put in the queue exactly what it was
called with, once.  One that failed, or has not returned, put nothing there. -/
def Exact (account : Account) : Prop :=
  match account.sent with
  | some (.done before) =>
    before = 0 ∧ account.send.load.fault = none ∧ account.queued = account.send.load.chunks
  | _ => account.queued = []

end Account

/-- The accounts of a channel. -/
structure Ledger where
  /-- The sends that had the lock, in the order in which they got it. -/
  past : List Account := []
  /-- The send that has the lock. -/
  current : Option Account := none
  deriving DecidableEq, Repr

/-- The send that has the lock and has not done anything yet. -/
def Outbox.newcomer (o : Outbox) : Option Account :=
  match o.holder with
  | some ⟨sender, .entered load⟩ => some { send := ⟨sender, load⟩ }
  | _ => none

namespace Ledger

/-- All accounts, in the order in which their sends got the lock. -/
def accounts (l : Ledger) : List Account :=
  l.past ++ l.current.toList

/-- All chunks that were put in the queue, in that order. -/
def chunks (l : Ledger) : List Bytes :=
  l.accounts.flatMap Account.queued

/-- The ledger behind events of the send that has the lock. -/
def note (l : Ledger) (events : List (Event π)) : Ledger :=
  match l.current with
  | none => l
  | some account =>
    let account := events.foldl Account.note account
    if account.sent.isSome then { past := l.past ++ [account] }
    else { l with current := some account }

/-- The ledger behind a drop of the send that has the lock. -/
def retire (l : Ledger) : Ledger :=
  { past := l.accounts }

/-- The ledger with the send that got the lock, if the lock was free. -/
def enter (l : Ledger) (o : Outbox) : Ledger :=
  match l.current with
  | none => { l with current := o.newcomer }
  | some _ => l

/-- The ledger behind a drop of a call, which may have the lock. -/
def giveUp (l : Ledger) (o : Outbox) (call : Nat) : Ledger :=
  if o.isHeldBy call then l.retire.enter (o.giveUp call) else l.enter (o.giveUp call)

end Ledger

namespace Channel

/-- The ledger behind a move of the channel `c` to `after`. -/
def record (c : Channel σ π) (l : Ledger) (move : Move) (events : List (Event π))
    (after : Channel σ π) : Ledger :=
  match move with
  | .act .proceed => (l.note events).enter after.outbox
  | .act _ => l.enter after.outbox
  | .giveUp call => l.giveUp c.outbox call

/-- The ledger `l` kept along some moves. -/
def ledgerFrom [PackageDecoder σ π] (c : Channel σ π) (l : Ledger) : List Move → Ledger
  | [] => l
  | move :: rest =>
    match c.move move with
    | none => l
    | some (events, after) => after.ledgerFrom (c.record l move events after) rest

/-- The ledger of some moves. -/
def ledger [PackageDecoder σ π] (c : Channel σ π) (moves : List Move) : Ledger :=
  c.ledgerFrom {} moves

/-- The sends that a move lets in. -/
def letsIn (c : Channel σ π) : Move → List Send
  | .act action => c.admits action
  | .giveUp _ => []

/-- The sends that some moves let in, in order. -/
def admitted [PackageDecoder σ π] (c : Channel σ π) : List Move → List Send
  | [] => []
  | move :: rest =>
    match c.move move with
    | none => []
    | some (_, after) => c.letsIn move ++ after.admitted rest

end Channel

/-! ## The send that has the lock -/

/-- The send that has the lock carries its load, or the chunk that it is worth. -/
inductive Carries : Load → Holding → Prop where
  | entered (load : Load) : Carries load (.entered load)
  | reserving {load : Load} {chunk : Bytes} (deadline : Nat) (hfault : load.fault = none)
      (hchunk : load.chunks = [chunk]) : Carries load (.reserving chunk deadline 0)
  | queueing {load : Load} {chunk : Bytes} (hfault : load.fault = none)
      (hchunk : load.chunks = [chunk]) : Carries load (.queueing chunk 0)

/-- What a step of a send with the given load comes to. -/
inductive Advance (o : Outbox) (sender : Sender) (load : Load) : Outbox.Progress → Prop where
  /-- It keeps the lock. -/
  | stays {o' : Outbox} {holding : Holding} (hcarries : Carries load holding)
      (hholder : o'.holder = some ⟨sender, holding⟩) (hwaiting : o'.waiting = o.waiting)
      (hscratch : o'.scratch = []) (hqueue : o'.queue = o.queue) (hopen : o'.isOpen = o.isOpen) :
      Advance o sender load { outbox := o' }
  /-- It returns, and may have put a chunk in the queue. -/
  | returns {o' : Outbox} {sent : Sent} {queued : Option Bytes}
      (hexact : (Account.mk ⟨sender, load⟩ queued.toList (some sent)).Exact)
      (hwaiting : o'.waiting = o.waiting) (hscratch : o'.scratch = [])
      (hqueue : o'.queue = o.queue ++ queued.toList) (hopen : o'.isOpen = o.isOpen)
      (hqueued : queued ≠ none → o.isOpen = true) :
      Advance o sender load (o'.returning sent queued)

variable {o o' : Outbox} {sender : Sender} {load : Load} {holding : Holding}
  {progress : Outbox.Progress} {now : Nat}

theorem advance_of_nothing_queued {sent : Sent}
    (hexact : (Account.mk ⟨sender, load⟩ [] (some sent)).Exact) (hwaiting : o'.waiting = o.waiting)
    (hscratch : o'.scratch = []) (hqueue : o'.queue = o.queue) (hopen : o'.isOpen = o.isOpen) :
    Advance o sender load (o'.returning sent none) :=
  .returns hexact hwaiting hscratch (by simp [hqueue]) hopen (absurd rfl)

/-- All that a step of the send that has the lock can do. -/
theorem advance_of_proceedFrom (hcarries : Carries load holding) (hscratch : o.scratch = [])
    (h : o.proceedFrom now sender holding = some progress) : Advance o sender load progress := by
  cases hcarries with
  | entered =>
    cases load with
    | chunk bytes =>
      cases h
      exact .stays (.reserving _ rfl rfl) rfl rfl hscratch rfl rfl
    | written bytes fault =>
      simp only [Outbox.proceedFrom, hscratch, List.nil_append, List.length_nil] at h
      cases fault with
      | some error =>
        cases h
        exact advance_of_nothing_queued rfl rfl rfl rfl rfl
      | none =>
        simp only at h
        split at h
        · rename_i hempty
          cases h
          exact advance_of_nothing_queued ⟨rfl, rfl, (if_pos hempty).symm⟩ rfl rfl rfl rfl
        · rename_i hsome
          cases h
          exact .stays (.reserving _ rfl (if_neg hsome)) rfl rfl rfl rfl rfl
  | reserving deadline hfault hchunk =>
    simp only [Outbox.proceedFrom] at h
    split at h
    · cases h
      exact .stays (.queueing hfault hchunk) rfl rfl hscratch rfl rfl
    · split at h <;> cases h
      exact advance_of_nothing_queued rfl rfl hscratch rfl rfl
  | queueing hfault hchunk =>
    simp only [Outbox.proceedFrom] at h
    split at h
    · cases h
      exact advance_of_nothing_queued rfl rfl hscratch rfl rfl
    · rename_i hopen
      split at h <;> cases h
      refine .returns ⟨rfl, hfault, hchunk.symm⟩ rfl hscratch rfl rfl ?_
      simpa using hopen

/-! ## The invariant -/

/-- The lock is free, or the send that has it has an account without anything in it. -/
inductive Held : Option Holder → Option Account → Prop where
  | free : Held none none
  | held {sender : Sender} {load : Load} {holding : Holding} (h : Carries load holding) :
      Held (some ⟨sender, holding⟩) (some { send := ⟨sender, load⟩ })

section Held

variable {lock : Option Holder} {current : Option Account}

theorem Held.exact (h : Held lock current) : ∀ account ∈ current.toList, account.Exact := by
  intro account hmem
  cases h with
  | free => cases hmem
  | held _ =>
    obtain rfl := List.mem_singleton.1 hmem
    rfl

theorem Held.lock_eq_none (h : Held lock none) : lock = none := by
  cases h
  rfl

theorem Held.current_eq_none (h : Held none current) : current = none := by
  cases h
  rfl

theorem Held.current_eq_some {holder : Holder} (h : Held (some holder) current) :
    ∃ load, Carries load holder.holding ∧
      current = some { send := ⟨holder.sender, load⟩ } := by
  cases h with
  | held hcarries => exact ⟨_, hcarries, rfl⟩

end Held

/-- A ledger fits an outbox. -/
structure Kept (l : Ledger) (o : Outbox) : Prop where
  past : ∀ account ∈ l.past, account.Exact
  holder : Held o.holder l.current
  waiting : o.holder = none → o.waiting = []
  scratch : o.scratch = []

namespace Ledger

/-- The chunks of a ledger with the senders of them. -/
def queued (l : Ledger) : List (Sender × Bytes) :=
  l.accounts.flatMap fun account => account.queued.map (account.send.sender, ·)

/-- The returns of a ledger. -/
def returned (l : Ledger) : List (Sender × Sent) :=
  l.accounts.filterMap Account.returned

/-- The sends of a ledger. -/
def sends (l : Ledger) : List Send :=
  l.accounts.map Account.send

theorem accounts_retire (l : Ledger) : l.retire.accounts = l.accounts :=
  List.append_nil _

theorem map_snd_queued (l : Ledger) : l.queued.map Prod.snd = l.chunks := by
  simp [queued, chunks, List.map_flatMap, Function.comp_def]

end Ledger

variable {l : Ledger}

theorem Kept.exact (h : Kept l o) : ∀ account ∈ l.accounts, account.Exact := by
  intro account hmem
  rcases List.mem_append.1 hmem with hpast | hcurrent
  · exact h.past account hpast
  · exact h.holder.exact account hcurrent

/-- A lock that changes no hands changes nothing in the ledger. -/
theorem enter_of_held (h : Held o.holder l.current) : l.enter o = l := by
  obtain ⟨past, current⟩ := l
  cases current with
  | some account => rfl
  | none =>
    have hnone : o.holder = none := h.lock_eq_none
    simp [Ledger.enter, Outbox.newcomer, hnone]

theorem Kept.of_same (h : Kept l o) (hholder : o'.holder = o.holder)
    (hwaiting : o'.waiting = o.waiting) (hscratch : o'.scratch = o.scratch) :
    Kept l o' ∧ l.enter o' = l := by
  have hheld : Held o'.holder l.current := hholder ▸ h.holder
  refine ⟨⟨h.past, hheld, ?_, hscratch.trans h.scratch⟩, enter_of_held hheld⟩
  rw [hholder, hwaiting]
  exact h.waiting

/-- A send that is let in gets the lock at once or waits for it behind all others. -/
theorem Kept.enter (h : Kept l o) (send : Send) :
    Kept (l.enter (o.enter send)) (o.enter send) ∧
      (l.enter (o.enter send)).queued = l.queued ∧
      (l.enter (o.enter send)).returned = l.returned ∧
      (l.enter (o.enter send)).sends ++ (o.enter send).waiting =
        l.sends ++ o.waiting ++ [send] := by
  have hheld := h.holder
  obtain ⟨past, current⟩ := l
  cases hholder : o.holder with
  | none =>
    rw [hholder] at hheld
    obtain rfl : current = none := hheld.current_eq_none
    have henter : o.enter send = { o with holder := some ⟨send.sender, .entered send.load⟩ } := by
      simp [Outbox.enter, hholder]
    have hledger : (Ledger.mk past none).enter (o.enter send) = ⟨past, some { send }⟩ := by
      rw [henter]
      rfl
    rw [hledger, henter]
    refine ⟨⟨h.past, .held (.entered send.load), ?_, h.scratch⟩, ?_, ?_, ?_⟩
    · intro hnone
      cases hnone
    · simp [Ledger.queued, Ledger.accounts]
    · simp [Ledger.returned, Ledger.accounts, Account.returned]
    · simp [Ledger.sends, Ledger.accounts, h.waiting hholder]
  | some holder =>
    have henter : o.enter send = { o with waiting := o.waiting ++ [send] } := by
      simp [Outbox.enter, hholder]
    have hheld' : Held (o.enter send).holder current := by
      rw [henter]
      exact hheld
    have hledger : (Ledger.mk past current).enter (o.enter send) = ⟨past, current⟩ :=
      enter_of_held hheld'
    rw [hledger]
    refine ⟨⟨h.past, hheld', ?_, ?_⟩, rfl, rfl, ?_⟩
    · rw [henter]
      intro hnone
      rw [hholder] at hnone
      cases hnone
    · rw [henter]
      exact h.scratch
    · rw [henter, List.append_assoc]

theorem queue_leave (o : Outbox) : o.leave.queue = o.queue ∧ o.leave.isOpen = o.isOpen := by
  unfold Outbox.leave
  split <;> exact ⟨rfl, rfl⟩

/-- When a send leaves, the lock goes to the one that waits longest, and so does the ledger. -/
theorem kept_leave {past : List Account} (hpast : ∀ account ∈ past, account.Exact)
    (hscratch : o.scratch = []) :
    Kept ((Ledger.mk past none).enter o.leave) o.leave ∧
      ((Ledger.mk past none).enter o.leave).queued = (Ledger.mk past none).queued ∧
      ((Ledger.mk past none).enter o.leave).returned = (Ledger.mk past none).returned ∧
      ((Ledger.mk past none).enter o.leave).sends ++ o.leave.waiting =
        (Ledger.mk past none).sends ++ o.waiting := by
  cases hwaiting : o.waiting with
  | nil =>
    have hleave : o.leave = { o with holder := none } := by simp [Outbox.leave, hwaiting]
    have hledger : (Ledger.mk past none).enter o.leave = ⟨past, none⟩ := by
      rw [hleave]
      rfl
    rw [hledger, hleave]
    exact ⟨⟨hpast, .free, fun _ => hwaiting, hscratch⟩, rfl, rfl, by rw [hwaiting]⟩
  | cons send rest =>
    have hleave : o.leave =
        { o with holder := some ⟨send.sender, .entered send.load⟩, waiting := rest } := by
      simp [Outbox.leave, hwaiting]
    have hledger : (Ledger.mk past none).enter o.leave = ⟨past, some { send }⟩ := by
      rw [hleave]
      rfl
    rw [hledger, hleave]
    refine ⟨⟨hpast, .held (.entered send.load), ?_, hscratch⟩, ?_, ?_, ?_⟩
    · intro hnone
      cases hnone
    · simp [Ledger.queued, Ledger.accounts]
    · simp [Ledger.returned, Ledger.accounts, Account.returned]
    · simp [Ledger.sends, Ledger.accounts]

/-- A call that is dropped leaves everything in the queue as it was.  Only if it waited for the lock
it is missing among the sends. -/
theorem Kept.giveUp (h : Kept l o) (call : Nat) :
    Kept (l.giveUp o call) (o.giveUp call) ∧ (l.giveUp o call).queued = l.queued ∧
      (l.giveUp o call).returned = l.returned ∧
      ((l.giveUp o call).sends ++ (o.giveUp call).waiting).Sublist (l.sends ++ o.waiting) ∧
      (l.sends ++ o.waiting).length ≤
        ((l.giveUp o call).sends ++ (o.giveUp call).waiting).length + 1 ∧
      (o.giveUp call).queue = o.queue ∧ (o.giveUp call).isOpen = o.isOpen := by
  unfold Ledger.giveUp Outbox.giveUp
  split
  · obtain ⟨hkept, hqueued, hreturned, hsends⟩ := kept_leave h.exact h.scratch
    obtain ⟨hqueue, hopen⟩ := queue_leave o
    have hsends' : l.retire.sends = l.sends := by
      rw [Ledger.sends, Ledger.accounts_retire, Ledger.sends]
    refine ⟨hkept, hqueued.trans ?_, hreturned.trans ?_, ?_, ?_, hqueue, hopen⟩
    · show l.retire.queued = l.queued
      rw [Ledger.queued, Ledger.accounts_retire, Ledger.queued]
    · show l.retire.returned = l.returned
      rw [Ledger.returned, Ledger.accounts_retire, Ledger.returned]
    · rw [← hsends']
      exact hsends ▸ List.Sublist.refl _
    · rw [← hsends']
      exact hsends ▸ Nat.le_succ _
  · -- The call waits for the lock, or it has returned and nothing is erased.
    let o' : Outbox := { o with waiting := o.waiting.eraseP (·.sender == .call call) }
    have hsublist : o'.waiting.Sublist o.waiting := List.eraseP_sublist
    have hlength : o.waiting.length ≤ o'.waiting.length + 1 := by
      have hle : o.waiting.length - 1 ≤ o'.waiting.length := List.le_length_eraseP
      omega
    have hledger : l.enter o' = l := enter_of_held h.holder
    rw [hledger]
    refine ⟨⟨h.past, h.holder, ?_, h.scratch⟩, rfl, rfl, ?_, ?_, rfl, rfl⟩
    · intro hnone
      rw [h.waiting hnone] at hsublist
      exact List.sublist_nil.1 hsublist
    · exact hsublist.append_left _
    · rw [List.length_append, List.length_append]
      exact Nat.add_le_add_left hlength _

/-- A step of the send that has the lock goes into the ledger as it can be seen. -/
theorem Kept.proceed (h : Kept l o) (hproceed : o.proceed now = some (sender, progress)) :
    let after := (l.note (Channel.eventsOf (π := π) sender progress)).enter progress.outbox
    Kept after progress.outbox ∧
      after.queued = l.queued ++ (progress.queued.map (sender, ·)).toList ∧
      after.returned = l.returned ++ (progress.sent.map (sender, ·)).toList ∧
      after.sends ++ progress.outbox.waiting = l.sends ++ o.waiting ∧
      progress.outbox.queue = o.queue ++ progress.queued.toList ∧
      progress.outbox.isOpen = o.isOpen ∧ (progress.queued ≠ none → o.isOpen = true) := by
  obtain ⟨past, current⟩ := l
  unfold Outbox.proceed at hproceed
  cases hholder : o.holder with
  | none => simp [hholder] at hproceed
  | some holder =>
    have hheld := h.holder
    rw [hholder] at hheld
    obtain ⟨load, hcarries, hcurrent⟩ := hheld.current_eq_some
    obtain rfl : current = _ := hcurrent
    simp only [hholder, Option.map_eq_some_iff, Prod.mk.injEq] at hproceed
    obtain ⟨progress', hfrom, rfl, rfl⟩ := hproceed
    intro after
    cases advance_of_proceedFrom hcarries h.scratch hfrom with
    | @stays o' holding hcarries' hholder' hwaiting hscratch hqueue hopen =>
      have hafter : after = ⟨past, some { send := ⟨holder.sender, load⟩ }⟩ := rfl
      rw [hafter]
      refine ⟨⟨h.past, ?_, ?_, hscratch⟩, ?_, ?_, ?_, ?_, hopen, absurd rfl⟩
      · rw [hholder']
        exact .held hcarries'
      · intro hnone
        rw [hholder'] at hnone
        cases hnone
      · exact (List.append_nil _).symm
      · exact (List.append_nil _).symm
      · rw [hwaiting]
      · rw [hqueue]
        exact (List.append_nil _).symm
    | @returns o' sent queued hexact hwaiting hscratch hqueue hopen hqueued =>
      let account : Account := ⟨⟨holder.sender, load⟩, queued.toList, some sent⟩
      have hpast : ∀ other ∈ past ++ [account], other.Exact := by
        intro other hmem
        rcases List.mem_append.1 hmem with hpast | hlast
        · exact h.past other hpast
        · obtain rfl := List.mem_singleton.1 hlast
          exact hexact
      have hafter : after = (Ledger.mk (past ++ [account]) none).enter o'.leave := by
        cases queued <;> rfl
      obtain ⟨hkept, hchunks, hreturned, hsends⟩ := kept_leave hpast hscratch
      obtain ⟨hqueue', hopen'⟩ := queue_leave o'
      rw [hafter]
      refine ⟨hkept, ?_, ?_, ?_, hqueue'.trans hqueue, hopen'.trans hopen, hqueued⟩
      · rw [hchunks]
        cases queued <;> simp [Ledger.queued, Ledger.accounts, account, Outbox.returning]
      · rw [hreturned]
        simp [Ledger.returned, Ledger.accounts, account, Account.returned, Outbox.returning]
      · refine hsends.trans ?_
        rw [hwaiting]
        simp [Ledger.sends, Ledger.accounts, account]

end FramedChannel
