import Mathlib.Data.List.Perm.Basic
import FramedChannel.Backpressure

/-!
# No slot is sold twice, and no release is missed

A controller of slots is followed through a history in which the strides of all
reservations, the two halves of a release and the clock come in any order.

* `Reservation.stride_cases` is what one stride can come to, and says all of it.
* `History` are the actions so far, in which no slot is given back that was not
  taken before, and how the calls ended.
* `Tallied` is the invariant.  It counts the taken slots against the history,
  and says of every reservation (`Placed`) when it began, what it missed, and
  why it leaves.  `Tallied.step` preserves it, and `tallied_of_history` follows by
  induction.
* `History.settle` says that turns of the reservations are such strides, and
  `settled_settle` that nothing is left to do behind them.
-/

namespace FramedChannel

variable {r : Reservation} {slots : Slots} {now : Nat}

/-- All that a stride can come to. -/
theorem Reservation.stride_cases {stride : Stride} {progress : Progress}
    (h : r.stride slots now stride = some progress) :
    (r.wait = .entering ∧ progress = .waits (.listening false)) ∨
    (∃ woken, r.wait = .listening woken ∧ slots.isFull ∧ progress = .waits (.parked woken)) ∨
    (r.wait = .parked true ∧ progress = .waits .entering) ∨
    (∃ woken, r.wait = .parked woken ∧ r.deadline ≤ now ∧ progress = .waits .leaving) ∨
    (∃ after, slots.take? = some after ∧ progress = .takes after) ∨
    (r.wait = .leaving ∧ slots.isFull ∧ progress = .givesUp) := by
  cases hwait : r.wait with
  | entering =>
    cases stride <;> simp [stride, hwait] at h
    exact .inl ⟨rfl, h.symm⟩
  | listening woken =>
    cases stride <;> simp only [Reservation.stride, hwait, reduceCtorEq] at h
    split at h
    · rename_i after htake
      cases h
      exact .inr (.inr (.inr (.inr (.inl ⟨after, htake, rfl⟩))))
    · rename_i htake
      cases h
      exact .inr (.inl ⟨woken, rfl, slots.take?_eq_none_iff.1 htake, rfl⟩)
  | parked woken =>
    cases stride with
    | retry =>
      cases woken <;> simp [Reservation.stride, hwait] at h
      exact .inr (.inr (.inl ⟨rfl, h.symm⟩))
    | expire =>
      simp only [Reservation.stride, hwait] at h
      split at h <;> cases h
      rename_i hdue
      exact .inr (.inr (.inr (.inl ⟨woken, rfl, hdue, rfl⟩)))
    | _ => simp [Reservation.stride, hwait] at h
  | leaving =>
    cases stride <;> simp only [Reservation.stride, hwait, reduceCtorEq] at h
    split at h
    · rename_i after htake
      cases h
      exact .inr (.inr (.inr (.inr (.inl ⟨after, htake, rfl⟩))))
    · rename_i htake
      cases h
      exact .inr (.inr (.inr (.inr (.inr ⟨rfl, slots.take?_eq_none_iff.1 htake, rfl⟩))))

/-- A reservation has to wait if it is parked, was not woken, and has time left. -/
theorem Reservation.next?_eq_none_iff :
    r.next? now = none ↔ r.wait = .parked false ∧ now < r.deadline := by
  cases hwait : r.wait with
  | parked woken => cases woken <;> simp [next?, hwait]
  | _ => simp [next?, hwait]

theorem Reservation.stride_eq_none (h : r.next? now = none) (slots : Slots) (stride : Stride) :
    r.stride slots now stride = none := by
  obtain ⟨hparked, hearly⟩ := next?_eq_none_iff.1 h
  cases stride <;> simp [Reservation.stride, hparked]
  omega

/-- The stride that is next can be made. -/
theorem Reservation.exists_stride {stride : Stride} (h : r.next? now = some stride)
    (slots : Slots) : ∃ progress, r.stride slots now stride = some progress := by
  rw [← Option.isSome_iff_exists]
  cases hwait : r.wait with
  | entering =>
    simp only [next?, hwait, Option.some.injEq] at h
    subst h
    simp [Reservation.stride, hwait]
  | parked woken =>
    cases woken with
    | true =>
      simp only [next?, hwait, Option.some.injEq] at h
      subst h
      simp [Reservation.stride, hwait]
    | false =>
      simp only [next?, hwait] at h
      split at h <;> cases h
      rename_i hdue
      simp [Reservation.stride, hwait, hdue]
  | _ =>
    simp only [next?, hwait, Option.some.injEq] at h
    subst h
    cases htake : slots.take? <;> simp [Reservation.stride, hwait, htake]

namespace Backpressure

/-! ## Histories -/

/-- The slots that some actions give back. -/
def givenBack : List Action → Nat
  | [] => 0
  | .giveBack count :: rest => count + givenBack rest
  | _ :: rest => givenBack rest

/-- The time that passes while some actions happen. -/
def elapsed : List Action → Nat
  | [] => 0
  | .advance time :: rest => time + elapsed rest
  | _ :: rest => elapsed rest

/-- The reservations that succeeded. -/
def reserved (outcomes : List Outcome) : Nat :=
  outcomes.countP (·.2.isOk)

theorem givenBack_append (actions more : List Action) :
    givenBack (actions ++ more) = givenBack actions + givenBack more := by
  induction actions with
  | nil => simp [givenBack]
  | cons action rest ih => cases action <;> simp [givenBack, ih, Nat.add_assoc]

theorem elapsed_append (actions more : List Action) :
    elapsed (actions ++ more) = elapsed actions + elapsed more := by
  induction actions with
  | nil => simp [elapsed]
  | cons action rest ih => cases action <;> simp [elapsed, ih, Nat.add_assoc]

theorem reserved_append (outcomes more : List Outcome) :
    reserved (outcomes ++ more) = reserved outcomes + reserved more :=
  List.countP_append

/-- The actions so far of a controller that began with all slots free, with the calls that they
ended.  No more slots came back than were reserved before. -/
inductive History (limit timeout : Nat) : List Action → List Outcome → Backpressure → Prop where
  | start : History limit timeout [] [] (.of limit timeout)
  | more {actions : List Action} {action : Action} {outcomes ended : List Outcome}
      {b after : Backpressure} (hbefore : History limit timeout actions outcomes b)
      (hstep : b.step action = some (ended, after))
      (hreleases : givenBack (actions ++ [action]) ≤ reserved outcomes) :
      History limit timeout (actions ++ [action]) (outcomes ++ ended) after

/-- No reservation can make a stride, and nobody is left to be woken. -/
def Settled (b : Backpressure) : Prop :=
  b.step .wake = none ∧ ∀ r stride, b.step (.go r stride) = none

/-! ## The invariant -/

/-- What is true of a reservation that waits. -/
structure Placed (actions : List Action) (b : Backpressure) (r : Reservation) : Prop where
  /-- It has its deadline from the clock at its start. -/
  begun : ∃ before rest, actions = before ++ .reserve r.call :: rest ∧
    r.deadline = elapsed before + b.timeout
  /-- One that is parked has missed nothing: either no slot is free, or it is about to be woken. -/
  roused : r.wait = .parked false → 0 < b.waking ∨ b.slots.isFull
  /-- It leaves because its time is over. -/
  expired : r.wait = .leaving → r.deadline ≤ b.now

/-- What is true of a controller behind some actions. -/
structure Tallied (limit timeout : Nat) (actions : List Action) (outcomes : List Outcome)
    (b : Backpressure) : Prop where
  slots_limit : b.slots.limit = limit
  timeout_eq : b.timeout = timeout
  now_eq : b.now = elapsed actions
  exact : b.slots.taken.toNat + givenBack actions = reserved outcomes
  bound : b.slots.taken.toNat ≤ limit
  placed : ∀ r ∈ b.waiting, Placed actions b r

variable {limit timeout : Nat} {actions : List Action} {outcomes ended : List Outcome}
  {b after : Backpressure}

/-- What happens when a reservation makes a stride. -/
theorem step_go {stride : Stride} (h : b.step (.go r stride) = some (ended, after)) :
    r ∈ b.waiting ∧ ∃ progress, r.stride b.slots b.now stride = some progress ∧
      ended = (b.follow r progress).1.map outcome ∧ after = (b.follow r progress).2 := by
  simp only [step] at h
  split at h
  · rename_i hin
    obtain ⟨progress, hstride, hfollow⟩ := Option.map_eq_some_iff.1 h
    cases hfollow
    exact ⟨hin, progress, hstride, rfl, rfl⟩
  · cases h

theorem Placed.later (h : Placed actions b r) (action : Action)
    (htimeout : after.timeout = b.timeout) (hnow : b.now ≤ after.now)
    (hroused : 0 < b.waking ∨ b.slots.isFull → 0 < after.waking ∨ after.slots.isFull) :
    Placed (actions ++ [action]) after r := by
  obtain ⟨before, rest, hactions, hdeadline⟩ := h.begun
  refine ⟨⟨before, rest ++ [action], ?_, ?_⟩, fun hparked => hroused (h.roused hparked), ?_⟩
  · rw [hactions, List.append_assoc, List.cons_append]
  · rw [hdeadline, htimeout]
  · intro hleaving
    have := h.expired hleaving
    omega

/-- A reservation that makes a stride keeps its start. -/
theorem Placed.moved (h : Placed actions b r) (action : Action) {wait : Wait}
    (hsame : after.timeout = b.timeout)
    (hroused : wait = .parked false → 0 < after.waking ∨ after.slots.isFull)
    (hexpired : wait = .leaving → r.deadline ≤ after.now) :
    Placed (actions ++ [action]) after { r with wait } := by
  obtain ⟨before, rest, hactions, hdeadline⟩ := h.begun
  refine ⟨⟨before, rest ++ [action], ?_, ?_⟩, hroused, hexpired⟩
  · rw [hactions, List.append_assoc, List.cons_append]
  · rw [hsame]
    exact hdeadline

private theorem replace_perm_aux {r : Reservation} {waiting : List Reservation} (hin : r ∈ waiting)
    (moved : Reservation) : (waiting.replace r moved).Perm (moved :: waiting.erase r) := by
  induction waiting with
  | nil => cases hin
  | cons first rest ih =>
    by_cases hsame : first = r
    · subst hsame
      simp
    · have hlater : r ∈ rest := by
        rcases List.mem_cons.1 hin with hfirst | hrest
        · exact absurd hfirst.symm hsame
        · exact hrest
      have hreplace : (first :: rest).replace r moved = first :: rest.replace r moved := by
        rw [List.replace_cons, beq_false_of_ne (Ne.symm hsame)]
      rw [hreplace, List.erase_cons_tail (by simpa using hsame)]
      exact ((ih hlater).cons first).trans (List.Perm.swap ..)

/-- An action that takes no slot and gives none back keeps the tally. -/
theorem Tallied.of_placed (h : Tallied limit timeout actions outcomes b) {action : Action}
    (hgiven : givenBack [action] = 0) (helapsed : elapsed [action] = 0)
    (hslots : after.slots = b.slots) (htimeout : after.timeout = b.timeout)
    (hnow : after.now = b.now) (hended : reserved ended = 0)
    (hplaced : ∀ r ∈ after.waiting, Placed (actions ++ [action]) after r) :
    Tallied limit timeout (actions ++ [action]) (outcomes ++ ended) after := by
  refine ⟨?_, htimeout.trans h.timeout_eq, ?_, ?_, ?_, hplaced⟩
  · rw [hslots]
    exact h.slots_limit
  · rw [hnow, elapsed_append, helapsed]
    exact h.now_eq
  · rw [hslots, givenBack_append, hgiven, reserved_append, hended]
    exact h.exact
  · rw [hslots]
    exact h.bound

/-- A slot is taken, perhaps by one that waited for it. -/
theorem Tallied.take (hlimit : limit < UInt64.size)
    (h : Tallied limit timeout actions outcomes b) {action : Action}
    (hgiven : givenBack [action] = 0) (helapsed : elapsed [action] = 0) {free : Slots}
    (htake : b.slots.take? = some free) {waiting : List Reservation}
    (hwaiting : ∀ r ∈ waiting, r ∈ b.waiting) (call : Option Nat) :
    Tallied limit timeout (actions ++ [action]) (outcomes ++ [(call, .ok ())])
      { b with slots := free, waiting } := by
  obtain ⟨hfree, hsame⟩ := Slots.lt_of_take? htake
  have htaken := Slots.toNat_taken_of_take? htake (h.slots_limit ▸ hlimit)
  have hexact := h.exact
  have hone : reserved [(call, .ok ())] = 1 := rfl
  rw [h.slots_limit] at hfree
  refine ⟨hsame.trans h.slots_limit, h.timeout_eq, ?_, ?_, ?_, ?_⟩
  · rw [elapsed_append, helapsed]
    exact h.now_eq
  · rw [givenBack_append, hgiven, reserved_append, hone]
    show free.taken.toNat + _ = _
    omega
  · show free.taken.toNat ≤ limit
    omega
  · intro r hin
    refine (h.placed r (hwaiting r hin)).later action rfl (Nat.le_refl _) ?_
    -- A free slot was there, so the parked ones are about to be woken.
    rintro (hwaking | hfull)
    · exact .inl hwaking
    · rw [← Slots.take?_eq_none_iff, htake] at hfull
      cases hfull

/-- A stride keeps the tally. -/
theorem Tallied.go (hlimit : limit < UInt64.size) (h : Tallied limit timeout actions outcomes b)
    {r : Reservation} (hin : r ∈ b.waiting) {stride : Stride} {progress : Progress}
    (hstride : r.stride b.slots b.now stride = some progress) :
    Tallied limit timeout (actions ++ [.go r stride])
      (outcomes ++ (b.follow r progress).1.map outcome)
      (b.follow r progress).2 := by
  have hplaced := h.placed r hin
  have hothers : ∀ waiting, ∀ other ∈ b.waiting.erase r,
      Placed (actions ++ [.go r stride]) { b with waiting } other := by
    intro waiting other hother
    exact (h.placed other (List.mem_of_mem_erase hother)).later _ rfl (Nat.le_refl _) id
  have hwaits : ∀ wait, (wait = .parked false → b.slots.isFull) →
      (wait = .leaving → r.deadline ≤ b.now) →
        Tallied limit timeout (actions ++ [.go r stride]) (outcomes ++ [])
          { b with waiting := b.waiting.replace r { r with wait } } := by
    intro wait hfull hdue
    refine h.of_placed rfl rfl rfl rfl rfl rfl ?_
    intro other hother
    rcases List.mem_cons.1 ((replace_perm_aux hin _).mem_iff.1 hother) with rfl | hold
    · exact hplaced.moved _ rfl (fun hparked => .inr (hfull hparked)) hdue
    · exact hothers _ other hold
  obtain ⟨_, rfl⟩ | ⟨woken, _, hfull, rfl⟩ | ⟨_, rfl⟩ | ⟨woken, _, hdue, rfl⟩ |
    ⟨free, htake, rfl⟩ | ⟨_, _, rfl⟩ := Reservation.stride_cases hstride
  · exact hwaits _ (by simp) (by simp)
  · exact hwaits _ (fun _ => hfull) (by simp)
  · exact hwaits _ (by simp) (by simp)
  · exact hwaits _ (by simp) fun _ => hdue
  · exact h.take hlimit rfl rfl htake (fun _ => List.mem_of_mem_erase) (some r.call)
  · exact h.of_placed rfl rfl rfl rfl rfl rfl (hothers _)

/-- A release wakes the registered ones, so that none of them is left parked. -/
theorem Tallied.wake (h : Tallied limit timeout actions outcomes b) :
    Tallied limit timeout (actions ++ [.wake]) (outcomes ++ []) b.wake := by
  refine h.of_placed rfl rfl rfl rfl rfl rfl ?_
  intro r hin
  obtain ⟨old, hold, rfl⟩ := List.mem_map.1 hin
  refine (h.placed old hold).moved _ rfl ?_ ?_
  · intro hparked
    cases hwait : old.wait <;> simp [Wait.wake, hwait] at hparked
  · intro hleaving
    apply (h.placed old hold).expired
    cases hwait : old.wait <;> simp_all [Wait.wake]

/-- A release gives back slots that were taken before, and has yet to wake somebody. -/
theorem Tallied.giveBack (h : Tallied limit timeout actions outcomes b) {count : Nat}
    (hreleases : givenBack (actions ++ [.giveBack count]) ≤ reserved outcomes) :
    Tallied limit timeout (actions ++ [.giveBack count]) (outcomes ++ []) (b.giveBack count) := by
  have hexact := h.exact
  have hbound := h.bound
  have hgiven : givenBack (actions ++ [.giveBack count]) = givenBack actions + count := by
    rw [givenBack_append]
    rfl
  have helapsed : elapsed (actions ++ [.giveBack count]) = elapsed actions := by
    rw [elapsed_append]
    rfl
  rw [hgiven] at hreleases
  unfold Backpressure.giveBack
  split
  · rename_i hzero
    subst hzero
    refine h.of_placed rfl rfl rfl rfl rfl rfl ?_
    exact fun r hin => (h.placed r hin).later _ rfl (Nat.le_refl _) id
  · have hcount : count ≤ b.slots.taken.toNat := by omega
    have htaken := b.slots.toNat_taken_release hcount
    refine ⟨h.slots_limit, h.timeout_eq, h.now_eq.trans helapsed.symm, ?_, ?_, ?_⟩
    · rw [hgiven, List.append_nil, htaken]
      omega
    · rw [htaken]
      omega
    · intro r hin
      exact (h.placed r hin).later _ rfl (Nat.le_refl _) fun _ => .inl (Nat.succ_pos _)

/-- One action keeps the tally. -/
theorem Tallied.step (hlimit : limit < UInt64.size)
    (h : Tallied limit timeout actions outcomes b) {action : Action}
    (hstep : b.step action = some (ended, after))
    (hreleases : givenBack (actions ++ [action]) ≤ reserved outcomes) :
    Tallied limit timeout (actions ++ [action]) (outcomes ++ ended) after := by
  cases action with
  | tryReserve =>
    simp only [Backpressure.step, tryReserve] at hstep
    split at hstep <;> cases hstep
    · rename_i htake
      exact h.take hlimit rfl rfl htake (fun _ => id) none
    · refine h.of_placed rfl rfl rfl rfl rfl rfl ?_
      exact fun r hin => (h.placed r hin).later _ rfl (Nat.le_refl _) id
  | reserve call =>
    cases hstep
    refine h.of_placed rfl rfl rfl rfl rfl rfl ?_
    intro r hin
    rcases List.mem_append.1 hin with hold | hnew
    · exact (h.placed r hold).later _ rfl (Nat.le_refl _) id
    · rw [List.mem_singleton] at hnew
      subst hnew
      refine ⟨⟨actions, [], rfl, ?_⟩, by simp, by simp⟩
      rw [← h.now_eq]
      rfl
  | giveBack count =>
    cases hstep
    exact h.giveBack hreleases
  | wake =>
    simp only [Backpressure.step] at hstep
    split at hstep <;> cases hstep
    exact h.wake
  | advance time =>
    cases hstep
    refine ⟨h.slots_limit, h.timeout_eq, ?_, ?_, h.bound, ?_⟩
    · rw [elapsed_append, ← h.now_eq]
      rfl
    · rw [givenBack_append, List.append_nil]
      exact h.exact
    · exact fun r hin => (h.placed r hin).later _ rfl (Nat.le_add_right ..) id
  | go r stride =>
    obtain ⟨hin, progress, hstride, rfl, rfl⟩ := step_go hstep
    exact h.go hlimit hin hstride

theorem tallied_of_history (hlimit : limit < UInt64.size)
    (h : History limit timeout actions outcomes b) : Tallied limit timeout actions outcomes b := by
  induction h with
  | start => exact ⟨rfl, rfl, rfl, rfl, Nat.zero_le _, fun r hin => by cases hin⟩
  | more _ hstep hreleases ih => exact ih.step hlimit hstep hreleases

/-! ## Turns -/

theorem settled_iff : b.Settled ↔ b.waking = 0 ∧ ∀ r ∈ b.waiting, r.next? b.now = none := by
  constructor
  · rintro ⟨hwake, hgo⟩
    constructor
    · by_contra hwaking
      simp [step, hwaking] at hwake
    · intro r hin
      cases hnext : r.next? b.now with
      | none => rfl
      | some stride =>
        obtain ⟨progress, hstride⟩ := r.exists_stride hnext b.slots
        have hnone := hgo r stride
        simp [step, hin, hstride] at hnone
  · rintro ⟨hwaking, hrest⟩
    refine ⟨by simp [step, hwaking], ?_⟩
    intro r stride
    by_cases hin : r ∈ b.waiting
    · simp [step, hin, r.stride_eq_none (hrest r hin)]
    · simp [step, hin]

/-- What a turn leaves: the others as they were, and the reservation itself only if it has to
wait. -/
theorem turn_leaves (b : Backpressure) {r : Reservation} (hin : r ∈ b.waiting) :
    (b.turn r).2.now = b.now ∧ (b.turn r).2.waking = b.waking ∧
      ∃ stays, (b.turn r).2.waiting.Perm (stays ++ b.waiting.erase r) ∧
        ∀ s ∈ stays, s.next? b.now = none := by
  fun_induction turn b r with
  | case1 b r hnext =>
    refine ⟨rfl, rfl, [r], List.perm_cons_erase hin, ?_⟩
    intro s hs
    rw [List.mem_singleton.1 hs]
    exact hnext
  | case2 b r stride hnext hstride =>
    obtain ⟨progress, hprogress⟩ := r.exists_stride hnext b.slots
    rw [hstride] at hprogress
    cases hprogress
  | case3 b r stride hnext wait hstride ih =>
    have hperm := replace_perm_aux hin { r with wait }
    obtain ⟨hnow, hwaking, stays, hleaves, hstays⟩ := ih (hperm.mem_iff.2 (.head _))
    refine ⟨hnow, hwaking, stays, hleaves.trans ?_, hstays⟩
    apply List.Perm.append_left
    have herase := hperm.erase { r with wait }
    rwa [List.erase_cons_head] at herase
  | case4 b r stride hnext progress hnot hstride =>
    cases progress with
    | waits wait => exact absurd rfl (hnot wait)
    | takes free => exact ⟨rfl, rfl, [], .refl _, by simp⟩
    | givesUp => exact ⟨rfl, rfl, [], .refl _, by simp⟩

/-- Of the reservations that had no turn yet, a turn of the first one leaves the others. -/
theorem turn_of_rest {rest stays : List Reservation}
    (hwaiting : b.waiting.Perm (stays ++ r :: rest)) :
    r ∈ b.waiting ∧ (b.turn r).2.now = b.now ∧ (b.turn r).2.waking = b.waking ∧
      ∃ more, (b.turn r).2.waiting.Perm ((more ++ stays) ++ rest) ∧
        ∀ s ∈ more, s.next? b.now = none := by
  have hin : r ∈ b.waiting := hwaiting.mem_iff.2 (by simp)
  obtain ⟨hnow, hwaking, more, hleaves, hmore⟩ := b.turn_leaves hin
  have hothers : (b.waiting.erase r).Perm (stays ++ rest) := by
    have herase := (hwaiting.trans List.perm_middle).erase r
    rwa [List.erase_cons_head] at herase
  refine ⟨hin, hnow, hwaking, more, ?_, hmore⟩
  rw [List.append_assoc]
  exact hleaves.trans (hothers.append_left more)

/-- Every reservation that has had its turn and is still there has to wait. -/
theorem turns_leave {rest stays : List Reservation} (hwaiting : b.waiting.Perm (stays ++ rest))
    (hstays : ∀ s ∈ stays, s.next? b.now = none) :
    (b.turns rest).2.waking = b.waking ∧
      ∀ r ∈ (b.turns rest).2.waiting, r.next? (b.turns rest).2.now = none := by
  induction rest generalizing b stays with
  | nil =>
    rw [List.append_nil] at hwaiting
    exact ⟨rfl, fun r hin => hstays r (hwaiting.mem_iff.1 hin)⟩
  | cons r rest ih =>
    obtain ⟨_, hnow, hwaking, more, hbehind, hmore⟩ := turn_of_rest hwaiting
    have hstays' : ∀ s ∈ more ++ stays, s.next? (b.turn r).2.now = none := by
      intro s hs
      rw [hnow]
      rcases List.mem_append.1 hs with hnew | hold
      · exact hmore s hnew
      · exact hstays s hold
    obtain ⟨hwaking', hrest⟩ := ih hbehind hstays'
    exact ⟨hwaking'.trans hwaking, hrest⟩

/-- Behind a turn of every reservation, nothing is left to do but to end the releases. -/
theorem settled_settle (hwaking : b.waking = 0) : b.settle.2.Settled := by
  have hwaiting : b.waiting.Perm ([] ++ b.waiting) := .refl _
  obtain ⟨hsame, hrest⟩ := turns_leave hwaiting (by simp)
  exact settled_iff.2 ⟨hsame.trans hwaking, hrest⟩

namespace History

theorem covered (h : History limit timeout actions outcomes b) :
    givenBack actions ≤ reserved outcomes := by
  induction h with
  | start => exact Nat.le_refl 0
  | more _ _ hreleases _ =>
    rw [reserved_append]
    omega

theorem go (h : History limit timeout actions outcomes b) (hin : r ∈ b.waiting) {stride : Stride}
    {progress : Progress} (hstride : r.stride b.slots b.now stride = some progress) :
    History limit timeout (actions ++ [.go r stride])
      (outcomes ++ (b.follow r progress).1.map outcome) (b.follow r progress).2 := by
  refine h.more (by simp [step, hin, hstride]) ?_
  rw [givenBack_append]
  exact h.covered

/-- A turn is some strides of one reservation. -/
theorem turn (h : History limit timeout actions outcomes b) (hin : r ∈ b.waiting) :
    ∃ strides : List (Reservation × Stride),
      History limit timeout (actions ++ strides.map fun (r, stride) => .go r stride)
        (outcomes ++ (b.turn r).1.map outcome) (b.turn r).2 := by
  fun_induction Backpressure.turn b r generalizing actions outcomes with
  | case1 b r hnext => exact ⟨[], by simpa using h⟩
  | case2 b r stride hnext hstride => exact ⟨[], by simpa using h⟩
  | case3 b r stride hnext wait hstride ih =>
    have hmoved := h.go hin hstride
    obtain ⟨strides, hrest⟩ := ih hmoved ((replace_perm_aux hin _).mem_iff.2 (.head _))
    refine ⟨(r, stride) :: strides, ?_⟩
    simpa [follow, List.append_assoc] using hrest
  | case4 b r stride hnext progress hnot hstride => exact ⟨[(r, stride)], h.go hin hstride⟩

theorem turns (h : History limit timeout actions outcomes b) {rest stays : List Reservation}
    (hwaiting : b.waiting.Perm (stays ++ rest)) :
    ∃ strides : List (Reservation × Stride),
      History limit timeout (actions ++ strides.map fun (r, stride) => .go r stride)
        (outcomes ++ (b.turns rest).1.map outcome) (b.turns rest).2 := by
  induction rest generalizing b stays actions outcomes with
  | nil => exact ⟨[], by simpa [Backpressure.turns] using h⟩
  | cons r rest ih =>
    obtain ⟨hin, _, _, more, hbehind, _⟩ := turn_of_rest hwaiting
    obtain ⟨first, hfirst⟩ := h.turn hin
    obtain ⟨others, hothers⟩ := ih hfirst hbehind
    refine ⟨first ++ others, ?_⟩
    simpa [Backpressure.turns, List.append_assoc] using hothers

/-- To let all reservations have their turns is one way that a history can go on. -/
theorem settle (h : History limit timeout actions outcomes b) :
    ∃ strides : List (Reservation × Stride),
      History limit timeout (actions ++ strides.map fun (r, stride) => .go r stride)
        (outcomes ++ b.settle.1.map outcome) b.settle.2 := by
  have hwaiting : b.waiting.Perm ([] ++ b.waiting) := .refl _
  exact h.turns hwaiting

end History

/-! ## All histories -/

/-- Whatever happens to a controller, and in whatever order: no more slots are taken than there
are, and just those that were reserved and did not come back.  If reservations wait and none of
them can do anything, all slots are taken.  And a reservation fails only when its time is over,
counted from its start, and when no slot is free at that moment. -/
theorem slots_of_history (hlimit : limit < UInt64.size)
    (h : History limit timeout actions outcomes b) :
    b.slots.taken.toNat ≤ limit ∧
      b.slots.taken.toNat + givenBack actions = reserved outcomes ∧
      (b.Settled → b.waiting ≠ [] → b.slots.taken.toNat = limit) ∧
      ∀ action ended after call error, b.step action = some (ended, after) →
        (some call, .error error) ∈ ended →
          error = .backpressureTimeout ∧ b.slots.taken.toNat = limit ∧
            ∃ before rest, actions = before ++ .reserve call :: rest ∧
              elapsed before + timeout ≤ elapsed actions := by
  have htallied := tallied_of_history hlimit h
  have hbound := htallied.bound
  have hall : b.slots.isFull → b.slots.taken.toNat = limit := by
    intro hfull
    have hle : b.slots.limit ≤ b.slots.taken.toNat := by simpa [Slots.isFull] using hfull
    rw [htallied.slots_limit] at hle
    omega
  refine ⟨hbound, htallied.exact, ?_, ?_⟩
  · intro hsettled hne
    obtain ⟨hwaking, hrest⟩ := settled_iff.1 hsettled
    obtain ⟨r, hin⟩ := List.exists_mem_of_ne_nil _ hne
    obtain ⟨hparked, _⟩ := Reservation.next?_eq_none_iff.1 (hrest r hin)
    rcases (htallied.placed r hin).roused hparked with hsoon | hfull
    · omega
    · exact hall hfull
  · intro action ended after call error hstep hended
    cases action with
    | go r stride =>
      obtain ⟨hin, progress, hstride, rfl, rfl⟩ := step_go hstep
      obtain ⟨_, rfl⟩ | ⟨_, _, _, rfl⟩ | ⟨_, rfl⟩ | ⟨_, _, _, rfl⟩ | ⟨_, _, rfl⟩ |
        ⟨hleaving, hfull, rfl⟩ := Reservation.stride_cases hstride <;>
          simp [follow, outcome] at hended
      obtain ⟨rfl, rfl⟩ := hended
      have hplaced := htallied.placed r hin
      have hdue := hplaced.expired hleaving
      obtain ⟨before, rest, hactions, hdeadline⟩ := hplaced.begun
      refine ⟨rfl, hall hfull, before, rest, hactions, ?_⟩
      rw [← htallied.now_eq, ← htallied.timeout_eq, ← hdeadline]
      exact hdue
    | wake =>
      simp only [step] at hstep
      split at hstep <;> cases hstep
      cases hended
    | _ =>
      cases hstep
      simp at hended

/-- One slot, which was taken without waiting.  A reservation waits for it in vain until its time
is over, and then gives up. -/
theorem slots_of_history_givenUp :
    let waiting : Wait → Reservation := fun wait => { call := 7, deadline := 20, wait }
    let taken : Nat → Wait → Backpressure := fun now wait =>
      { slots := { limit := 1, taken := 1 }, timeout := 20, now, waiting := [waiting wait] }
    let actions : List Action :=
      [.tryReserve, .reserve 7, .go (waiting .entering) .listen,
        .go (waiting (.listening false)) .look, .advance 20, .go (waiting (.parked false)) .expire]
    1 < UInt64.size ∧ History 1 20 actions [(none, .ok ())] (taken 20 .leaving) ∧
      ((taken 20 .leaving).step (.go (waiting .leaving) .look)).map Prod.fst =
        some [(some 7, .error .backpressureTimeout)] ∧
      (taken 20 .leaving).slots.taken.toNat = 1 ∧
      ∃ before rest, actions = before ++ .reserve 7 :: rest ∧ elapsed before + 20 ≤ 20 := by
  intro waiting taken actions
  have hlimit : 1 < UInt64.size := by decide
  have htaken := @History.more 1 20 [] .tryReserve [] [(none, .ok ())] _
    { taken 0 .entering with waiting := [] } .start rfl (by decide)
  have hbegun := @History.more 1 20 _ (.reserve 7) _ [] _ (taken 0 .entering) htaken rfl
    (by decide)
  have hlistening := @History.more 1 20 _ (.go (waiting .entering) .listen) _ [] _
    (taken 0 (.listening false)) hbegun rfl (by decide)
  have hparked := @History.more 1 20 _ (.go (waiting (.listening false)) .look) _ [] _
    (taken 0 (.parked false)) hlistening rfl (by decide)
  have hlate := @History.more 1 20 _ (.advance 20) _ [] _ (taken 20 (.parked false)) hparked rfl
    (by decide)
  have hleaving : History 1 20 actions [(none, .ok ())] (taken 20 .leaving) :=
    @History.more 1 20 _ (.go (waiting (.parked false)) .expire) _ [] _ _ hlate rfl (by decide)
  obtain ⟨_, _, _, hfails⟩ := slots_of_history hlimit hleaving
  have hlook : (taken 20 .leaving).step (.go (waiting .leaving) .look) =
    some ([(some 7, .error .backpressureTimeout)], { taken 20 .leaving with waiting := [] }) := rfl
  obtain ⟨_, hfull, hstart⟩ := hfails _ _ _ 7 .backpressureTimeout hlook (.head _)
  exact ⟨hlimit, hleaving, by rw [hlook]; rfl, hfull, hstart⟩

end Backpressure

end FramedChannel
