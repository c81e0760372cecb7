import FramedChannel.Error

/-!
# Backpressure

Every chunk on its way to the transport holds a slot, and a writer gives the
slots of what it wrote back.  While all slots are taken, a reservation is
parked until a slot comes free or its time is over.

* `Slots` counts the taken slots.  The counter has 64 bits and wraps when more
  slots come back than were taken.
* `Wait` says how far a reservation is in its loop: it registers for the next
  release, looks for a free slot, and parks if there is none.
  `Reservation.stride` is one stride of that loop.
* `Backpressure` adds the clock and the reservations that wait.  A release
  gives its slots back first and wakes the registered ones after that.
* `Backpressure.step` allows strides of all reservations in any order, between
  all other actions, and `Backpressure.settle` lets one after another go on
  until it has to wait.
-/

namespace FramedChannel

/-! ## Slots -/

/-- A number of slots, some of which are taken. -/
structure Slots where
  limit : Nat
  taken : UInt64 := 0
  deriving DecidableEq, Repr

namespace Slots

/-- Whether no slot is free. -/
def isFull (slots : Slots) : Bool :=
  slots.limit ≤ slots.taken.toNat

/-- One more slot taken, if one is free. -/
def take? (slots : Slots) : Option Slots :=
  if slots.isFull then none else some { slots with taken := slots.taken + 1 }

/-- A number of slots given back. -/
def release (slots : Slots) (count : Nat) : Slots :=
  { slots with taken := slots.taken - UInt64.ofNat count }

theorem take?_eq_none_iff (slots : Slots) : slots.take? = none ↔ slots.isFull := by
  simp [take?]

theorem lt_of_take? {slots after : Slots} (h : slots.take? = some after) :
    slots.taken.toNat < slots.limit ∧ after.limit = slots.limit := by
  unfold take? at h
  split at h
  · cases h
  · rename_i hfree
    cases h
    exact ⟨by simpa [isFull] using hfree, rfl⟩

theorem toNat_taken_of_take? {slots after : Slots} (h : slots.take? = some after)
    (hlimit : slots.limit < UInt64.size) : after.taken.toNat = slots.taken.toNat + 1 := by
  unfold take? at h
  split at h
  · simp at h
  · rename_i hfull
    simp [isFull] at hfull
    cases h
    have hone : (1 : UInt64).toNat = 1 := rfl
    rw [UInt64.size] at hlimit
    rw [UInt64.toNat_add, hone, Nat.mod_eq_of_lt (by omega)]

theorem toNat_taken_release (slots : Slots) {count : Nat} (h : count ≤ slots.taken.toNat) :
    (slots.release count).taken.toNat = slots.taken.toNat - count := by
  have hbound := slots.taken.toNat_lt
  have hcount : (UInt64.ofNat count).toNat = count :=
    UInt64.toNat_ofNat_of_lt' (by rw [UInt64.size]; omega)
  rw [release, UInt64.toNat_sub_of_le _ _ (by rw [UInt64.le_iff_toNat_le]; omega), hcount]

end Slots

/-! ## Reservations -/

/-- How far a reservation is that has no slot yet.  `woken` says whether slots came back since it
registered for that. -/
inductive Wait where
  /-- It will register for the next release. -/
  | entering
  /-- It is registered and will look for a free slot. -/
  | listening (woken : Bool)
  /-- It is registered and found no free slot. -/
  | parked (woken : Bool)
  /-- Its time is over, and it will look for a free slot once more. -/
  | leaving
  deriving DecidableEq, Repr

/-- What a release does to a reservation. -/
def Wait.wake : Wait → Wait
  | entering => entering
  | listening _ => listening true
  | parked _ => parked true
  | leaving => leaving

/-- A stride of a reservation. -/
inductive Stride where
  /-- It registers for the next release. -/
  | listen
  /-- It looks for a free slot. -/
  | look
  /-- It starts over behind a release. -/
  | retry
  /-- It stops waiting for a release. -/
  | expire
  deriving DecidableEq, Repr

/-- What a stride comes to. -/
inductive Progress where
  | waits (wait : Wait)
  | takes (slots : Slots)
  | givesUp
  deriving DecidableEq, Repr

/-- A reservation that has no slot yet. -/
structure Reservation where
  /-- The call that waits for the slot. -/
  call : Nat
  /-- When the call gives up. -/
  deadline : Nat
  wait : Wait := .entering
  deriving DecidableEq, Repr

namespace Reservation

/-- What a stride comes to, if the reservation can make it.  One that was woken may still find
first that its time is over. -/
def stride (r : Reservation) (slots : Slots) (now : Nat) (stride : Stride) : Option Progress :=
  match stride, r.wait with
  | .listen, .entering => some (.waits (.listening false))
  | .look, .listening woken =>
    match slots.take? with
    | some slots => some (.takes slots)
    | none => some (.waits (.parked woken))
  | .retry, .parked true => some (.waits .entering)
  | .expire, .parked _ => if r.deadline ≤ now then some (.waits .leaving) else none
  | .look, .leaving =>
    match slots.take? with
    | some slots => some (.takes slots)
    | none => some .givesUp
  | _, _ => none

/-- The stride that a reservation makes next, unless it has to wait. -/
def next? (r : Reservation) (now : Nat) : Option Stride :=
  match r.wait with
  | .entering => some .listen
  | .listening _ | .leaving => some .look
  | .parked true => some .retry
  | .parked false => if r.deadline ≤ now then some .expire else none

end Reservation

/-- How many strides a reservation can make by itself. -/
def Wait.reach : Wait → Nat
  | listening true => 6
  | parked true => 5
  | entering => 4
  | listening false => 3
  | parked false => 2
  | leaving => 1

theorem Reservation.reach_lt {r : Reservation} {slots : Slots} {now : Nat} {stride : Stride}
    {wait : Wait} (hnext : r.next? now = some stride)
    (hstride : r.stride slots now stride = some (.waits wait)) : wait.reach < r.wait.reach := by
  obtain ⟨call, deadline, state⟩ := r
  cases state with
  | entering =>
    cases hnext
    cases hstride
    simp [Wait.reach]
  | listening woken =>
    cases hnext
    simp only [Reservation.stride] at hstride
    split at hstride <;> cases hstride
    cases woken <;> simp [Wait.reach]
  | parked woken =>
    cases woken with
    | true =>
      cases hnext
      cases hstride
      simp [Wait.reach]
    | false =>
      simp only [next?] at hnext
      split at hnext <;> cases hnext
      rename_i hdue
      simp only [Reservation.stride, if_pos hdue] at hstride
      cases hstride
      simp [Wait.reach]
  | leaving =>
    cases hnext
    simp only [Reservation.stride] at hstride
    split at hstride <;> cases hstride

/-! ## The controller -/

/-- Slots with reservations that wait for them. -/
structure Backpressure where
  slots : Slots
  /-- How long a reservation waits, in milliseconds. -/
  timeout : Nat
  now : Nat := 0
  /-- Reservations without a slot, the oldest first. -/
  waiting : List Reservation := []
  /-- Releases that gave their slots back and have woken nobody yet. -/
  waking : Nat := 0
  deriving DecidableEq, Repr

namespace Backpressure

/-- A controller whose slots are all free. -/
def of (limit timeout : Nat) : Backpressure :=
  { slots := { limit }, timeout }

/-- Takes a slot without waiting. -/
def tryReserve (b : Backpressure) : Except Error Unit × Backpressure :=
  match b.slots.take? with
  | some slots => (.ok (), { b with slots })
  | none => (.error .backpressureTimeout, b)

/-- A call begins to wait for a slot. -/
def reserve (b : Backpressure) (call : Nat) : Backpressure :=
  { b with waiting := b.waiting ++ [{ call, deadline := b.now + b.timeout }] }

/-- A release gives slots back.  One of no slots does nothing at all. -/
def giveBack (b : Backpressure) (count : Nat) : Backpressure :=
  if count = 0 then b
  else { b with slots := b.slots.release count, waking := b.waking + 1 }

/-- A release wakes whoever registered. -/
def wake (b : Backpressure) : Backpressure :=
  { b with
    waiting := b.waiting.map fun r => { r with wait := r.wait.wake }
    waking := b.waking - 1 }

/-- Gives slots back, and wakes whoever waits for one. -/
def release (b : Backpressure) (count : Nat) : Backpressure :=
  if count = 0 then b else (b.giveBack count).wake

/-- Time passes. -/
def advance (b : Backpressure) (time : Nat) : Backpressure :=
  { b with now := b.now + time }

/-- The controller behind a stride of a reservation.  The result has the call and its outcome, if
the call waits no longer. -/
def follow (b : Backpressure) (r : Reservation) :
    Progress → List (Nat × Except Error Unit) × Backpressure
  | .waits wait => ([], { b with waiting := b.waiting.replace r { r with wait } })
  | .takes slots => ([(r.call, .ok ())], { b with slots, waiting := b.waiting.erase r })
  | .givesUp =>
    ([(r.call, .error .backpressureTimeout)], { b with waiting := b.waiting.erase r })

/-- A reservation goes on until it has to wait. -/
def turn (b : Backpressure) (r : Reservation) : List (Nat × Except Error Unit) × Backpressure :=
  match _hnext : r.next? b.now with
  | none => ([], b)
  | some stride =>
    match _hstride : r.stride b.slots b.now stride with
    | none => ([], b)
    | some (.waits wait) => (b.follow r (.waits wait)).2.turn { r with wait }
    | some progress => b.follow r progress
termination_by r.wait.reach
decreasing_by exact Reservation.reach_lt _hnext _hstride

/-- Turns of some reservations, one after another. -/
def turns (b : Backpressure) : List Reservation → List (Nat × Except Error Unit) × Backpressure
  | [] => ([], b)
  | r :: rest =>
    let (ended, b) := b.turn r
    let (more, b) := b.turns rest
    (ended ++ more, b)

/-- Every reservation has a turn, the oldest first. -/
def settle (b : Backpressure) : List (Nat × Except Error Unit) × Backpressure :=
  b.turns b.waiting

/-! ## Histories -/

/-- What can happen to a controller, in any order. -/
inductive Action where
  | tryReserve
  | reserve (call : Nat)
  /-- A release gives slots back, and wakes nobody yet. -/
  | giveBack (count : Nat)
  /-- A release that gave its slots back wakes whoever registered. -/
  | wake
  | advance (time : Nat)
  /-- A reservation makes a stride. -/
  | go (reservation : Reservation) (stride : Stride)
  deriving DecidableEq, Repr

/-- How a call ended.  A `tryReserve` has no number. -/
abbrev Outcome :=
  Option Nat × Except Error Unit

/-- The outcome of a call that has a number. -/
def outcome (ended : Nat × Except Error Unit) : Outcome :=
  (some ended.1, ended.2)

/-- What an action does, with the calls that it ends, if it can happen. -/
def step (b : Backpressure) : Action → Option (List Outcome × Backpressure)
  | .tryReserve =>
    let (result, b) := b.tryReserve
    some ([(none, result)], b)
  | .reserve call => some ([], b.reserve call)
  | .giveBack count => some ([], b.giveBack count)
  | .wake => if b.waking = 0 then none else some ([], b.wake)
  | .advance time => some ([], b.advance time)
  | .go r stride =>
    if r ∈ b.waiting then
      (r.stride b.slots b.now stride).map fun progress =>
        let (ended, b) := b.follow r progress
        (ended.map outcome, b)
    else none

end Backpressure

end FramedChannel
