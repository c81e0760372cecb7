import FramedChannel.Bytes
import FramedChannel.Error

/-!
# Batches

A batch is a list of chunks that one write offers together.  A writer may take
any part of what it is offered, so a batch is offered again without what was
taken, until nothing is left.

* `remaining` gives the slices that are still to be offered: the bytes of the
  batch behind those that were taken (`flatten_remaining`), in slices that are
  not empty (`ne_nil_of_mem_remaining`).
* `offer` offers them until all are taken, or the writer fails or makes it
  wait.
* `write` offers a batch, and asks the writer behind it to pass on what it
  took.
-/

namespace FramedChannel

/-- What a writer does with an offer. -/
inductive Writing where
  /-- It takes that many bytes. -/
  | took (count : Nat)
  /-- It takes nothing for now. -/
  | blocked
  | failed (fault : TransportFault)
  deriving DecidableEq, Repr

namespace Batch

/-- The number of bytes of a batch. -/
def size (batch : List Bytes) : Nat :=
  Bytes.total batch

@[simp] theorem size_nil : size [] = 0 := rfl

@[simp] theorem size_cons (chunk : Bytes) (rest : List Bytes) :
    size (chunk :: rest) = chunk.length + size rest := rfl

theorem length_flatten (batch : List Bytes) : batch.flatten.length = size batch :=
  Bytes.length_flatten batch

theorem flatten_eq_nil_of_size {batch : List Bytes} (h : size batch = 0) : batch.flatten = [] :=
  List.length_eq_zero_iff.1 ((length_flatten batch).trans h)

/-- Behind a batch that is written there is nothing left of it. -/
theorem drop_flatten_of_le {batch : List Bytes} {taken : Nat} (h : size batch ≤ taken) :
    batch.flatten.drop taken = [] :=
  List.drop_eq_nil_of_le (by rwa [length_flatten])

/-! ## What is left of a batch -/

/-- The slices behind the first `skip` bytes of a batch, of which the chunks that begin at `start`
are given. -/
def remainingFrom (skip : Nat) : Nat → List Bytes → List Bytes
  | _, [] => []
  | start, chunk :: rest =>
    let stop := start + chunk.length
    if skip < stop && !chunk.isEmpty then
      chunk.drop (skip - start) :: remainingFrom skip stop rest
    else remainingFrom skip stop rest

/-- The slices of a batch behind its first `skip` bytes, none of them empty. -/
def remaining (batch : List Bytes) (skip : Nat) : List Bytes :=
  remainingFrom skip 0 batch

theorem flatten_remainingFrom (batch : List Bytes) (skip start : Nat) :
    (remainingFrom skip start batch).flatten = batch.flatten.drop (skip - start) := by
  induction batch generalizing start with
  | nil => simp [remainingFrom]
  | cons chunk rest ih =>
    have hstop : skip - (start + chunk.length) = skip - start - chunk.length := by omega
    simp only [remainingFrom, List.flatten_cons, List.drop_append]
    split
    · rw [List.flatten_cons, ih, hstop]
    · rename_i hskip
      have hnone : chunk.drop (skip - start) = [] := by
        cases chunk with
        | nil => exact List.drop_nil
        | cons byte bytes =>
          simp only [List.isEmpty_cons, Bool.not_false, Bool.and_true, decide_eq_true_eq,
            Nat.not_lt] at hskip
          exact List.drop_eq_nil_of_le (by omega)
      rw [ih, hstop, hnone, List.nil_append]

@[simp] theorem flatten_remaining (batch : List Bytes) (skip : Nat) :
    (remaining batch skip).flatten = batch.flatten.drop skip :=
  flatten_remainingFrom batch skip 0

theorem ne_nil_of_mem_remainingFrom {batch : List Bytes} {skip start : Nat} {slice : Bytes}
    (h : slice ∈ remainingFrom skip start batch) : slice ≠ [] := by
  induction batch generalizing start with
  | nil => simp [remainingFrom] at h
  | cons chunk rest ih =>
    simp only [remainingFrom] at h
    split at h
    · rename_i hskip
      simp only [Bool.and_eq_true, decide_eq_true_eq, Bool.not_eq_true',
        List.isEmpty_eq_false_iff] at hskip
      rcases List.mem_cons.1 h with rfl | h
      · have hlength := List.length_pos_iff.2 hskip.2
        rw [Ne, List.drop_eq_nil_iff]
        omega
      · exact ih h
    · exact ih h

theorem ne_nil_of_mem_remaining {batch : List Bytes} {skip : Nat} {slice : Bytes}
    (h : slice ∈ remaining batch skip) : slice ≠ [] :=
  ne_nil_of_mem_remainingFrom h

/-! ## Writing a batch -/

/-- How writing ended. -/
inductive Outcome where
  | written
  | blocked
  | failed (fault : TransportFault)
  deriving DecidableEq, Repr

/-- Something that takes bytes, with its states in `ω`. -/
structure Writer (ω : Type) where
  /-- It is offered some slices. -/
  write : ω → List Bytes → Writing × ω
  /-- It is asked to pass on what it took. -/
  flush : ω → Outcome × ω

/-- Offers what is left of a batch behind its first `taken` bytes, until nothing is left.  The
result has the number of bytes that were taken altogether.  Every offer that is not the last takes
a byte at least. -/
def offer {ω : Type} (writer : Writer ω) (batch : List Bytes) (taken : Nat) (w : ω) :
    Outcome × Nat × ω :=
  if taken < size batch then
    match writer.write w (remaining batch taken) with
    | (.took 0, w) => (.failed .tookNothing, taken, w)
    | (.took (count + 1), w) => offer writer batch (taken + (count + 1)) w
    | (.blocked, w) => (.blocked, taken, w)
    | (.failed fault, w) => (.failed fault, taken, w)
  else (.written, taken, w)
termination_by size batch - taken

/-- Writes a batch of which `taken` bytes are written.  There is nothing to pass on if the batch has
no bytes. -/
def write {ω : Type} (writer : Writer ω) (batch : List Bytes) (taken : Nat) (w : ω) :
    Outcome × Nat × ω :=
  if size batch = 0 then (.written, taken, w)
  else
    match offer writer batch taken w with
    | (.written, taken, w) =>
      let (outcome, w) := writer.flush w
      (outcome, taken, w)
    | ended => ended

end Batch

end FramedChannel
