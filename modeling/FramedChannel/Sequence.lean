import FramedChannel.Error

/-!
# Sequences of received segments

Received bytes are kept as they came, one segment for each read, and counted.
What a sequence means is one byte string, `Sequence.bytes`, and every operation
has a lemma that says what it does to that byte string.

* `push` appends a segment and skips an empty one (`bytes_push`).
* `discard` drops bytes at the front (`bytes_discard`); `advance` is `discard`
  for a caller that promises not to drop more than there is.
* `slice?` and `decodeText` read a range.
-/

namespace FramedChannel

/-- Unconsumed received bytes in the segments in which they came, none of which is empty. -/
structure Sequence where
  segments : List Bytes := []
  /-- How many bytes are unconsumed. -/
  length : Nat := 0
  length_eq : length = Bytes.total segments := by rfl
  segments_ne : ∀ segment ∈ segments, segment ≠ [] := by exact List.forall_mem_nil _
  deriving DecidableEq, Repr

namespace Sequence

/-- The sequence without bytes. -/
def empty : Sequence :=
  {}

/-- The byte string that a sequence stands for. -/
def bytes (s : Sequence) : Bytes :=
  s.segments.flatten

/-- Whether no byte is left. -/
def isEmpty (s : Sequence) : Bool :=
  s.length == 0

/-- The sequence behind another received segment. -/
def push (s : Sequence) (segment : Bytes) : Sequence :=
  if h : segment = [] then s
  else
    { segments := s.segments ++ [segment]
      length := s.length + segment.length
      length_eq := by rw [Bytes.total_concat, s.length_eq]
      segments_ne := List.forall_mem_append.2 ⟨s.segments_ne, List.forall_mem_singleton.2 h⟩ }

/-- Segments without their first `count` bytes. -/
def discardFrom : Nat → List Bytes → List Bytes
  | _, [] => []
  | count, segment :: rest =>
    if count = 0 then segment :: rest
    else if segment.length ≤ count then discardFrom (count - segment.length) rest
    else segment.drop count :: rest

private theorem flatten_discardFrom_aux (segments : List Bytes) (count : Nat) :
    (discardFrom count segments).flatten = segments.flatten.drop count := by
  induction segments generalizing count with
  | nil => simp [discardFrom]
  | cons segment rest ih =>
    unfold discardFrom
    split
    · simp_all
    · split
      · next hle => simp [ih, List.drop_append, List.drop_eq_nil_of_le hle]
      · next hgt => simp [List.drop_append, Nat.sub_eq_zero_of_le (Nat.le_of_not_le hgt)]

private theorem total_discardFrom_aux (segments : List Bytes) (count : Nat) :
    Bytes.total (discardFrom count segments) = Bytes.total segments - count := by
  rw [← Bytes.length_flatten, flatten_discardFrom_aux, List.length_drop, Bytes.length_flatten]

private theorem discardFrom_ne_aux {segments : List Bytes}
    (h : ∀ segment ∈ segments, segment ≠ []) (count : Nat) :
    ∀ segment ∈ discardFrom count segments, segment ≠ [] := by
  induction segments generalizing count with
  | nil => exact h
  | cons segment rest ih =>
    unfold discardFrom
    split
    · exact h
    · split
      · exact ih (fun _ hmem => h _ (List.mem_cons_of_mem _ hmem)) _
      · next hgt =>
        refine List.forall_mem_cons.2 ⟨?_, fun _ hmem => h _ (List.mem_cons_of_mem _ hmem)⟩
        exact fun hnil => hgt (List.drop_eq_nil_iff.1 hnil)

/-- The sequence without its first `count` bytes. -/
def discard (s : Sequence) (count : Nat) : Sequence where
  segments := discardFrom count s.segments
  length := s.length - count
  length_eq := by rw [total_discardFrom_aux, s.length_eq]
  segments_ne := discardFrom_ne_aux s.segments_ne count

/-- The sequence without its first `count` bytes, which must be there. -/
def advance (s : Sequence) (count : Nat) : Except Breach Sequence :=
  if count ≤ s.length then .ok (s.discard count) else .error .advancePastSequence

/-- The sequence without its bytes. -/
def clear (_ : Sequence) : Sequence :=
  empty

/-! ## The byte string behind each operation -/

@[simp] theorem length_bytes (s : Sequence) : s.bytes.length = s.length :=
  (Bytes.length_flatten s.segments).trans s.length_eq.symm

@[simp] theorem length_empty : empty.length = 0 := rfl

@[simp] theorem bytes_empty : empty.bytes = [] := rfl

@[simp] theorem bytes_push (s : Sequence) (segment : Bytes) :
    (s.push segment).bytes = s.bytes ++ segment := by
  unfold push
  split
  · simp_all [bytes]
  · simp [bytes]

@[simp] theorem bytes_discard (s : Sequence) (count : Nat) :
    (s.discard count).bytes = s.bytes.drop count := by
  simp [bytes, discard, flatten_discardFrom_aux]

@[simp] theorem bytes_clear (s : Sequence) : s.clear.bytes = [] := rfl

end Sequence

end FramedChannel
