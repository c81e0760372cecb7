import FramedChannel.Sequence.Cursor
import FramedChannel.Proofs.Bytes.FirstOccurrence

/-!
# Where a cursor stands

A cursor names its place by a segment and an offset in it, and counts the bytes
in front of it.  This module shows that the two agree, and says what each
operation does to the bytes that are left, without a word about segments.

* `Stands` are the places at which a byte can be read, and the one behind the
  last segment.  `walk_of_le` and `gather_of_le` follow the segments from there.
* `Cursor.InPlace` is the invariant.
* `bytes_of_inPlace` gives the bytes that are left; one lemma for each operation
  follows, in which every access to a segment succeeds.
-/

namespace FramedChannel.Cursor

variable {segments : List Bytes} {segment offset count : Nat}

/-! ## Places -/

/-- The place is one of a byte, or the one behind the last segment. -/
def Stands (segments : List Bytes) (segment offset : Nat) : Prop :=
  (∃ hin : segment < segments.length, offset < segments[segment].length) ∨
    segment = segments.length ∧ offset = 0

/-- How many bytes are in front of a place. -/
def front (segments : List Bytes) (segment offset : Nat) : Nat :=
  Bytes.total (segments.take segment) + offset

/-- The bytes from a place on. -/
def rest (segments : List Bytes) (segment offset : Nat) : Bytes :=
  (segments.drop segment).flatten.drop offset

theorem rest_of_lt (hin : segment < segments.length) (hle : offset ≤ segments[segment].length) :
    rest segments segment offset =
      segments[segment].drop offset ++ rest segments (segment + 1) 0 := by
  rw [rest, rest, List.drop_eq_getElem_cons hin, List.flatten_cons,
    List.drop_append_of_le_length hle, List.drop_zero]

theorem rest_of_le (hout : segments.length ≤ segment) : rest segments segment offset = [] := by
  rw [rest, List.drop_eq_nil_of_le hout, List.flatten_nil, List.drop_nil]

theorem front_succ (hin : segment < segments.length) (hle : offset ≤ segments[segment].length) :
    front segments (segment + 1) 0 =
      front segments segment offset + (segments[segment].length - offset) := by
  rw [front, front, List.take_succ_eq_append_getElem hin, Bytes.total_concat]
  omega

/-- What is left are the bytes behind those in front. -/
theorem drop_front (segments : List Bytes) (segment offset : Nat) :
    segments.flatten.drop (front segments segment offset) = rest segments segment offset := by
  have hall : segments.flatten =
      (segments.take segment).flatten ++ (segments.drop segment).flatten := by
    rw [← List.flatten_append, List.take_append_drop]
  rw [hall, front, rest, ← Bytes.length_flatten, ← List.drop_drop, List.drop_left]

theorem front_le (h : Stands segments segment offset) :
    front segments segment offset ≤ Bytes.total segments := by
  have hprefix : ∀ count, Bytes.total (segments.take count) ≤ Bytes.total segments := by
    intro count
    have hall : (segments.take count).flatten.length + (segments.drop count).flatten.length =
        segments.flatten.length := by
      rw [← List.length_append, ← List.flatten_append, List.take_append_drop]
    rw [← Bytes.length_flatten, ← Bytes.length_flatten]
    omega
  rcases h with ⟨hin, hlt⟩ | ⟨-, rfl⟩
  · have hsucc := front_succ hin (Nat.le_of_lt hlt)
    have hnext := hprefix (segment + 1)
    rw [front] at hsucc
    omega
  · exact hprefix segment

/-- No segment is empty, so the beginning of the next one is a place. -/
theorem stands_succ (hne : ∀ run ∈ segments, run ≠ []) (hin : segment < segments.length) :
    Stands segments (segment + 1) 0 := by
  by_cases hlast : segment + 1 < segments.length
  · exact .inl ⟨hlast, List.length_pos_iff.2 (hne _ (List.getElem_mem hlast))⟩
  · exact .inr ⟨by omega, rfl⟩

theorem stands_zero (hne : ∀ run ∈ segments, run ≠ []) : Stands segments 0 0 := by
  by_cases hsome : 0 < segments.length
  · exact .inl ⟨hsome, List.length_pos_iff.2 (hne _ (List.getElem_mem hsome))⟩
  · exact .inr ⟨by omega, rfl⟩

/-! ## Following the segments -/

/-- Going on by no more bytes than are left ends at a place, and at no segment that is not there. -/
theorem walk_of_le (hne : ∀ run ∈ segments, run ≠ []) (h : Stands segments segment offset)
    (hcount : count ≤ (rest segments segment offset).length) :
    ∃ segment' offset', walk segments segment offset count = .ok (segment', offset') ∧
      Stands segments segment' offset' ∧
      front segments segment' offset' = front segments segment offset + count := by
  fun_induction walk segments segment offset count with
  | case1 segment offset => exact ⟨segment, offset, rfl, h, rfl⟩
  | case2 segment offset count hpos hin left hlt =>
    exact ⟨segment, offset + count, rfl, .inl ⟨hin, by omega⟩, by rw [front, front]; omega⟩
  | case3 segment offset count hpos hin left hge ih =>
    have hoffset : offset ≤ segments[segment].length := by
      rcases h with ⟨_, hlt⟩ | ⟨hend, _⟩ <;> omega
    rw [rest_of_lt hin hoffset, List.length_append, List.length_drop] at hcount
    obtain ⟨segment', offset', hwalk, hstands, hfront⟩ :=
      ih (stands_succ hne hin) (by omega)
    refine ⟨segment', offset', hwalk, hstands, ?_⟩
    rw [hfront, front_succ hin hoffset]
    omega
  | case4 segment offset count hpos hout =>
    rw [rest_of_le (Nat.not_lt.1 hout), List.length_nil] at hcount
    omega

/-- Bytes that are left are gathered from as many segments as they lie in. -/
theorem gather_of_le (hne : ∀ run ∈ segments, run ≠ []) (h : Stands segments segment offset)
    (hcount : count ≤ (rest segments segment offset).length) :
    gather segments segment offset count = .ok ((rest segments segment offset).take count) := by
  fun_induction gather segments segment offset count with
  | case1 segment offset => rfl
  | case2 segment offset count hpos hin piece ih =>
    have hoffset : offset ≤ segments[segment].length := by
      rcases h with ⟨_, hlt⟩ | ⟨hend, _⟩ <;> omega
    have hpiece : piece.length = min count (segments[segment].length - offset) := by
      rw [List.length_take, List.length_drop]
    rw [rest_of_lt hin hoffset] at hcount ⊢
    rw [List.length_append, List.length_drop] at hcount
    rw [ih (stands_succ hne hin) (by omega), Except.map, List.take_append, List.length_drop]
    congr 3
    omega
  | case3 segment offset count hpos hout =>
    rw [rest_of_le (Nat.not_lt.1 hout), List.length_nil] at hcount
    omega

/-! ## Cursors in place -/

/-- The place of a cursor is one, and it has counted the bytes in front of it. -/
structure InPlace (c : Cursor) : Prop where
  stands : Stands c.sequence.segments c.segment c.offset
  consumed_eq : c.consumed = front c.sequence.segments c.segment c.offset

theorem inPlace_cursor (s : Sequence) : s.cursor.InPlace where
  stands := stands_zero s.segments_ne
  consumed_eq := rfl

variable {c : Cursor}

theorem rest_of_inPlace {c : Cursor} (h : c.InPlace) :
    rest c.sequence.segments c.segment c.offset = c.sequence.bytes.drop c.consumed := by
  rw [h.consumed_eq, Sequence.bytes, drop_front]

section InPlace

variable {c : Cursor}

/-- The bytes that are left are those of the sequence behind the ones that were counted. -/
theorem bytes_of_inPlace (h : c.InPlace) : c.bytes = c.sequence.bytes.drop c.consumed := by
  rw [← rest_of_inPlace h, bytes]
  rcases h.stands with ⟨hin, hlt⟩ | ⟨hend, -⟩
  · rw [rest_of_lt hin (Nat.le_of_lt hlt), List.drop_eq_getElem_cons hin, rest, List.drop_zero]
  · rw [List.drop_eq_nil_of_le (Nat.le_of_eq hend.symm), rest_of_le (Nat.le_of_eq hend.symm)]

theorem remaining_of_inPlace (h : c.InPlace) : c.remaining = c.bytes.length := by
  rw [bytes_of_inPlace h, List.length_drop, Sequence.length_bytes, remaining]

theorem consumed_le_of_inPlace (h : c.InPlace) : c.consumed ≤ c.sequence.length := by
  rw [h.consumed_eq, c.sequence.length_eq]
  exact front_le h.stands

/-! ## Moving -/

/-- The cursor `after` is in place, and so many bytes further on in the same sequence. -/
structure Ahead (c : Cursor) (count : Nat) (after : Cursor) : Prop where
  inPlace : after.InPlace
  sequence_eq : after.sequence = c.sequence
  consumed_eq : after.consumed = c.consumed + count

theorem Ahead.refl (h : c.InPlace) : c.Ahead 0 c := ⟨h, rfl, rfl⟩

theorem Ahead.trans {middle after : Cursor} {more : Nat} (h : c.Ahead count middle)
    (h' : middle.Ahead more after) : c.Ahead (count + more) after where
  inPlace := h'.inPlace
  sequence_eq := h'.sequence_eq.trans h.sequence_eq
  consumed_eq := by rw [h'.consumed_eq, h.consumed_eq, Nat.add_assoc]

/-- What is left further on is what was left behind the bytes that were passed. -/
theorem Ahead.bytes_eq {after : Cursor} (h : c.Ahead count after) (hc : c.InPlace) :
    after.bytes = c.bytes.drop count := by
  rw [bytes_of_inPlace h.inPlace, bytes_of_inPlace hc, h.sequence_eq, h.consumed_eq,
    List.drop_drop]

theorem advance_of_le (h : c.InPlace) (hcount : count ≤ c.bytes.length) :
    ∃ after, c.advance count = .ok after ∧ c.Ahead count after := by
  have hleft : count ≤ (rest c.sequence.segments c.segment c.offset).length := by
    rw [rest_of_inPlace h, ← bytes_of_inPlace h]
    exact hcount
  obtain ⟨segment, offset, hwalk, hstands, hfront⟩ :=
    walk_of_le c.sequence.segments_ne h.stands hleft
  have hadvance : c.advance count =
      .ok { c with consumed := c.consumed + count, segment, offset } := by
    rw [advance, remaining_of_inPlace h, if_pos hcount, hwalk]
    rfl
  refine ⟨_, hadvance, ⟨hstands, ?_⟩, rfl, rfl⟩
  show c.consumed + count = front c.sequence.segments segment offset
  rw [hfront, h.consumed_eq]

theorem advance_of_lt (h : c.InPlace) (hcount : c.bytes.length < count) :
    c.advance count = .error .advancePastCursor := by
  rw [advance, remaining_of_inPlace h, if_neg (Nat.not_le.2 hcount)]

/-- Going back is going on from the beginning. -/
theorem rewind_of_le (h : c.InPlace) (hcount : count ≤ c.consumed) :
    ∃ after, c.rewind count = .ok after ∧ after.InPlace ∧ after.sequence = c.sequence ∧
      after.consumed = c.consumed - count := by
  have hfresh := inPlace_cursor c.sequence
  have hbytes : c.sequence.cursor.bytes.length = c.sequence.length := by
    rw [bytes_of_inPlace hfresh, ← Sequence.length_bytes]
    rfl
  have hle := consumed_le_of_inPlace h
  have hleft : c.consumed - count ≤ c.sequence.cursor.bytes.length := by omega
  obtain ⟨after, hadvance, hahead⟩ := advance_of_le hfresh hleft
  refine ⟨after, ?_, hahead.inPlace, hahead.sequence_eq, ?_⟩
  · rw [rewind, if_pos hcount, hadvance]
  · rw [hahead.consumed_eq]
    exact Nat.zero_add _

/-! ## Reading -/

/-- The run of bytes at the cursor is the first of the pieces that are left. -/
theorem current_cases (h : c.InPlace) :
    c.bytes = [] ∧ c.current = none ∨
      ∃ run, c.current = some run ∧ run ≠ [] ∧ run <+: c.bytes ∧
        ∀ count, cut c.sequence.segments c.segment c.offset count = .ok (run.take count) := by
  rw [bytes_of_inPlace h, ← rest_of_inPlace h, current]
  rcases h.stands with ⟨hin, hlt⟩ | ⟨hend, -⟩
  · right
    rw [rest_of_lt hin (Nat.le_of_lt hlt), settle, dif_pos hin, if_pos hlt]
    refine ⟨c.sequence.segments[c.segment].drop c.offset, ?_, ?_, List.prefix_append _ _, ?_⟩
    · simp [hin]
    · exact fun hnil => absurd (List.drop_eq_nil_iff.1 hnil) (Nat.not_le.2 hlt)
    · intro count
      rw [cut, dif_pos hin, if_neg (Nat.not_le.2 hlt)]
  · left
    have hout : c.sequence.segments.length ≤ c.segment := Nat.le_of_eq hend.symm
    rw [rest_of_le hout, settle, dif_neg (Nat.not_lt.2 hout)]
    exact ⟨rfl, rfl⟩

theorem peek_of_inPlace (h : c.InPlace) : c.peek = c.bytes.head? := by
  rw [peek]
  rcases current_cases h with ⟨hnil, hcurrent⟩ | ⟨run, hcurrent, hne, ⟨later, hbytes⟩, -⟩
  · rw [hcurrent, hnil]
    rfl
  · obtain ⟨byte, run, rfl⟩ := List.exists_cons_of_ne_nil hne
    rw [hcurrent, ← hbytes]
    rfl

theorem gather_of_inPlace (h : c.InPlace) (hcount : count ≤ c.bytes.length) :
    gather c.sequence.segments c.segment c.offset count = .ok (c.bytes.take count) := by
  rw [bytes_of_inPlace h, ← rest_of_inPlace h] at hcount ⊢
  exact gather_of_le c.sequence.segments_ne h.stands hcount

theorem peekInto_of_inPlace (h : c.InPlace) (count : Nat) :
    c.peekInto count = .ok (if count ≤ c.bytes.length then some (c.bytes.take count) else none) := by
  rw [peekInto, remaining_of_inPlace h]
  split
  · rename_i hcount
    rw [gather_of_inPlace h hcount]
    rfl
  · rfl

/-- Bytes that lie in one segment are read as they are from many. -/
theorem readBytes_of_le (h : c.InPlace) (hcount : count ≤ c.bytes.length) :
    ∃ after, c.readBytes count = .ok (some (c.bytes.take count), after) ∧ c.Ahead count after := by
  rw [readBytes, remaining_of_inPlace h, if_neg (Nat.not_lt.2 hcount)]
  by_cases hnone : count = 0
  · subst hnone
    exact ⟨c, rfl, h, rfl, rfl⟩
  · rw [if_neg hnone]
    obtain ⟨after, hadvance, hahead⟩ := advance_of_le h hcount
    have hread : (if c.current.any fun run => count ≤ run.length then cut else gather)
        c.sequence.segments c.segment c.offset count = .ok (c.bytes.take count) := by
      split
      · rename_i hone
        rcases current_cases h with ⟨-, hcurrent⟩ | ⟨run, hcurrent, -, ⟨later, hbytes⟩, hcut⟩
        · rw [hcurrent] at hone
          cases hone
        · rw [hcurrent, Option.any_some, decide_eq_true_eq] at hone
          rw [hcut, ← hbytes, List.take_append_of_le_length hone]
      · exact gather_of_inPlace h hcount
    refine ⟨after, ?_, hahead⟩
    simp only [hread, hadvance, bind, Except.bind]

theorem readBytes_of_lt (h : c.InPlace) (hcount : c.bytes.length < count) :
    c.readBytes count = .ok (none, c) := by
  rw [readBytes, remaining_of_inPlace h, if_pos hcount]

theorem readNumber_of_le (h : c.InPlace) (hcount : count ≤ c.bytes.length) :
    ∃ after, c.readNumber count = .ok (some (Bytes.toNat (c.bytes.take count)), after) ∧
      c.Ahead count after := by
  obtain ⟨after, hadvance, hahead⟩ := advance_of_le h hcount
  refine ⟨after, ?_, hahead⟩
  rw [readNumber, peekInto_of_inPlace h, if_pos hcount]
  simp only [hadvance, bind, Except.bind]

theorem readNumber_of_lt (h : c.InPlace) (hcount : c.bytes.length < count) :
    c.readNumber count = .ok (none, c) := by
  rw [readNumber, peekInto_of_inPlace h, if_neg (Nat.not_le.2 hcount)]
  rfl

theorem readByte_of_cons (h : c.InPlace) {byte : UInt8} {later : Bytes}
    (hbytes : c.bytes = byte :: later) :
    ∃ after, c.readByte = .ok (some byte, after) ∧ c.Ahead 1 after := by
  have hleft : 1 ≤ c.bytes.length := by simp [hbytes]
  obtain ⟨after, hadvance, hahead⟩ := advance_of_le h hleft
  refine ⟨after, ?_, hahead⟩
  rw [readByte, peek_of_inPlace h, hbytes, List.head?_cons]
  simp only [hadvance, bind, Except.bind]

theorem readByte_of_nil (h : c.InPlace) (hbytes : c.bytes = []) : c.readByte = .ok (none, c) := by
  rw [readByte, peek_of_inPlace h, hbytes, List.head?_nil]

/-- A delimiter is found where it first occurs in the bytes that are left. -/
theorem positionOf_of_inPlace (h : c.InPlace) (delimiter : Bytes) (start : Nat) :
    c.positionOf delimiter start = Bytes.find delimiter c.bytes start := by
  rw [positionOf, remaining_of_inPlace h]
  by_cases hempty : delimiter = []
  · subst hempty
    rfl
  · by_cases hstart : c.bytes.length ≤ start
    · rw [if_pos (by simp [hstart]), Bytes.find, List.drop_eq_nil_of_le hstart]
      simp [Bytes.findFrom]
    · rw [if_neg (by simp [hempty, hstart]), Bytes.slide_eq_find hempty]

end InPlace

end FramedChannel.Cursor
