import FramedChannel.Bytes
import Mathlib.Data.List.Basic

/-!
# The first occurrence of a byte string

What `Bytes.find` finds, said without the search: the first offset, not below
the start, at which the needle is a prefix of what is left.

* `find_eq_some_iff` and `find_eq_none_iff` are the two answers.
* `find_append_of_eq_some` says that an occurrence that was found stays the
  first one when more bytes arrive.
* `length_lt_of_find_append_eq_some` says where a search that found nothing has to go on:
  an occurrence can still straddle the end, but none starts further in front.
* `slide_eq_find` says that a window that slides over the bytes finds the same.
-/

namespace FramedChannel.Bytes

variable {needle bytes : Bytes} {start position : Nat}

/-! ## Occurrences -/

theorem prefix_drop_append (h : needle <+: bytes.drop position) (hne : needle ≠ [])
    (more : Bytes) : needle <+: (bytes ++ more).drop position := by
  have hpos : position ≤ bytes.length := by
    by_contra hlt
    rw [List.drop_eq_nil_of_le (by omega), List.prefix_nil] at h
    exact hne h
  rw [List.drop_append_of_le_length hpos]
  exact h.trans (List.prefix_append _ _)

/-- An occurrence lies inside the byte string. -/
theorem add_length_le_of_prefix_drop (h : needle <+: bytes.drop position) (hne : needle ≠ []) :
    position + needle.length ≤ bytes.length := by
  have hlen := h.length_le
  have hpos : 0 < needle.length := List.length_pos_iff.2 hne
  rw [List.length_drop] at hlen
  omega

/-- An occurrence that ends inside the old bytes was there before more arrived. -/
theorem prefix_drop_of_append {more : Bytes} (h : needle <+: (bytes ++ more).drop position)
    (hin : position + needle.length ≤ bytes.length) : needle <+: bytes.drop position := by
  rw [List.drop_append_of_le_length (by omega)] at h
  exact List.prefix_of_prefix_length_le h (List.prefix_append _ _)
    (by rw [List.length_drop]; omega)

/-! ## What the search finds -/

private theorem findFrom_eq_some_aux (hne : needle ≠ []) (first : Nat) :
    findFrom needle first bytes = some position ↔
      ∃ offset, position = first + offset ∧ needle <+: bytes.drop offset ∧
        ∀ i < offset, ¬ needle <+: bytes.drop i := by
  induction bytes generalizing first with
  | nil => simp [findFrom, hne]
  | cons byte rest ih =>
    unfold findFrom
    split
    · rename_i hfound
      rw [List.isPrefixOf_iff_prefix] at hfound
      constructor
      · intro h
        cases h
        exact ⟨0, rfl, hfound, fun i hi => absurd hi (Nat.not_lt_zero i)⟩
      · rintro ⟨offset, rfl, _, hfirst⟩
        cases offset with
        | zero => rfl
        | succ offset => exact absurd hfound (hfirst 0 (Nat.succ_pos offset))
    · rename_i hmissed
      rw [List.isPrefixOf_iff_prefix] at hmissed
      rw [ih]
      constructor
      · rintro ⟨offset, rfl, hat, hfirst⟩
        refine ⟨offset + 1, by omega, hat, ?_⟩
        intro i hi
        cases i with
        | zero => exact hmissed
        | succ i => exact hfirst i (by omega)
      · rintro ⟨offset, rfl, hat, hfirst⟩
        cases offset with
        | zero => exact absurd hat hmissed
        | succ offset =>
          exact ⟨offset, by omega, hat, fun i hi => hfirst (i + 1) (by omega)⟩

/-- The search finds the first occurrence that is not in front of the start. -/
theorem find_eq_some_iff (hne : needle ≠ []) :
    find needle bytes start = some position ↔
      start ≤ position ∧ needle <+: bytes.drop position ∧
        ∀ i, start ≤ i → i < position → ¬ needle <+: bytes.drop i := by
  have hneedle : needle.isEmpty = false := by simpa using hne
  rw [find, hneedle, if_neg Bool.false_ne_true, findFrom_eq_some_aux hne]
  constructor
  · rintro ⟨offset, rfl, hat, hfirst⟩
    rw [List.drop_drop] at hat
    refine ⟨by omega, hat, ?_⟩
    intro i hle hlt hocc
    apply hfirst (i - start) (by omega)
    rw [List.drop_drop, Nat.add_sub_cancel' hle]
    exact hocc
  · rintro ⟨hle, hat, hfirst⟩
    refine ⟨position - start, by omega, ?_, ?_⟩
    · rw [List.drop_drop, Nat.add_sub_cancel' hle]
      exact hat
    · intro i hi
      rw [List.drop_drop]
      exact hfirst (start + i) (by omega) (by omega)

/-- What the search finds ends within the bytes. -/
theorem add_length_le_of_find (h : find needle bytes start = some position) :
    position + needle.length ≤ bytes.length := by
  by_cases hne : needle = []
  · subst hne
    cases h
  · exact add_length_le_of_prefix_drop ((find_eq_some_iff hne).1 h).2.1 hne

/-- The search fails exactly when the needle occurs nowhere from the start on. -/
theorem find_eq_none_iff (hne : needle ≠ []) :
    find needle bytes start = none ↔ ∀ i, start ≤ i → ¬ needle <+: bytes.drop i := by
  constructor
  · intro hnone i
    -- Of all occurrences the first one would have been found.
    induction i using Nat.strongRecOn with
    | _ i ih =>
      intro hle hocc
      have hfound : find needle bytes start = some i :=
        (find_eq_some_iff hne).2 ⟨hle, hocc, fun j hj hlt => ih j hlt hj⟩
      rw [hnone] at hfound
      cases hfound
  · intro hnowhere
    cases hfind : find needle bytes start with
    | none => rfl
    | some position =>
      obtain ⟨hle, hocc, _⟩ := (find_eq_some_iff hne).1 hfind
      exact absurd hocc (hnowhere position hle)

/-- A later start makes no difference if no occurrence is in front of it. -/
theorem find_eq_of_forall_lt (hne : needle ≠ [])
    (hfirst : ∀ i < start, ¬ needle <+: bytes.drop i) :
    find needle bytes start = find needle bytes 0 := by
  cases hfind : find needle bytes 0 with
  | none =>
    rw [find_eq_none_iff hne] at hfind ⊢
    exact fun i _ => hfind i (Nat.zero_le i)
  | some position =>
    obtain ⟨_, hat, hbefore⟩ := (find_eq_some_iff hne).1 hfind
    have hle : start ≤ position := by
      by_contra hlt
      exact hfirst position (by omega) hat
    exact (find_eq_some_iff hne).2 ⟨hle, hat, fun i _ hi => hbefore i (Nat.zero_le i) hi⟩

/-- A byte is found behind bytes that it is not among. -/
theorem find_byte {mark : UInt8} {front : Bytes} (h : mark ∉ front) (rest : Bytes) :
    find [mark] (front ++ mark :: rest) 0 = some front.length := by
  rw [find_eq_some_iff (List.cons_ne_nil _ _)]
  refine ⟨Nat.zero_le _, ?_, ?_⟩
  · rw [List.drop_left]
    exact ⟨rest, rfl⟩
  · intro i _ hlt hprefix
    rw [List.drop_append_of_le_length (Nat.le_of_lt hlt), List.drop_eq_getElem_cons hlt] at hprefix
    have hmark := (List.cons_prefix_cons.1 hprefix).1
    exact h (hmark ▸ List.getElem_mem hlt)

/-! ## When more bytes arrive -/

/-- What was found first stays first. -/
theorem find_append_of_eq_some (hne : needle ≠ [])
    (hfind : find needle bytes start = some position) (more : Bytes) :
    find needle (bytes ++ more) start = some position := by
  obtain ⟨hle, hat, hfirst⟩ := (find_eq_some_iff hne).1 hfind
  have hin := add_length_le_of_prefix_drop hat hne
  refine (find_eq_some_iff hne).2 ⟨hle, prefix_drop_append hat hne more, ?_⟩
  intro i hi hlt hocc
  exact hfirst i hi hlt (prefix_drop_of_append hocc (by omega))

/-- Behind a search for nothing, no occurrence starts so early that it would have ended inside the
bytes that were searched. -/
theorem not_prefix_drop_append_of_find_eq_none (hne : needle ≠ [])
    (hfind : find needle bytes 0 = none) (more : Bytes) {i : Nat}
    (hi : i < bytes.length - (needle.length - 1)) :
    ¬ needle <+: (bytes ++ more).drop i := by
  intro hocc
  have hpos : 0 < needle.length := List.length_pos_iff.2 hne
  exact (find_eq_none_iff hne).1 hfind i (Nat.zero_le i) (prefix_drop_of_append hocc (by omega))

/-- An occurrence that more bytes complete ends in them. -/
theorem length_lt_of_find_append_eq_some (hne : needle ≠ [])
    (hfind : find needle bytes 0 = none) {more : Bytes}
    (hmore : find needle (bytes ++ more) 0 = some position) :
    bytes.length < position + needle.length := by
  obtain ⟨_, hat, _⟩ := (find_eq_some_iff hne).1 hmore
  by_contra hle
  exact (find_eq_none_iff hne).1 hfind position (Nat.zero_le position)
    (prefix_drop_of_append hat (by omega))

/-! ## The sliding window -/

private theorem findFrom_eq_map_aux (first : Nat) :
    findFrom needle first bytes = (findFrom needle 0 bytes).map (first + ·) := by
  induction bytes generalizing first with
  | nil => rfl
  | cons byte rest ih =>
    unfold findFrom
    split
    · rfl
    · rw [ih (first + 1), ih (0 + 1), Option.map_map]
      congr 1
      funext offset
      show first + 1 + offset = first + (0 + 1 + offset)
      omega

/-- A search from a start is one from the first byte of what is left there. -/
theorem find_eq_map_find (needle bytes : Bytes) (start : Nat) :
    find needle bytes start = (find needle (bytes.drop start) 0).map (start + ·) := by
  unfold find
  split
  · rfl
  · exact findFrom_eq_map_aux start

/-- The window behind one more byte. -/
private theorem window_concat_aux (seen : Bytes) (byte : UInt8) {width : Nat} (hwidth : 0 < width) :
    (if (seen.drop (seen.length - width)).length = width
      then (seen.drop (seen.length - width)).drop 1 else seen.drop (seen.length - width)) ++ [byte] =
      (seen ++ [byte]).drop ((seen ++ [byte]).length - width) := by
  rw [List.length_drop, List.length_append, List.length_singleton]
  by_cases hfull : width ≤ seen.length
  · rw [if_pos (by omega), List.drop_drop, List.drop_append_of_le_length (by omega)]
    congr 2
    omega
  · rw [if_neg (by omega), show seen.length - width = 0 by omega,
      show seen.length + 1 - width = 0 by omega, List.drop_zero, List.drop_zero]

/-- The window holds the last bytes of those seen, and no occurrence has ended in them. -/
private theorem slide_eq_find_aux (hne : needle ≠ []) (start : Nat) (seen rest : Bytes)
    (hmissed : ∀ i, i + needle.length ≤ seen.length → ¬ needle <+: (seen ++ rest).drop i) :
    slide needle (seen.drop (seen.length - needle.length)) (start + seen.length) rest =
      (find needle (seen ++ rest) 0).map (start + ·) := by
  have hwidth : 0 < needle.length := List.length_pos_iff.2 hne
  induction rest generalizing seen with
  | nil =>
    have hnone : find needle (seen ++ []) 0 = none := by
      rw [find_eq_none_iff hne]
      intro i _ hocc
      have hin := add_length_le_of_prefix_drop hocc hne
      rw [List.append_nil] at hin
      exact hmissed i hin hocc
    rw [slide, hnone, Option.map_none]
  | cons byte rest ih =>
    rw [slide]
    simp only [window_concat_aux seen byte hwidth]
    have hall : seen ++ byte :: rest = (seen ++ [byte]) ++ rest := by simp
    have hlength : (seen ++ [byte]).length = seen.length + 1 := by simp
    split
    · -- The window is the needle, which ends at this byte and nowhere in front of it.
      rename_i hfound
      have hfull : needle.length ≤ seen.length + 1 := by
        rw [← hfound, List.length_drop, hlength]
        omega
      have hfirst : find needle (seen ++ byte :: rest) 0 =
          some (seen.length + 1 - needle.length) := by
        refine (find_eq_some_iff hne).2 ⟨Nat.zero_le _, ?_, fun i _ hi => hmissed i (by omega)⟩
        rw [hall, List.drop_append_of_le_length (by omega), ← hlength, hfound]
        exact List.prefix_append _ _
      rw [hfirst, Option.map_some]
      congr 1
      omega
    · rename_i hother
      rw [hall, ← ih (seen ++ [byte]) ?_, hlength]
      · rfl
      · intro i hi hocc
        rw [hlength] at hi
        by_cases hbefore : i + needle.length ≤ seen.length
        · exact hmissed i hbefore (hall ▸ hocc)
        · have hlast : i = (seen ++ [byte]).length - needle.length := by omega
          rw [List.drop_append_of_le_length (by omega)] at hocc
          have hwindow : needle <+: (seen ++ [byte]).drop i :=
            List.prefix_of_prefix_length_le hocc (List.prefix_append _ _)
              (by rw [List.length_drop]; omega)
          refine hother ?_
          rw [← hlast]
          exact (hwindow.eq_of_length (by rw [List.length_drop]; omega)).symm

/-- A sliding window finds the first occurrence that is not in front of the start. -/
theorem slide_eq_find (hne : needle ≠ []) (bytes : Bytes) (start : Nat) :
    slide needle [] start (bytes.drop start) = find needle bytes start := by
  have hwidth : 0 < needle.length := List.length_pos_iff.2 hne
  have hnothing : ∀ i, i + needle.length ≤ ([] : Bytes).length →
      ¬ needle <+: ([] ++ bytes.drop start).drop i := by
    intro i hi
    rw [List.length_nil] at hi
    omega
  rw [find_eq_map_find]
  simpa using slide_eq_find_aux hne start [] (bytes.drop start) hnothing

end FramedChannel.Bytes
