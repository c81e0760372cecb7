import FramedChannel.Proofs.Text.Lines

/-!
# How a text is cut

The functions that cut a text, described without them.

* `Trims` is a text without the white space around it, and `trim_eq_iff` what
  `trim` gives.
* `Words` are the words of a text in their order, and `nextWord_eq_some_iff` says
  that `nextWord` gives the first one.
* `cutAt_eq_some_iff` is about the first mark in a text.
* `AreLines` are the lines between the ends of lines, and `crlfLines_eq_iff` says
  that a text has no other ones.
-/

namespace FramedChannel.Text

variable {text core word behind line : List Char}

/-! ## Runs of characters -/

section Runs

variable {p : Char → Bool} {front back : List Char} (hfront : ∀ c ∈ front, p c = true)
  (hback : ∀ c ∈ back.head?, p c = false)

include hfront hback

/-- A run ends in front of the first other character. -/
theorem dropWhile_run : (front ++ back).dropWhile p = back := by
  rw [List.dropWhile_append_of_pos hfront]
  cases back with
  | nil => rfl
  | cons c rest => exact List.dropWhile_cons_of_neg (by simp [hback c rfl])

theorem takeWhile_run : (front ++ back).takeWhile p = front := by
  have hall := List.takeWhile_append_dropWhile (p := p) (l := front ++ back)
  rw [dropWhile_run hfront hback] at hall
  exact List.append_cancel_right hall

end Runs

/-! ## White space around a text -/

/-- There is nothing but white space. -/
def Blank (text : List Char) : Prop :=
  ∀ c ∈ text, isBlank c = true

/-- There is no white space. -/
def Solid (text : List Char) : Prop :=
  ∀ c ∈ text, isBlank c = false

/-- A text is `core` with white space around it, and `core` has none at its ends. -/
structure Trims (text core : List Char) : Prop where
  around : ∃ front back, text = front ++ (core ++ back) ∧ Blank front ∧ Blank back
  head : ∀ c ∈ core.head?, isBlank c = false
  last : ∀ c ∈ core.getLast?, isBlank c = false

theorem trim_eq_rdropWhile (text : List Char) :
    trim text = (text.dropWhile isBlank).rdropWhile isBlank := rfl

/-- What stands behind white space does not begin with any. -/
theorem not_blank_of_dropWhile (text : List Char) :
    ∀ c ∈ (text.dropWhile isBlank).head?, isBlank c = false := by
  intro c hc
  have hhead := List.head?_dropWhile_not isBlank text
  rw [Option.mem_def.1 hc] at hhead
  exact hhead

theorem trims_trim (text : List Char) : Trims text (trim text) where
  around := by
    refine ⟨text.takeWhile isBlank, (text.dropWhile isBlank).rtakeWhile isBlank, ?_,
      fun _ hmem => List.mem_takeWhile_imp hmem, fun _ hmem => List.mem_rtakeWhile_imp hmem⟩
    rw [trim_eq_rdropWhile, List.rdropWhile_append_rtakeWhile, List.takeWhile_append_dropWhile]
  head c hc := by
    obtain ⟨rest, hrest⟩ : trim text <+: text.dropWhile isBlank :=
      List.rdropWhile_prefix isBlank _
    apply not_blank_of_dropWhile text
    rw [← hrest, List.head?_append_of_ne_nil _ (List.ne_nil_of_mem (List.mem_of_mem_head? hc))]
    exact hc
  last c hc := by
    have hne := List.ne_nil_of_mem (List.mem_of_mem_getLast? hc)
    rw [List.getLast?_eq_getLast_of_ne_nil hne, Option.mem_some] at hc
    have hlast := List.rdropWhile_last_not isBlank (text.dropWhile isBlank) hne
    rw [← hc]
    simpa [trim_eq_rdropWhile] using hlast

/-- What `trim` gives is the text without the white space around it. -/
theorem trim_eq_iff : trim text = core ↔ Trims text core := by
  constructor
  · rintro rfl
    exact trims_trim text
  · rintro ⟨⟨front, back, rfl, hfront, hback⟩, hhead, hlast⟩
    cases core with
    | nil =>
      have hall : Blank (front ++ ([] ++ back)) := List.forall_mem_append.2 ⟨hfront, hback⟩
      rw [trim_eq_rdropWhile, List.dropWhile_eq_nil_iff.2 hall]
      rfl
    | cons c rest =>
      have hback' : Blank back.reverse := fun d hd => hback d (List.mem_reverse.1 hd)
      have hlast' : ∀ d ∈ (c :: rest).reverse.head?, isBlank d = false := by
        rwa [List.head?_reverse]
      have hhead' : ∀ d ∈ (c :: rest ++ back).head?, isBlank d = false := hhead
      rw [trim, dropWhile_run hfront hhead', List.reverse_append, dropWhile_run hback' hlast',
        List.reverse_reverse]

/-! ## Words -/

/-- The first word of a text, and what stands behind it. -/
structure IsFirstWord (text word behind : List Char) : Prop where
  around : ∃ gap, text = gap ++ (word ++ behind) ∧ Blank gap
  ne_nil : word ≠ []
  solid : Solid word
  ends : ∀ c ∈ behind.head?, isBlank c = true

/-- The words of a text. -/
inductive Words : List Char → List (List Char) → Prop where
  | none {text : List Char} (hblank : Blank text) : Words text []
  | next {text word behind : List Char} {words : List (List Char)}
      (hfirst : IsFirstWord text word behind) (hrest : Words behind words) :
      Words text (word :: words)

theorem nextWord_eq_none_iff : nextWord text = none ↔ Blank text := by
  rw [Blank, ← List.dropWhile_eq_nil_iff, nextWord]
  split
  · rename_i hnil
    simp [hnil]
  · rename_i hcons
    simp [hcons]

theorem isFirstWord_of_nextWord (h : nextWord text = some (word, behind)) :
    IsFirstWord text word behind := by
  unfold nextWord at h
  split at h
  · cases h
  · rename_i c rest hcons
    rw [List.span_eq_takeWhile_dropWhile, Option.some.injEq, Prod.mk.injEq] at h
    obtain ⟨rfl, rfl⟩ := h
    have hc : isBlank c = false := not_blank_of_dropWhile text c (by rw [hcons]; rfl)
    refine ⟨⟨text.takeWhile isBlank, ?_, fun _ hmem => List.mem_takeWhile_imp hmem⟩, ?_,
      fun d hd => ?_, fun d hd => ?_⟩
    · rw [List.takeWhile_append_dropWhile, ← hcons, List.takeWhile_append_dropWhile]
    · rw [List.takeWhile_cons_of_pos (by simp [hc])]
      exact List.cons_ne_nil _ _
    · simpa using List.mem_takeWhile_imp hd
    · have hhead := List.head?_dropWhile_not (fun d => !isBlank d) (c :: rest)
      rw [Option.mem_def.1 hd] at hhead
      simpa using hhead

/-- The next word is the first word. -/
theorem nextWord_eq_some_iff :
    nextWord text = some (word, behind) ↔ IsFirstWord text word behind := by
  refine ⟨isFirstWord_of_nextWord, ?_⟩
  rintro ⟨⟨gap, rfl, hgap⟩, hne, hsolid, hends⟩
  have hstart : ∀ c ∈ (word ++ behind).head?, isBlank c = false := by
    rw [List.head?_append_of_ne_nil _ hne]
    exact fun c hc => hsolid c (List.mem_of_mem_head? hc)
  have hword : ∀ c ∈ word, (!isBlank c) = true := fun c hc => by simp [hsolid c hc]
  have hbehind : ∀ c ∈ behind.head?, (!isBlank c) = false := fun c hc => by simp [hends c hc]
  obtain ⟨c, rest, rfl⟩ := List.exists_cons_of_ne_nil hne
  rw [nextWord, dropWhile_run hgap hstart, List.cons_append]
  dsimp only
  rw [← List.cons_append, List.span_eq_takeWhile_dropWhile, takeWhile_run hword hbehind,
    dropWhile_run hword hbehind]

/-- Every text comes apart in words. -/
theorem exists_words (text : List Char) : ∃ words, Words text words := by
  induction hlength : text.length using Nat.strongRecOn generalizing text with
  | ind length ih =>
    cases hnext : nextWord text with
    | none => exact ⟨[], .none (nextWord_eq_none_iff.1 hnext)⟩
    | some found =>
      obtain ⟨word, behind⟩ := found
      have hfirst := nextWord_eq_some_iff.1 hnext
      obtain ⟨gap, rfl, -⟩ := hfirst.around
      have hpos := List.length_pos_iff.2 hfirst.ne_nil
      have hshorter : behind.length < length := by
        rw [List.length_append, List.length_append] at hlength
        omega
      obtain ⟨words, hwords⟩ := ih _ hshorter behind rfl
      exact ⟨word :: words, .next hfirst hwords⟩

/-- A text has no other words. -/
theorem Words.unique {words words' : List (List Char)} (h : Words text words)
    (h' : Words text words') : words = words' := by
  induction h generalizing words' with
  | none hblank =>
    cases h' with
    | none _ => rfl
    | next hfirst _ =>
      have hnext := nextWord_eq_some_iff.2 hfirst
      rw [nextWord_eq_none_iff.2 hblank] at hnext
      cases hnext
  | next hfirst _ ih =>
    have hnext := nextWord_eq_some_iff.2 hfirst
    cases h' with
    | none hblank =>
      rw [nextWord_eq_none_iff.2 hblank] at hnext
      cases hnext
    | next hfirst' hrest' =>
      cases hnext.symm.trans (nextWord_eq_some_iff.2 hfirst')
      rw [ih hrest']

/-! ## Marks and lines -/

/-- A text is cut at its first mark. -/
theorem cutAt_eq_some_iff {mark : Char} {before : List Char} :
    cutAt mark text = some (before, behind) ↔
      text = before ++ mark :: behind ∧ mark ∉ before := by
  constructor
  · intro h
    unfold cutAt at h
    rw [List.span_eq_takeWhile_dropWhile] at h
    split at h
    · cases h
    · rename_i c _ hspan
      cases h
      rw [Prod.mk.injEq] at hspan
      have hall := List.takeWhile_append_dropWhile (p := (· != mark)) (l := text)
      have hmark := List.head?_dropWhile_not (· != mark) text
      rw [hspan.2] at hmark hall
      rw [hspan.1] at hall
      obtain rfl : c = mark := by simpa using hmark
      refine ⟨hall.symm, fun hmem => ?_⟩
      rw [← hspan.1] at hmem
      simpa using List.mem_takeWhile_imp hmem
  · rintro ⟨rfl, hbefore⟩
    exact cutAt_append hbefore behind

/-- A text is these lines with a CR LF between each two of them, and no line has one inside. -/
structure AreLines (text : List Char) (lines : List (List Char)) : Prop where
  ne_nil : lines ≠ []
  unbroken : ∀ line ∈ lines, Unbroken line
  text : text = ['\r', '\n'].intercalate lines

theorem crlfLines_eq_iff {lines : List (List Char)} :
    crlfLines text = lines ↔ AreLines text lines := by
  constructor
  · rintro rfl
    obtain ⟨first, rest, hlines⟩ := exists_crlfLines text
    exact ⟨by rw [hlines]; exact List.cons_ne_nil _ _, fun _ => unbroken_of_mem_crlfLines,
      (intercalate_crlfLines text).symm⟩
  · rintro ⟨hne, hunbroken, rfl⟩
    exact crlfLines_intercalate hne hunbroken

end FramedChannel.Text
