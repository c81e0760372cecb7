import Mathlib.Data.List.Chain
import Mathlib.Data.List.DropRight
import Mathlib.Data.List.TakeDrop
import FramedChannel.Text.Blank

/-!
# Lines of a text

`crlfLines` cuts a text at every CR LF.  Texts that have none inside come apart
again when they are put together, and what a text is cut into has none inside.

* `Unbroken` says that a text has no CR LF inside.
* `crlfLines_intercalate` and `intercalate_crlfLines` are the two ways round.
* `block` are lines with a blank line at the end, and `length_of_blankLine` says
  that this is the first blank line.
-/

namespace FramedChannel

/-! ## Texts without an end of line -/

namespace Text

/-- No CR LF stands in the text. -/
def Unbroken (text : List Char) : Prop :=
  text.IsChain fun a b => ¬ (a = '\r' ∧ b = '\n')

instance (text : List Char) : Decidable (Unbroken text) :=
  inferInstanceAs (Decidable (text.IsChain _))

variable {text line rest : List Char}

theorem unbroken_append {front back : List Char} (h : Unbroken front) (h' : Unbroken back)
    (hseam : front.getLast? ≠ some '\r' ∨ back.head? ≠ some '\n') : Unbroken (front ++ back) := by
  refine List.isChain_append.2 ⟨h, h', ?_⟩
  rintro a ha b hb ⟨rfl, rfl⟩
  exact hseam.elim (· ha) (· hb)

theorem unbroken_of_not_mem (h : '\r' ∉ text) : Unbroken text := by
  induction text with
  | nil => exact List.IsChain.nil
  | cons c rest ih =>
    rw [List.mem_cons, not_or] at h
    refine List.isChain_cons.2 ⟨?_, ih h.2⟩
    rintro next _ ⟨rfl, _⟩
    exact h.1 rfl

theorem crlfLines_cons {c : Char} (hbreak : ¬ (c = '\r' ∧ rest.head? = some '\n'))
    {lines : List (List Char)} (h : crlfLines rest = line :: lines) :
    crlfLines (c :: rest) = (c :: line) :: lines := by
  rw [crlfLines, h]
  rintro later rfl rfl
  exact hbreak ⟨rfl, rfl⟩

theorem Unbroken.not_break {c : Char} (h : Unbroken (c :: line)) :
    ¬ (c = '\r' ∧ line.head? = some '\n') := by
  rintro ⟨rfl, hnext⟩
  cases line with
  | nil => cases hnext
  | cons next line =>
    cases hnext
    exact (List.isChain_cons_cons.1 h).1 ⟨rfl, rfl⟩

/-- The first line ends where the first CR LF stands. -/
theorem crlfLines_append (h : Unbroken line) (rest : List Char) :
    crlfLines (line ++ '\r' :: '\n' :: rest) = line :: crlfLines rest := by
  induction line with
  | nil => rfl
  | cons c line ih =>
    apply crlfLines_cons _ (ih h.tail)
    rintro ⟨rfl, hnext⟩
    cases line with
    | nil => cases hnext
    | cons next line => exact h.not_break ⟨rfl, hnext⟩

theorem crlfLines_of_unbroken (h : Unbroken line) : crlfLines line = [line] := by
  induction line with
  | nil => rfl
  | cons c line ih => exact crlfLines_cons h.not_break (ih h.tail)

/-- Lines that are put together come apart again. -/
theorem crlfLines_intercalate {lines : List (List Char)} (hne : lines ≠ [])
    (h : ∀ line ∈ lines, Unbroken line) :
    crlfLines (['\r', '\n'].intercalate lines) = lines := by
  induction lines with
  | nil => exact absurd rfl hne
  | cons line lines ih =>
    have hline := h line List.mem_cons_self
    cases lines with
    | nil => rw [List.intercalate_singleton, crlfLines_of_unbroken hline]
    | cons second lines =>
      have hrest := ih (List.cons_ne_nil _ _) fun _ hmem => h _ (List.mem_cons_of_mem _ hmem)
      rw [List.intercalate_cons_cons, List.append_assoc, List.cons_append, List.cons_append,
        List.nil_append, crlfLines_append hline, hrest]

theorem exists_crlfLines (text : List Char) : ∃ first lines, crlfLines text = first :: lines := by
  fun_induction crlfLines text with
  | case1 | case2 => exact ⟨_, _, rfl⟩
  | case3 c rest _ hnone ih =>
    obtain ⟨first, lines, hlines⟩ := ih
    cases hnone.symm.trans hlines
  | case4 => exact ⟨_, _, rfl⟩

/-- The lines of a text, put together again. -/
theorem intercalate_crlfLines (text : List Char) :
    ['\r', '\n'].intercalate (crlfLines text) = text := by
  fun_induction crlfLines text with
  | case1 => exact List.intercalate_singleton
  | case2 rest ih =>
    obtain ⟨first, lines, hlines⟩ := exists_crlfLines rest
    rw [hlines] at ih ⊢
    rw [List.intercalate_cons_cons, ih]
    rfl
  | case3 c rest _ hnone _ =>
    obtain ⟨_, _, hlines⟩ := exists_crlfLines rest
    cases hnone.symm.trans hlines
  | case4 c rest _ first lines hsome ih =>
    rw [hsome] at ih
    subst ih
    cases lines with
    | nil => rw [List.intercalate_singleton, List.intercalate_singleton]
    | cons second lines => rw [List.intercalate_cons_cons, List.intercalate_cons_cons]; rfl

/-- A line begins as the text does. -/
theorem prefix_of_crlfLines {first : List Char} {lines : List (List Char)}
    (h : crlfLines text = first :: lines) : first <+: text := by
  induction text generalizing first lines with
  | nil =>
    cases h
    exact List.prefix_rfl
  | cons c rest ih =>
    by_cases hbreak : c = '\r' ∧ rest.head? = some '\n'
    · obtain ⟨rfl, hnext⟩ := hbreak
      obtain ⟨later, rfl⟩ := List.head?_eq_some_iff.1 hnext
      cases h
      exact List.nil_prefix
    · obtain ⟨line, others, hlines⟩ := exists_crlfLines rest
      rw [crlfLines_cons hbreak hlines] at h
      cases h
      exact List.cons_prefix_cons.2 ⟨rfl, ih hlines⟩

/-- The lines of a text have no CR LF inside. -/
theorem unbroken_of_mem_crlfLines (h : line ∈ crlfLines text) : Unbroken line := by
  fun_induction crlfLines text generalizing line with
  | case1 =>
    obtain rfl := List.mem_singleton.1 h
    exact List.IsChain.nil
  | case2 rest ih =>
    rcases List.mem_cons.1 h with rfl | hrest
    · exact List.IsChain.nil
    · exact ih hrest
  | case3 c rest _ hnone _ =>
    obtain ⟨_, _, hlines⟩ := exists_crlfLines rest
    cases hnone.symm.trans hlines
  | case4 c rest hbreak first lines hsome ih =>
    rw [hsome] at ih
    rcases List.mem_cons.1 h with rfl | hrest
    · -- The next character of the line is the next one of the text.
      have hfirst := ih List.mem_cons_self
      obtain ⟨later, hrest⟩ := prefix_of_crlfLines hsome
      refine List.isChain_cons.2 ⟨?_, hfirst⟩
      rintro a ha ⟨rfl, rfl⟩
      obtain ⟨others, rfl⟩ := List.head?_eq_some_iff.1 ha
      exact hbreak _ rfl hrest.symm
    · exact ih (List.mem_cons_of_mem _ hrest)

/-! ## Blank lines -/

/-- The text of a block: lines that end in CR LF, and a blank line. -/
def block (lines : List (List Char)) : List Char :=
  lines.flatMap (· ++ ['\r', '\n']) ++ ['\r', '\n']

/-- Two ends of lines in a row. -/
def blankLine : List Char :=
  ['\r', '\n', '\r', '\n']

theorem block_cons (line : List Char) (lines : List (List Char)) :
    block (line :: lines) = line ++ '\r' :: '\n' :: block lines := by
  simp [block]

/-- In front of the blank line the lines stand with their ends in between. -/
theorem block_eq {lines : List (List Char)} (hne : lines ≠ []) :
    block lines = ['\r', '\n'].intercalate lines ++ blankLine := by
  induction lines with
  | nil => exact absurd rfl hne
  | cons line lines ih =>
    rw [block_cons]
    cases lines with
    | nil => rw [List.intercalate_singleton]; rfl
    | cons second lines =>
      rw [ih (List.cons_ne_nil _ _), List.intercalate_cons_cons]
      simp

/-- No line begins with its own end. -/
theorem not_prefix_crlf (h : Unbroken line) (hne : line ≠ []) :
    ¬ ['\r', '\n'] <+: line ++ '\r' :: '\n' :: rest := by
  intro hprefix
  obtain ⟨c, line, rfl⟩ := List.exists_cons_of_ne_nil hne
  obtain ⟨rfl, hnext⟩ := List.cons_prefix_cons.1 hprefix
  cases line with
  | nil => exact absurd (List.cons_prefix_cons.1 hnext).1 (by decide)
  | cons next line =>
    obtain ⟨rfl, _⟩ := List.cons_prefix_cons.1 hnext
    exact h.not_break ⟨rfl, rfl⟩

/-- A block of lines has its blank line at the end, and nowhere else. -/
theorem length_of_blankLine {lines : List (List Char)}
    (h : ∀ line ∈ lines, line ≠ [] ∧ Unbroken line) {k : Nat}
    (hblank : blankLine <+: (block lines).drop k) :
    k + blankLine.length = (block lines).length := by
  induction lines generalizing k with
  | nil =>
    have hlength := hblank.length_le
    simp only [List.length_drop, blankLine, block, List.flatMap_nil, List.nil_append,
      List.length_cons, List.length_nil] at hlength
    omega
  | cons line lines ih =>
    obtain ⟨hne, hline⟩ := h line List.mem_cons_self
    have hlines : ∀ line ∈ lines, line ≠ [] ∧ Unbroken line := fun _ hmem =>
      h _ (List.mem_cons_of_mem _ hmem)
    rw [block_cons] at hblank ⊢
    by_cases hin : k < line.length
    · -- The rest of a line is a line.
      rw [List.drop_append_of_le_length (Nat.le_of_lt hin)] at hblank
      have hrest : line.drop k ≠ [] := fun hnil => absurd (List.drop_eq_nil_iff.1 hnil) (by omega)
      have hcrlf : ['\r', '\n'] <+: blankLine := ⟨['\r', '\n'], rfl⟩
      exact absurd (hcrlf.trans hblank)
        (not_prefix_crlf (hline.suffix (List.drop_suffix k line)) hrest)
    · obtain ⟨count, rfl⟩ := Nat.exists_eq_add_of_le (Nat.not_lt.1 hin)
      rw [← List.drop_drop, List.drop_left] at hblank
      match count, hblank with
      | 0, hblank =>
        have hnext : ['\r', '\n'] <+: block lines := by
          simpa [blankLine] using hblank
        cases lines with
        | nil => simp [blankLine, block]
        | cons second lines =>
          obtain ⟨hne', hsecond⟩ := hlines second List.mem_cons_self
          rw [block_cons] at hnext
          exact absurd hnext (not_prefix_crlf hsecond hne')
      | 1, hblank => exact absurd (List.cons_prefix_cons.1 hblank).1 (by decide)
      | count + 2, hblank =>
        have hlength := ih hlines hblank
        simp only [List.length_append, List.length_cons]
        omega

/-- A line without text makes a blank line further in front. -/
theorem exists_blankLine (first : List Char) {lines : List (List Char)} (hempty : [] ∈ lines) :
    ∃ k, k + blankLine.length < (block (first :: lines)).length ∧
      blankLine <+: (block (first :: lines)).drop k := by
  induction lines generalizing first with
  | nil => cases hempty
  | cons second lines ih =>
    rw [block_cons]
    by_cases hsecond : second = []
    · subst hsecond
      refine ⟨first.length, ?_, ?_⟩
      · simp only [block, blankLine, List.flatMap_cons, List.length_append, List.length_cons,
          List.length_nil]
        omega
      · rw [List.drop_left]
        exact ⟨block lines, rfl⟩
    · have hrest := (List.mem_cons.1 hempty).resolve_left (Ne.symm hsecond)
      obtain ⟨k, hlt, hblank⟩ := ih second hrest
      refine ⟨first.length + (k + 2), ?_, ?_⟩
      · simp only [List.length_append, List.length_cons]
        omega
      · rw [← List.drop_drop, List.drop_left]
        exact hblank

/-! ## Words and trimmed texts -/

theorem infix_of_trim (text : List Char) : trim text <:+: text :=
  (List.rdropWhile_prefix isBlank _).isInfix.trans (List.dropWhile_suffix isBlank).isInfix

theorem Unbroken.trim (h : Unbroken text) : Unbroken (trim text) :=
  h.infix (infix_of_trim text)

/-- White space in front is cut off. -/
theorem trim_cons {c : Char} (h : isBlank c) (text : List Char) : trim (c :: text) = trim text := by
  rw [trim, List.dropWhile_cons_of_pos h]
  rfl

/-- What is trimmed stays as it is. -/
theorem trim_trim (text : List Char) : trim (trim text) = trim text := by
  have hfront : (trim text).dropWhile isBlank = trim text := by
    rw [List.dropWhile_eq_self_iff]
    intro hpos
    obtain ⟨rest, hrest⟩ : trim text <+: text.dropWhile isBlank := List.rdropWhile_prefix isBlank _
    have hhead := List.dropWhile_get_zero_not isBlank text (by rw [← hrest]; simp; omega)
    simpa [← hrest, List.getElem_append_left hpos] using hhead
  show ((trim text).dropWhile isBlank).rdropWhile isBlank = trim text
  rw [hfront]
  exact List.rdropWhile_idempotent isBlank _

theorem cutAt_append {mark : Char} {before : List Char} (h : mark ∉ before) (behind : List Char) :
    cutAt mark (before ++ mark :: behind) = some (before, behind) := by
  have hall : ∀ c ∈ before, (c != mark) = true := by
    intro c hmem
    rw [bne_iff_ne]
    rintro rfl
    exact h hmem
  rw [cutAt, List.span_eq_takeWhile_dropWhile, List.takeWhile_append_of_pos hall,
    List.dropWhile_append_of_pos hall]
  simp

theorem suffix_of_cutAt {mark : Char} {before behind : List Char}
    (h : cutAt mark text = some (before, behind)) : behind <:+ text := by
  unfold cutAt at h
  rw [List.span_eq_takeWhile_dropWhile] at h
  split at h
  · cases h
  · rename_i hspan
    cases h
    rw [Prod.mk.injEq] at hspan
    have hdrop := List.dropWhile_suffix (l := text) (· != mark)
    rw [hspan.2] at hdrop
    exact (List.suffix_cons _ _).trans hdrop

/-- A word has no white space inside. -/
theorem not_blank_of_nextWord {word behind : List Char} (h : nextWord text = some (word, behind)) :
    ∀ c ∈ word, isBlank c = false := by
  unfold nextWord at h
  split at h
  · cases h
  · rw [List.span_eq_takeWhile_dropWhile, Option.some.injEq, Prod.mk.injEq] at h
    intro c hmem
    rw [← h.1] at hmem
    simpa using List.mem_takeWhile_imp hmem

/-- The first piece begins as the text does. -/
theorem prefix_of_piecesAt {mark : Char} {first : List Char} {pieces : List (List Char)}
    (h : piecesAt mark text = first :: pieces) : first <+: text := by
  induction text generalizing first pieces with
  | nil =>
    cases h
    exact List.prefix_rfl
  | cons c rest ih =>
    rw [piecesAt] at h
    split_ifs at h
    · cases h
      exact List.nil_prefix
    · split at h
      · cases h
        exact List.prefix_append [c] rest
      · rename_i hsome
        cases h
        exact List.cons_prefix_cons.2 ⟨rfl, ih hsome⟩

theorem infix_of_mem_piecesAt {mark : Char} {piece : List Char} (h : piece ∈ piecesAt mark text) :
    piece <:+: text := by
  induction text generalizing piece with
  | nil =>
    obtain rfl := List.mem_singleton.1 h
    exact List.infix_rfl
  | cons c rest ih =>
    rw [piecesAt] at h
    split_ifs at h
    · rcases List.mem_cons.1 h with rfl | hrest
      · exact List.nil_infix
      · exact List.infix_cons (ih hrest)
    · split at h
      · obtain rfl := List.mem_singleton.1 h
        exact (List.prefix_append [c] rest).isInfix
      · rename_i hsome
        rcases List.mem_cons.1 h with rfl | hrest
        · exact (List.cons_prefix_cons.2 ⟨rfl, prefix_of_piecesAt hsome⟩).isInfix
        · rw [hsome] at ih
          exact List.infix_cons (ih (List.mem_cons_of_mem _ hrest))

end Text

end FramedChannel
