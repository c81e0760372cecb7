import Mathlib.Data.List.Perm.Basic
import FramedChannel.Proofs.Text.Lines
import FramedChannel.WebSocket.Upgrade

/-!
# Header lines

What a request says is read off the lines of its header block.

* `headerLines_eq_ok_iff` says which headers some lines have: those of their
  fields, one line after the other.
* `headerLines_perm` says that the order of the lines counts for nothing as long
  as their names differ, and `withFields_eq` that headers are kept in the order of
  their names.
* `parse_eq_ok_iff` says what a header block has to be for a request to be read.
* `unbroken_of_parse` and `not_blank_of_path` say that no value and no path has
  an end of line inside, whatever the peer has sent.
-/

namespace FramedChannel.WebSocket.Request

/-! ## Headers and lines -/

variable {headers parsed fields : List (String × String)} {lines lines' : List (List Char)}

/-- Headers with some more fields. -/
def withFields (headers fields : List (String × String)) : List (String × String) :=
  fields.foldl (fun headers field => addHeader field.1 field.2 headers) headers

/-- Lines with these fields. -/
def Reads (lines : List (List Char)) (fields : List (String × String)) : Prop :=
  List.Forall₂ (fun line field => headerLine line = .ok field) lines fields

/-- Each line that is not empty gives a field. -/
theorem headerLines_eq_ok_iff :
    headerLines headers lines = .ok parsed ↔
      ∃ fields, Reads (lines.filter fun line => !line.isEmpty) fields ∧
        parsed = withFields headers fields := by
  induction lines generalizing headers with
  | nil =>
    constructor
    · intro h
      cases h
      exact ⟨[], .nil, rfl⟩
    · rintro ⟨fields, hreads, rfl⟩
      cases hreads
      rfl
  | cons line lines ih =>
    cases hempty : line.isEmpty with
    | true =>
      rw [headerLines, if_pos hempty, ih, List.filter_cons_of_neg (by simp [hempty])]
    | false =>
      rw [headerLines, if_neg (by simp [hempty]), List.filter_cons_of_pos (by simp [hempty])]
      cases hline : headerLine line with
      | error error =>
        constructor
        · intro h
          cases h
        · rintro ⟨fields, hreads, _⟩
          cases hreads with
          | cons hfield _ => cases hline.symm.trans hfield
      | ok field =>
        show headerLines (addHeader field.1 field.2 headers) lines = .ok parsed ↔ _
        rw [ih]
        constructor
        · rintro ⟨fields, hreads, rfl⟩
          exact ⟨field :: fields, .cons hline hreads, rfl⟩
        · rintro ⟨fields, hreads, rfl⟩
          cases hreads with
          | cons hfield hreads =>
            cases hline.symm.trans hfield
            exact ⟨_, hreads, rfl⟩

/-- The fields of two lines have different names. -/
def Differ (line line' : List Char) : Prop :=
  ∀ field field', headerLine line = .ok field → headerLine line' = .ok field' → field.1 ≠ field'.1

theorem Reads.names_ne (h : Reads lines fields) (hdiffer : lines.Pairwise Differ) :
    fields.Pairwise fun field field' => field.1 ≠ field'.1 := by
  rw [List.pairwise_iff_getElem] at hdiffer ⊢
  intro i j hi hj hlt
  have hlength := h.length_eq
  exact hdiffer i j (by omega) (by omega) hlt _ _ (h.get (by omega) hi) (h.get (by omega) hj)

/-- Fields whose names differ can come in any order. -/
theorem withFields_perm {fields' : List (String × String)} (hperm : fields.Perm fields')
    (hnames : fields.Pairwise fun field field' => field.1 ≠ field'.1) :
    withFields headers fields = withFields headers fields' := by
  have hsymm : Std.Symm fun field field' : String × String => field.1 ≠ field'.1 :=
    ⟨fun _ _ hne => hne.symm⟩
  have hdistinct := hnames.forall
  refine hperm.foldl_eq' ?_ headers
  intro x hx y hy headers
  by_cases hsame : x = y
  · rw [hsame]
  · exact addHeader_comm (hdistinct hy hx (Ne.symm hsame)) ..

/-- Lines whose names differ can come in any order. -/
theorem headerLines_perm (h : headerLines headers lines = .ok parsed) (hperm : lines.Perm lines')
    (hdiffer : lines.Pairwise Differ) : headerLines headers lines' = .ok parsed := by
  obtain ⟨fields, hreads, rfl⟩ := headerLines_eq_ok_iff.1 h
  have hfilter := hperm.symm.filter fun line => !line.isEmpty
  obtain ⟨fields', hreads', hfields⟩ := List.perm_comp_forall₂ hfilter hreads
  have hnames := hreads.names_ne (hdiffer.filter _)
  exact headerLines_eq_ok_iff.2 ⟨fields', hreads', withFields_perm hfields.symm hnames⟩

/-- A name behind all others comes last. -/
theorem addHeader_of_lt {name : String} (h : ∀ header ∈ headers, header.1 < name) (value : String) :
    addHeader name value headers = headers ++ [(name, value)] := by
  induction headers with
  | nil => rfl
  | cons header rest ih =>
    obtain ⟨known, values⟩ := header
    obtain ⟨hfirst, hrest⟩ := List.forall_mem_cons.1 h
    have hne : name ≠ known := by
      rintro rfl
      exact String.lt_irrefl _ hfirst
    rw [addHeader, if_neg hne, if_neg (String.lt_asymm hfirst), ih hrest, List.cons_append]

theorem withFields_of_sorted
    (h : (headers ++ fields).Pairwise fun field field' => field.1 < field'.1) :
    withFields headers fields = headers ++ fields := by
  induction fields generalizing headers with
  | nil => exact (List.append_nil _).symm
  | cons field fields ih =>
    have hlast : ∀ header ∈ headers, header.1 < field.1 := fun header hmem =>
      (List.pairwise_append.1 h).2.2 header hmem field List.mem_cons_self
    rw [List.append_cons] at h ⊢
    rw [← ih h]
    show withFields (addHeader field.1 field.2 headers) fields = _
    rw [addHeader_of_lt hlast]

/-- Headers are kept in the order of their names. -/
theorem withFields_eq {sorted : List (String × String)} (hperm : fields.Perm sorted)
    (hsorted : sorted.Pairwise fun field field' => field.1 < field'.1) :
    withFields [] fields = sorted := by
  have hnames : sorted.Pairwise fun field field' => field.1 ≠ field'.1 := by
    refine hsorted.imp ?_
    intro field field' hlt hsame
    rw [hsame] at hlt
    exact String.lt_irrefl _ hlt
  rw [← withFields_perm hperm.symm hnames]
  exact withFields_of_sorted hsorted

/-- What a header block says is read off its lines. -/
theorem parse_eq_ok_iff {head : Bytes} {request : Request} :
    parse head = .ok request ↔
      ∃ text first lines, Utf8.decode head = .ok text ∧
        Text.crlfLines text.toList = first :: lines ∧
        requestLine first = .ok (request.method, request.path) ∧
        headerLines [] lines = .ok request.headers := by
  constructor
  · intro h
    rw [parse] at h
    split at h
    · cases h
    · rename_i text hdecode
      obtain ⟨first, lines, hlines⟩ := Text.exists_crlfLines text.toList
      rw [hlines] at h
      dsimp only [List.headD_cons, List.tail_cons] at h
      split at h
      · cases h
      · rename_i method path hfirst
        cases hheaders : headerLines [] lines with
        | error error =>
          rw [hheaders] at h
          cases h
        | ok headers =>
          rw [hheaders] at h
          cases h
          exact ⟨text, first, lines, hdecode, hlines, hfirst, hheaders⟩
  · rintro ⟨text, first, lines, hdecode, hlines, hfirst, hheaders⟩
    simp only [parse, hdecode, hlines, List.headD_cons, List.tail_cons, hfirst, hheaders]
    rfl

/-! ## Nothing in a request ends a line -/

/-- All values stand on one line. -/
def ValuesUnbroken (headers : List (String × String)) : Prop :=
  ∀ header ∈ headers, Text.Unbroken header.2.toList

/-- What is read off a line stands on one line. -/
theorem unbroken_of_headerLine {line : List Char} {field : String × String}
    (hline : Text.Unbroken line) (h : headerLine line = .ok field) :
    Text.Unbroken field.2.toList := by
  unfold headerLine at h
  split at h
  · cases h
  · rename_i name value hcut
    cases h
    rw [String.toList_ofList]
    exact Text.Unbroken.trim (hline.suffix (Text.suffix_of_cutAt hcut))

theorem ValuesUnbroken.addHeader {name value : String} (h : ValuesUnbroken headers)
    (hvalue : Text.Unbroken value.toList) : ValuesUnbroken (addHeader name value headers) := by
  induction headers with
  | nil =>
    intro header hmem
    obtain rfl := List.mem_singleton.1 hmem
    exact hvalue
  | cons known rest ih =>
    obtain ⟨first, values⟩ := known
    obtain ⟨hfirst, hrest⟩ := List.forall_mem_cons.1 h
    rw [Request.addHeader]
    split_ifs
    · refine List.forall_mem_cons.2 ⟨?_, hrest⟩
      have hspace : Text.Unbroken (' ' :: value.toList) :=
        Text.unbroken_append (by decide : Text.Unbroken [' ']) hvalue (.inl (by decide))
      have hcomma : Text.Unbroken (',' :: ' ' :: value.toList) :=
        Text.unbroken_append (by decide : Text.Unbroken [',']) hspace (.inl (by decide))
      have hjoin : (values ++ ", " ++ value).toList = values.toList ++ ',' :: ' ' :: value.toList := by
        rw [String.toList_append, String.toList_append, List.append_assoc]
        rfl
      rw [hjoin]
      exact Text.unbroken_append hfirst hcomma
        (.inr fun hsome => absurd (Option.some.inj hsome) (by decide))
    · exact List.forall_mem_cons.2 ⟨hvalue, h⟩
    · exact List.forall_mem_cons.2 ⟨hfirst, ih hrest⟩

theorem ValuesUnbroken.withFields (h : ValuesUnbroken headers) (hfields : ValuesUnbroken fields) :
    ValuesUnbroken (withFields headers fields) := by
  induction fields generalizing headers with
  | nil => exact h
  | cons field fields ih =>
    obtain ⟨hfirst, hrest⟩ := List.forall_mem_cons.1 hfields
    exact ih (h.addHeader hfirst) hrest

theorem Reads.unbroken (h : Reads lines fields) (hlines : ∀ line ∈ lines, Text.Unbroken line) :
    ValuesUnbroken fields := by
  induction h with
  | nil => exact List.forall_mem_nil _
  | cons hline _ ih =>
    obtain ⟨hfirst, hrest⟩ := List.forall_mem_cons.1 hlines
    exact List.forall_mem_cons.2 ⟨unbroken_of_headerLine hfirst hline, ih hrest⟩

/-- Whatever was sent, no header value has an end of line inside. -/
theorem unbroken_of_parse {head : Bytes} {request : Request} (h : parse head = .ok request) :
    ValuesUnbroken request.headers := by
  obtain ⟨text, first, lines, _, hlines, _, hheaders⟩ := parse_eq_ok_iff.1 h
  obtain ⟨fields, hreads, heq⟩ := headerLines_eq_ok_iff.1 hheaders
  rw [heq]
  refine ValuesUnbroken.withFields (List.forall_mem_nil _) (hreads.unbroken fun line hmem => ?_)
  have hline : line ∈ Text.crlfLines text.toList := by
    rw [hlines]
    exact List.mem_cons_of_mem _ (List.mem_of_mem_filter hmem)
  exact Text.unbroken_of_mem_crlfLines hline

theorem unbroken_of_header {head : Bytes} {request : Request} {name value : String}
    (h : parse head = .ok request) (hheader : request.header name = some value) :
    Text.Unbroken value.toList := by
  obtain ⟨before, behind, hheaders, _⟩ := List.lookup_eq_some_iff.1 hheader
  apply unbroken_of_parse h (_, value)
  rw [hheaders]
  exact List.mem_append_right _ List.mem_cons_self

/-- There is no white space in a path. -/
theorem not_blank_of_path {head : Bytes} {request : Request} (h : parse head = .ok request) :
    ∀ c ∈ request.path.toList, Text.isBlank c = false := by
  obtain ⟨_, first, _, _, _, hstatus, _⟩ := parse_eq_ok_iff.1 h
  unfold requestLine at hstatus
  split at hstatus
  · cases hstatus
  · split at hstatus
    · cases hstatus
    · rename_i path _ hword
      rw [Except.ok.injEq, Prod.mk.injEq] at hstatus
      rw [← hstatus.2, String.toList_ofList]
      exact Text.not_blank_of_nextWord hword

end FramedChannel.WebSocket.Request
