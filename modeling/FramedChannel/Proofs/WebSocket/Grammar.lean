import Mathlib.Data.List.Forall2
import FramedChannel.Proofs.Text.Utf8
import FramedChannel.Proofs.Text.Words
import FramedChannel.Proofs.WebSocket.HeaderLines
import FramedChannel.Proofs.WebSocket.Resumable

/-!
# The grammar of requests

What bytes are a request, and what the request says, without the functions that
read it.

* `Consists` are the lines of a header block.
* `HasFields` are the names and values of header lines, `valuesFor` the values of
  one name in their order, and `joined` is what is kept of them.
* `header_withFields` says that headers keep the joined values of each name, in
  whatever order the names come.
* `parse_grammar` is the result: which bytes are a request, and what it says.
-/

namespace FramedChannel

/-! ## Case -/

namespace Text

/-- Two characters differ in nothing but the case of an ASCII letter. -/
def SameLetter (c d : Char) : Prop :=
  c = d ∨ (65 ≤ c.toNat ∧ c.toNat ≤ 90 ∧ d.toNat = c.toNat + 32) ∨
    (65 ≤ d.toNat ∧ d.toNat ≤ 90 ∧ c.toNat = d.toNat + 32)

/-- Two texts differ in nothing but the case of ASCII letters. -/
def SameName (left right : List Char) : Prop :=
  List.Forall₂ SameLetter left right

instance (c d : Char) : Decidable (SameLetter c d) :=
  inferInstanceAs (Decidable (_ ∨ _ ∨ _))

instance (left right : List Char) : Decidable (SameName left right) :=
  inferInstanceAs (Decidable (List.Forall₂ SameLetter left right))

theorem toNat_toLower (c : Char) :
    c.toLower.toNat = if 65 ≤ c.toNat ∧ c.toNat ≤ 90 then c.toNat + 32 else c.toNat := by
  have hcapital : ('A'.val ≤ c.val ∧ c.val ≤ 'Z'.val) ↔ 65 ≤ c.toNat ∧ c.toNat ≤ 90 := by
    rw [UInt32.le_iff_toNat_le, UInt32.le_iff_toNat_le]
    rfl
  unfold Char.toLower
  split_ifs with hupper hlower hlower
  · have hsum : (c.val + ('a'.val - 'A'.val)).toNat = c.toNat + 32 := by
      rw [UInt32.toNat_add]
      exact Nat.mod_eq_of_lt (by show c.toNat + 32 < _; omega)
    exact hsum
  · exact absurd (hcapital.1 hupper) hlower
  · exact absurd (hcapital.2 hlower) hupper
  · rfl

theorem toLower_eq_iff {c d : Char} : c.toLower = d.toLower ↔ SameLetter c d := by
  rw [← Char.toNat_inj, toNat_toLower, toNat_toLower, SameLetter, ← Char.toNat_inj]
  split_ifs <;> omega

theorem lowercaseAscii_eq_iff {left right : List Char} :
    lowercaseAscii left = lowercaseAscii right ↔ SameName left right := by
  rw [← List.forall₂_eq_eq_eq, lowercaseAscii, lowercaseAscii, List.forall₂_map_left_iff,
    List.forall₂_map_right_iff]
  simp only [toLower_eq_iff, SameName]

end Text

namespace WebSocket.Request

open Text (AreLines SameName Trims Words)

/-! ## Headers by name -/

/-- What is kept of the values of one name. -/
def joined : List String → Option String
  | [] => none
  | value :: more => some (", ".intercalate (value :: more))

/-- The values that fields have for a name, in their order. -/
def valuesOf (name : String) (fields : List (String × String)) : List String :=
  (fields.filter fun field => field.1 = name).map Prod.snd

/-- The names are in order, and none comes twice. -/
def Sorted (headers : List (String × String)) : Prop :=
  headers.Pairwise fun header header' => header.1 < header'.1

variable {name other value : String} {headers fields : List (String × String)}

theorem intercalate_concat (first : String) (values : List String) (value : String) :
    ", ".intercalate (first :: values ++ [value]) =
      ", ".intercalate (first :: values) ++ ", " ++ value := by
  induction values generalizing first with
  | nil => simp [String.intercalate_cons_cons]
  | cons second values ih =>
    rw [List.cons_append, List.cons_append, String.intercalate_cons_cons, ← List.cons_append, ih,
      String.intercalate_cons_cons]
    simp only [String.append_assoc]

theorem joined_concat (values : List String) (value : String) :
    joined (values ++ [value]) =
      some ((joined values).elim value fun known => known ++ ", " ++ value) := by
  cases values with
  | nil => simp [joined]
  | cons first values =>
    rw [List.cons_append, joined, ← List.cons_append, intercalate_concat]
    rfl

theorem lookup_eq_none_of_lt (h : ∀ header ∈ headers, name < header.1) :
    headers.lookup name = none := by
  rw [List.lookup_eq_none_iff]
  intro header hmem
  rw [bne_iff_ne]
  intro hsame
  have hlt := h header hmem
  rw [← hsame] at hlt
  exact String.lt_irrefl _ hlt

/-- One more line is joined to what is known of its name. -/
theorem lookup_addHeader_same (hsorted : Sorted headers) (value : String) :
    (addHeader name value headers).lookup name =
      some ((headers.lookup name).elim value fun known => known ++ ", " ++ value) := by
  induction headers with
  | nil => simp [addHeader]
  | cons header rest ih =>
    obtain ⟨known, values⟩ := header
    obtain ⟨hbelow, hrest⟩ := List.pairwise_cons.1 hsorted
    rw [addHeader]
    split_ifs with hsame hlt
    · simp [hsame]
    · have hnone : ((known, values) :: rest).lookup name = none :=
        lookup_eq_none_of_lt (List.forall_mem_cons.2 ⟨hlt, fun header hmem =>
          String.lt_trans hlt (hbelow header hmem)⟩)
      simp [hnone]
    · simp only [List.lookup_cons, beq_eq_false_iff_ne.2 hsame]
      exact ih hrest

/-- It says nothing about other names. -/
theorem lookup_addHeader_other (h : other ≠ name) (value : String) :
    (addHeader name value headers).lookup other = headers.lookup other := by
  have hname : (other == name) = false := beq_eq_false_iff_ne.2 h
  induction headers with
  | nil => simp [addHeader, List.lookup_cons, hname]
  | cons header rest ih =>
    obtain ⟨known, values⟩ := header
    rw [addHeader]
    split_ifs with hsame hlt
    · simp [List.lookup_cons, ← hsame, hname]
    · simp [List.lookup_cons, hname]
    · simp only [List.lookup_cons, ih]

theorem mem_addHeader {header : String × String} (hmem : header ∈ addHeader name value headers) :
    header.1 = name ∨ ∃ known ∈ headers, known.1 = header.1 := by
  induction headers with
  | nil => simp_all [addHeader]
  | cons first rest ih =>
    obtain ⟨known, values⟩ := first
    rw [addHeader] at hmem
    split_ifs at hmem with hsame hlt
    · rcases List.mem_cons.1 hmem with rfl | hrest
      · exact .inl hsame.symm
      · exact .inr ⟨header, List.mem_cons_of_mem _ hrest, rfl⟩
    · rcases List.mem_cons.1 hmem with rfl | hrest
      · exact .inl rfl
      · exact .inr ⟨header, hrest, rfl⟩
    · rcases List.mem_cons.1 hmem with rfl | hrest
      · exact .inr ⟨_, List.mem_cons_self, rfl⟩
      · refine (ih hrest).imp_right ?_
        rintro ⟨known, hknown, hsame⟩
        exact ⟨known, List.mem_cons_of_mem _ hknown, hsame⟩

theorem Sorted.addHeader (h : Sorted headers) (name value : String) :
    Sorted (addHeader name value headers) := by
  induction headers with
  | nil => exact List.pairwise_singleton _ _
  | cons header rest ih =>
    obtain ⟨known, values⟩ := header
    obtain ⟨hbelow, hrest⟩ := List.pairwise_cons.1 h
    rw [Request.addHeader]
    split_ifs with hsame hlt
    · exact List.pairwise_cons.2 ⟨hbelow, hrest⟩
    · refine List.pairwise_cons.2 ⟨List.forall_mem_cons.2 ⟨hlt, fun header hmem => ?_⟩, h⟩
      exact String.lt_trans hlt (hbelow header hmem)
    · refine List.pairwise_cons.2 ⟨fun header hmem => ?_, ih hrest⟩
      obtain hname | ⟨first, hfirst, hname⟩ := mem_addHeader hmem
      · rw [hname]
        exact Std.lt_of_le_of_ne (String.not_lt.1 hlt) (Ne.symm hsame)
      · rw [← hname]
        exact hbelow first hfirst

/-- Behind some lines the values of a name are those that were known and those of the lines. -/
theorem lookup_withFields (hsorted : Sorted headers) {known : List String}
    (h : headers.lookup name = joined known) :
    (withFields headers fields).lookup name = joined (known ++ valuesOf name fields) := by
  induction fields generalizing headers known with
  | nil =>
    rw [valuesOf, List.filter_nil, List.map_nil, List.append_nil]
    exact h
  | cons field fields ih =>
    show (withFields (addHeader field.1 field.2 headers) fields).lookup name = _
    by_cases hname : field.1 = name
    · have hvalues : valuesOf name (field :: fields) = field.2 :: valuesOf name fields := by
        simp [valuesOf, hname]
      rw [hvalues, List.append_cons]
      refine ih (hsorted.addHeader ..) ?_
      rw [hname, lookup_addHeader_same hsorted, h, joined_concat]
    · have hvalues : valuesOf name (field :: fields) = valuesOf name fields := by
        simp [valuesOf, hname]
      rw [hvalues]
      refine ih (hsorted.addHeader ..) ?_
      rw [lookup_addHeader_other (Ne.symm hname), h]

/-- Headers keep the joined values of every name. -/
theorem header_withFields (name : String) (fields : List (String × String)) :
    (withFields [] fields).lookup name = joined (valuesOf name fields) := by
  have hnone : ([] : List (String × String)).lookup name = joined [] := rfl
  exact lookup_withFields List.Pairwise.nil hnone

/-! ## Lines and their fields -/

/-- A line of a name and a value with the first colon between them. -/
def IsField (line : List Char) (field : List Char × List Char) : Prop :=
  ∃ before behind, line = before ++ ':' :: behind ∧ ':' ∉ before ∧
    Trims before field.1 ∧ Trims behind field.2

/-- The fields of some lines, of which empty ones have none. -/
def HasFields (lines : List (List Char)) (fields : List (List Char × List Char)) : Prop :=
  List.Forall₂ IsField (lines.filter (· ≠ [])) fields

theorem isField_unique : Relator.RightUnique IsField := by
  rintro line ⟨key, value⟩ ⟨key', value'⟩ ⟨before, behind, hline, hbefore, hkey, hvalue⟩
    ⟨before', behind', hline', hbefore', hkey', hvalue'⟩
  have hcut := Text.cutAt_eq_some_iff.2 ⟨hline, hbefore⟩
  cases hcut.symm.trans (Text.cutAt_eq_some_iff.2 ⟨hline', hbefore'⟩)
  have hkeys : key = key' := (Text.trim_eq_iff.2 hkey).symm.trans (Text.trim_eq_iff.2 hkey')
  have hvalues : value = value' :=
    (Text.trim_eq_iff.2 hvalue).symm.trans (Text.trim_eq_iff.2 hvalue')
  rw [hkeys, hvalues]

/-- Lines have no other fields. -/
theorem HasFields.unique {lines : List (List Char)} {parts parts' : List (List Char × List Char)}
    (h : HasFields lines parts) (h' : HasFields lines parts') : parts = parts' :=
  isField_unique.forall₂ h h'

/-- The values that fields have for a name without regard to case, in their order. -/
def valuesFor (name : String) (fields : List (List Char × List Char)) : List String :=
  (fields.filter fun field => SameName field.1 name.toList).map fun field =>
    String.ofList field.2

/-- A field as it is kept. -/
def kept (field : List Char × List Char) : String × String :=
  (String.ofList (Text.lowercaseAscii field.1), String.ofList field.2)

variable {line : List Char} {lines : List (List Char)}

theorem headerLine_eq_ok_iff {field : String × String} :
    headerLine line = .ok field ↔ ∃ parts, IsField line parts ∧ field = kept parts := by
  constructor
  · intro h
    unfold headerLine at h
    split at h
    · cases h
    · rename_i before behind hcut
      cases h
      obtain ⟨hline, hbefore⟩ := Text.cutAt_eq_some_iff.1 hcut
      exact ⟨(Text.trim before, Text.trim behind),
        ⟨before, behind, hline, hbefore, Text.trims_trim before, Text.trims_trim behind⟩, rfl⟩
  · rintro ⟨⟨key, value⟩, ⟨before, behind, hline, hbefore, hkey, hvalue⟩, rfl⟩
    rw [headerLine, Text.cutAt_eq_some_iff.2 ⟨hline, hbefore⟩]
    dsimp only
    rw [Text.trim_eq_iff.2 hkey, Text.trim_eq_iff.2 hvalue]
    rfl

/-- The fields are there if each line has a colon. -/
theorem exists_fields_iff :
    (∃ parts, List.Forall₂ IsField lines parts) ↔ ∀ line ∈ lines, ':' ∈ line := by
  constructor
  · rintro ⟨parts, hparts⟩
    induction hparts with
    | nil => exact List.forall_mem_nil _
    | cons hfirst _ ih =>
      obtain ⟨before, behind, rfl, _⟩ := hfirst
      exact List.forall_mem_cons.2 ⟨List.mem_append_right _ List.mem_cons_self, ih⟩
  · intro h
    induction lines with
    | nil => exact ⟨[], .nil⟩
    | cons line lines ih =>
      obtain ⟨hline, hrest⟩ := List.forall_mem_cons.1 h
      obtain ⟨before, behind, rfl, hbefore⟩ := List.eq_append_cons_of_mem hline
      obtain ⟨parts, hparts⟩ := ih hrest
      exact ⟨(Text.trim before, Text.trim behind) :: parts,
        .cons ⟨before, behind, rfl, hbefore, Text.trims_trim before, Text.trims_trim behind⟩
          hparts⟩

theorem reads_iff {fields : List (String × String)} :
    Reads lines fields ↔ ∃ parts, List.Forall₂ IsField lines parts ∧ fields = parts.map kept := by
  constructor
  · intro h
    induction h with
    | nil => exact ⟨[], .nil, rfl⟩
    | cons hline _ ih =>
      obtain ⟨part, hpart, rfl⟩ := headerLine_eq_ok_iff.1 hline
      obtain ⟨parts, hparts, rfl⟩ := ih
      exact ⟨part :: parts, .cons hpart hparts, rfl⟩
  · rintro ⟨parts, hparts, rfl⟩
    induction hparts with
    | nil => exact .nil
    | cons hpart _ ih => exact .cons (headerLine_eq_ok_iff.2 ⟨_, hpart, rfl⟩) ih

/-- Kept names are the same if the names are the same without regard to case. -/
theorem valuesOf_kept (name : String) (parts : List (List Char × List Char)) :
    valuesOf (String.ofList (Text.lowercaseAscii name.toList)) (parts.map kept) =
      valuesFor name parts := by
  have hname : ∀ part : List Char × List Char,
      (kept part).1 = String.ofList (Text.lowercaseAscii name.toList) ↔
        SameName part.1 name.toList := by
    intro part
    rw [kept, String.ofList_inj, Text.lowercaseAscii_eq_iff]
  rw [valuesOf, valuesFor, List.filter_map, List.map_map]
  congr 1
  refine List.filter_congr fun part _ => ?_
  simp only [Function.comp_apply, hname]

/-! ## Requests -/

/-- The lines that the text of a header block consists of. -/
def Consists (head : Bytes) (first : List Char) (lines : List (List Char)) : Prop :=
  ∃ text, Utf8.encode text = head ∧ AreLines text.toList (first :: lines)

variable {head : Bytes} {first : List Char} {method path : String}

theorem consists_iff : Consists head first lines ↔
    ∃ text, Utf8.decode head = .ok text ∧ Text.crlfLines text.toList = first :: lines := by
  simp only [Consists, Utf8.decode_eq_ok_iff, Text.crlfLines_eq_iff]

theorem requestLine_eq_ok_iff : requestLine line = .ok (method, path) ↔
    ∃ more, Words line (method.toList :: path.toList :: more) := by
  constructor
  · intro h
    unfold requestLine at h
    split at h
    · cases h
    · rename_i word behind hword
      split at h
      · cases h
      · rename_i word' behind' hword'
        cases h
        obtain ⟨more, hmore⟩ := Text.exists_words behind'
        rw [String.toList_ofList, String.toList_ofList]
        exact ⟨more, .next (Text.nextWord_eq_some_iff.1 hword)
          (.next (Text.nextWord_eq_some_iff.1 hword') hmore)⟩
  · rintro ⟨more, hwords⟩
    cases hwords with
    | next hfirst hrest =>
      cases hrest with
      | next hsecond _ =>
        simp only [requestLine, Text.nextWord_eq_some_iff.2 hfirst,
          Text.nextWord_eq_some_iff.2 hsecond, String.ofList_toList]

/-- A request in terms of the lines of its header block. -/
theorem parse_eq_ok_iff_fields {request : Request} (hlines : Consists head first lines) :
    parse head = .ok request ↔
      (∃ more, Words first (request.method.toList :: request.path.toList :: more)) ∧
        ∃ parts, HasFields lines parts ∧ request.headers = withFields [] (parts.map kept) := by
  obtain ⟨text, hdecode, hcrlf⟩ := consists_iff.1 hlines
  have hfilter : (lines.filter fun line => !line.isEmpty) = lines.filter (· ≠ []) :=
    List.filter_congr fun line _ => by cases line <;> rfl
  constructor
  · intro h
    obtain ⟨text', first', lines', hdecode', hcrlf', hfirst, hheaders⟩ := parse_eq_ok_iff.1 h
    cases hdecode.symm.trans hdecode'
    cases hcrlf.symm.trans hcrlf'
    obtain ⟨fields, hreads, heq⟩ := headerLines_eq_ok_iff.1 hheaders
    obtain ⟨parts, hparts, rfl⟩ := reads_iff.1 hreads
    rw [hfilter] at hparts
    exact ⟨requestLine_eq_ok_iff.1 hfirst, parts, hparts, heq⟩
  · rintro ⟨hfirst, parts, hparts, heq⟩
    rw [HasFields, ← hfilter] at hparts
    exact parse_eq_ok_iff.2 ⟨text, first, lines, hdecode, hcrlf, requestLine_eq_ok_iff.2 hfirst,
      headerLines_eq_ok_iff.2 ⟨_, reads_iff.2 ⟨parts, hparts, rfl⟩, heq⟩⟩

theorem consists_of_parse {request : Request} (h : parse head = .ok request) :
    ∃ first lines, Consists head first lines := by
  obtain ⟨text, first, lines, hdecode, hlines, _⟩ := parse_eq_ok_iff.1 h
  exact ⟨first, lines, consists_iff.2 ⟨text, hdecode, hlines⟩⟩

/-- The requests are the header blocks of the grammar: text whose first line has two words, with a
colon in each other line that is not empty.  A request says what stands there: its method and its
path are the first two words, and every header is what is kept of the values that the lines have for
its name.  Whatever is no request breaks the protocol. -/
theorem parse_grammar (head : Bytes) :
    ((∃ request, parse head = .ok request) ↔
      ∃ first lines method path more, Consists head first lines ∧
        Words first (method :: path :: more) ∧ ∀ line ∈ lines, line ≠ [] → ':' ∈ line) ∧
    (∀ request first lines words, parse head = .ok request → Consists head first lines →
      Words first words →
        words.take 2 = [request.method.toList, request.path.toList] ∧
        ∃ fields, HasFields lines fields ∧
          ∀ name, request.header name = joined (valuesFor name fields)) ∧
    (∀ error, parse head = .error error → ∃ violation, error = .protocol violation) := by
  refine ⟨⟨?_, ?_⟩, ?_, fun error herror => protocol_of_parse_eq_error herror⟩
  · rintro ⟨request, hparse⟩
    obtain ⟨first, lines, hlines⟩ := consists_of_parse hparse
    obtain ⟨⟨more, hwords⟩, parts, hparts, _⟩ := (parse_eq_ok_iff_fields hlines).1 hparse
    refine ⟨first, lines, _, _, more, hlines, hwords, fun line hmem hne => ?_⟩
    exact exists_fields_iff.1 ⟨parts, hparts⟩ line (List.mem_filter.2 ⟨hmem, decide_eq_true hne⟩)
  · rintro ⟨first, lines, method, path, more, hlines, hwords, hcolons⟩
    have hcolons' : ∀ line ∈ lines.filter (· ≠ []), ':' ∈ line := fun line hmem =>
      hcolons line (List.mem_of_mem_filter hmem) (of_decide_eq_true (List.mem_filter.1 hmem).2)
    obtain ⟨parts, hparts⟩ := exists_fields_iff.2 hcolons'
    refine ⟨⟨String.ofList method, String.ofList path, withFields [] (parts.map kept)⟩,
      (parse_eq_ok_iff_fields hlines).2 ⟨⟨more, ?_⟩, parts, hparts, rfl⟩⟩
    rw [String.toList_ofList, String.toList_ofList]
    exact hwords
  · intro request first lines words hparse hlines hwords
    obtain ⟨⟨more, hwords'⟩, parts, hparts, hheaders⟩ :=
      (parse_eq_ok_iff_fields hlines).1 hparse
    obtain rfl := hwords.unique hwords'
    refine ⟨rfl, parts, hparts, fun name => ?_⟩
    rw [header, hheaders, header_withFields, valuesOf_kept]

/-- A request with an empty line inside, and with a name that comes twice in two spellings. -/
def respelledHead : Bytes :=
  Utf8.encode "GET  /a b\r\nHost: a:1\r\n\r\n hOST :\tb "

/-- Its values are joined. -/
theorem parse_grammar_respelledHead :
    ∃ request, parse respelledHead = .ok request ∧ request.method = "GET" ∧ request.path = "/a" ∧
      request.header "HOST" = some "a:1, b" := by
  have hlines : Consists respelledHead "GET  /a b".toList
      ["Host: a:1".toList, [], " hOST :\tb ".toList] :=
    consists_iff.2 ⟨_, Utf8.decode_encode _, by decide +kernel⟩
  have hfirst : requestLine "GET  /a b".toList = .ok ("GET", "/a") := by rfl
  obtain ⟨more, hwords⟩ := requestLine_eq_ok_iff.1 hfirst
  obtain ⟨⟨_, hgrammar⟩, hsays, _⟩ := parse_grammar respelledHead
  obtain ⟨request, hparse⟩ := hgrammar ⟨_, _, _, _, _, hlines, hwords, by decide⟩
  obtain ⟨htake, fields, hfields, hheader⟩ := hsays request _ _ _ hparse hlines hwords
  have hknown : HasFields ["Host: a:1".toList, [], " hOST :\tb ".toList]
      [("Host".toList, "a:1".toList), ("hOST".toList, "b".toList)] :=
    .cons ⟨"Host".toList, " a:1".toList, rfl, by decide, Text.trim_eq_iff.1 (by decide),
        Text.trim_eq_iff.1 (by decide)⟩
      (.cons ⟨" hOST ".toList, "\tb ".toList, rfl, by decide, Text.trim_eq_iff.1 (by decide),
        Text.trim_eq_iff.1 (by decide)⟩ .nil)
  obtain rfl := hfields.unique hknown
  simp only [List.take_succ_cons, List.take_zero, List.cons.injEq, String.toList_inj] at htake
  refine ⟨request, hparse, htake.1.symm, htake.2.1.symm, ?_⟩
  rw [hheader]
  decide +kernel

end WebSocket.Request

end FramedChannel
