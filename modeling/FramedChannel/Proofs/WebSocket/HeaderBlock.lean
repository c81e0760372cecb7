import FramedChannel.Proofs.Text.Utf8
import FramedChannel.Proofs.WebSocket.HeaderLines
import FramedChannel.Proofs.WebSocket.Request
import FramedChannel.Proofs.WebSocket.Segmentation

/-!
# Reading header blocks back

A block of header lines ends at the first blank line, and what stands in front
of it reads as the lines that were put in.

* `find_headerBlock` finds the blank line.
* `ReadsAs` says what a reader of some bytes finds, and `readsAs_headerBlock`
  that it finds the fields that a block was made from.
* `Reorders.whole` says that a block with its lines in another order says the
  same.
-/

namespace FramedChannel.WebSocket

open Text (Unbroken)

/-! ## Blocks -/

/-- What a reader of header blocks finds in some bytes: a block up to the first blank line, and the
bytes behind that. -/
def ReadsAs (bytes : Bytes) (read : Request) (tail : Bytes) : Prop :=
  ∃ head, bytes = head ++ Decoder.headTerminator ++ tail ∧
    Bytes.find Decoder.headTerminator bytes 0 = some head.length ∧ Request.parse head = .ok read

/-- The text in front of the blank line. -/
def headText (lines : List String) : String :=
  String.ofList (['\r', '\n'].intercalate (lines.map String.toList))

theorem encode_blankLine : Text.blankLine.flatMap String.utf8EncodeChar = Decoder.headTerminator :=
  rfl

theorem headerBlock_eq_block (lines : List String) :
    headerBlock lines =
      (Text.block (lines.map String.toList)).flatMap String.utf8EncodeChar := by
  have hjoin : (String.join (lines.map (· ++ "\r\n")) ++ "\r\n").toList =
      Text.block (lines.map String.toList) := by
    rw [String.toList_append, String.toList_join, Text.block, List.flatMap_map, List.flatMap_map]
    congr 2
    funext line
    exact String.toList_append
  rw [headerBlock, Utf8.encode, hjoin]

theorem headerBlock_eq {lines : List String} (hne : lines ≠ []) :
    headerBlock lines = Utf8.encode (headText lines) ++ Decoder.headTerminator := by
  have hne' : lines.map String.toList ≠ [] := by simpa using hne
  rw [headerBlock_eq_block, Text.block_eq hne', List.flatMap_append, encode_blankLine, headText,
    Utf8.encode, String.toList_ofList]

/-- The first blank line of a block is the one at its end. -/
theorem find_headerBlock {lines : List String} (hne : lines ≠ [])
    (h : ∀ line ∈ lines, line ≠ "" ∧ Unbroken line.toList) (tail : Bytes) :
    Bytes.find Decoder.headTerminator (headerBlock lines ++ tail) 0 =
      some (Utf8.encode (headText lines)).length := by
  have hterminator : Decoder.headTerminator ≠ [] := List.cons_ne_nil _ _
  have hblock := headerBlock_eq hne
  rw [Bytes.find_eq_some_iff hterminator]
  refine ⟨Nat.zero_le _, ?_, ?_⟩
  · rw [hblock, List.append_assoc, List.drop_left]
    exact List.prefix_append _ _
  · intro i _ hlt hprefix
    -- It ends within the block, so it is one of the block's text.
    have hlength : (headerBlock lines).length =
        (Utf8.encode (headText lines)).length + Decoder.headTerminator.length := by
      rw [hblock, List.length_append]
    rw [List.drop_append_of_le_length (by omega)] at hprefix
    have hwithin : Decoder.headTerminator <+: (headerBlock lines).drop i := by
      refine List.prefix_of_prefix_length_le hprefix (List.prefix_append _ _) ?_
      rw [List.length_drop]
      omega
    rw [headerBlock_eq_block, ← encode_blankLine] at hwithin
    have hascii : ∀ c ∈ Text.blankLine, c.val.toNat < 0x80 := by
      intro c hc
      simp only [Text.blankLine, List.mem_cons, List.not_mem_nil, or_false] at hc
      rcases hc with rfl | rfl | rfl | rfl <;> decide
    obtain ⟨k, hi, hblank⟩ := Utf8.prefix_drop_of_encode hascii (List.cons_ne_nil _ _) hwithin
    have hlines : ∀ line ∈ lines.map String.toList, line ≠ [] ∧ Unbroken line := by
      intro line hmem
      obtain ⟨text, htext, rfl⟩ := List.mem_map.1 hmem
      obtain ⟨hsome, hunbroken⟩ := h text htext
      exact ⟨by simpa using hsome, hunbroken⟩
    have hend := Text.length_of_blankLine hlines hblank
    -- The blank line at the end is behind `headText`.
    have hne' : lines.map String.toList ≠ [] := by simpa using hne
    rw [Text.block_eq hne', List.length_append, Nat.add_right_cancel_iff] at hend
    rw [Text.block_eq hne', hend, List.take_left] at hi
    rw [hi, headText, Utf8.encode, String.toList_ofList] at hlt
    exact Nat.lt_irrefl _ hlt

/-! ## Fields -/

/-- The line of a header. -/
def fieldLine (field : String × String) : String :=
  field.1 ++ ": " ++ field.2

/-- A header name as it is read. -/
def readName (name : String) : String :=
  String.ofList (Text.lowercaseAscii (Text.trim name.toList))

/-- A text without the white space at its two ends. -/
def trimmed (text : String) : String :=
  String.ofList (Text.trim text.toList)

/-- A header as it is read: its name in lower case, and no white space around name and value. -/
def readField (field : String × String) : String × String :=
  (readName field.1, trimmed field.2)

/-- A header that stands on one line. -/
structure Writable (field : String × String) : Prop where
  name : ':' ∉ field.1.toList
  unbroken_name : '\r' ∉ field.1.toList
  unbroken_value : Unbroken field.2.toList

theorem toList_fieldLine (field : String × String) :
    (fieldLine field).toList = field.1.toList ++ ':' :: ' ' :: field.2.toList := by
  rw [fieldLine, String.toList_append, String.toList_append, List.append_assoc]
  rfl

namespace Writable

variable {field : String × String} (h : Writable field)

include h

theorem headerLine_eq : Request.headerLine (fieldLine field).toList = .ok (readField field) := by
  rw [Request.headerLine, toList_fieldLine, Text.cutAt_append h.name]
  dsimp only
  rw [Text.trim_cons (by decide)]
  rfl

theorem unbroken : Unbroken (fieldLine field).toList := by
  have hspace : Unbroken (' ' :: field.2.toList) :=
    Text.unbroken_append (by decide : Unbroken [' ']) h.unbroken_value (.inl (by decide))
  have hcolon : Unbroken (':' :: ' ' :: field.2.toList) :=
    Text.unbroken_append (by decide : Unbroken [':']) hspace (.inl (by decide))
  rw [toList_fieldLine]
  exact Text.unbroken_append (Text.unbroken_of_not_mem h.unbroken_name) hcolon
    (.inr (fun hsome => absurd (Option.some.inj hsome) (by decide)))

end Writable

theorem fieldLine_ne_empty (field : String × String) : (fieldLine field).toList ≠ [] := by
  rw [toList_fieldLine]
  exact List.append_ne_nil_of_right_ne_nil _ (List.cons_ne_nil _ _)

/-- A block is read back as the fields that it was made from, and whatever stands behind it is left
alone. -/
theorem readsAs_headerBlock {status method path : String} {fields : List (String × String)}
    (hstatus : Request.requestLine status.toList = .ok (method, path))
    (hunbroken : Unbroken status.toList) (hfields : ∀ field ∈ fields, Writable field)
    (tail : Bytes) :
    ReadsAs (headerBlock (status :: fields.map fieldLine) ++ tail)
      { method, path, headers := Request.withFields [] (fields.map readField) } tail := by
  have hne : status :: fields.map fieldLine ≠ [] := List.cons_ne_nil _ _
  have hsound : ∀ line ∈ status :: fields.map fieldLine, line ≠ "" ∧ Unbroken line.toList := by
    intro line hmem
    rcases List.mem_cons.1 hmem with rfl | hmem
    · refine ⟨?_, hunbroken⟩
      rintro rfl
      cases hstatus
    · obtain ⟨field, hfield, rfl⟩ := List.mem_map.1 hmem
      refine ⟨fun hempty => fieldLine_ne_empty field ?_, (hfields field hfield).unbroken⟩
      rw [hempty]
      rfl
  refine ⟨Utf8.encode (headText (status :: fields.map fieldLine)), ?_,
    find_headerBlock hne hsound tail, ?_⟩
  · rw [headerBlock_eq hne]
  · rw [Request.parse_eq_ok_iff]
    refine ⟨_, status.toList, fields.map fun field => (fieldLine field).toList,
      Utf8.decode_encode _, ?_, hstatus, ?_⟩
    · rw [headText, String.toList_ofList, Text.crlfLines_intercalate]
      · rw [List.map_cons, List.map_map]
        rfl
      · exact List.cons_ne_nil _ _
      · intro line hmem
        obtain ⟨text, htext, rfl⟩ := List.mem_map.1 hmem
        exact (hsound text htext).2
    · rw [Request.headerLines_eq_ok_iff]
      refine ⟨fields.map readField, ?_, rfl⟩
      rw [List.filter_eq_self.2]
      · rw [Request.Reads, List.forall₂_map_left_iff, List.forall₂_map_right_iff,
          List.forall₂_same]
        exact fun field hmem => (hfields field hmem).headerLine_eq
      · intro line hmem
        obtain ⟨field, _, rfl⟩ := List.mem_map.1 hmem
        simpa using fieldLine_ne_empty field

/-! ## The order of header lines -/

/-- Two header blocks have the same header lines in different orders, and no name twice. -/
def Reorders (head head' : Bytes) : Prop :=
  ∃ text text' first lines lines',
    Utf8.decode head = .ok text ∧ Text.crlfLines text.toList = first :: lines ∧
    Utf8.decode head' = .ok text' ∧ Text.crlfLines text'.toList = first :: lines' ∧
    lines.Perm lines' ∧ lines.Pairwise Request.Differ

/-- A header block in which there is no blank line. -/
def Whole (head : Bytes) : Prop :=
  Bytes.find Decoder.headTerminator (head ++ Decoder.headTerminator) 0 = some head.length

instance (head : Bytes) : Decidable (Whole head) :=
  inferInstanceAs (Decidable (_ = _))

variable {head head' : Bytes} {text : String} {first : List Char} {lines lines' : List (List Char)}

theorem eq_headerBlock (hdecode : Utf8.decode head = .ok text)
    (hlines : Text.crlfLines text.toList = first :: lines) :
    head ++ Decoder.headTerminator = headerBlock ((first :: lines).map String.ofList) ∧
      head = Utf8.encode (headText ((first :: lines).map String.ofList)) := by
  have hid : String.toList ∘ String.ofList = id := funext fun _ => String.toList_ofList
  have htext : headText ((first :: lines).map String.ofList) = text := by
    rw [headText, List.map_map, hid, List.map_id, ← hlines, Text.intercalate_crlfLines,
      String.ofList_toList]
  have hne : (first :: lines).map String.ofList ≠ [] := List.cons_ne_nil _ _
  rw [headerBlock_eq hne, htext, Utf8.encode_of_decode hdecode]
  exact ⟨rfl, rfl⟩

theorem headerBlock_ofList (lines : List (List Char)) :
    headerBlock (lines.map String.ofList) =
      (Text.block lines).flatMap String.utf8EncodeChar := by
  have hid : String.toList ∘ String.ofList = id := funext fun _ => String.toList_ofList
  rw [headerBlock_eq_block, List.map_map, hid, List.map_id]

/-- No header line of a whole block is empty. -/
theorem Whole.ne_nil (h : Whole head) (hdecode : Utf8.decode head = .ok text)
    (hlines : Text.crlfLines text.toList = first :: lines) : [] ∉ lines := by
  intro hempty
  obtain ⟨k, hlt, hblank⟩ := Text.exists_blankLine first hempty
  obtain ⟨hblock, -⟩ := eq_headerBlock hdecode hlines
  rw [headerBlock_ofList, ← List.take_append_drop k (Text.block (first :: lines)),
    List.flatMap_append] at hblock
  obtain ⟨_, _, hearlier⟩ := (Bytes.find_eq_some_iff (List.cons_ne_nil _ _)).1 h
  refine hearlier (((Text.block (first :: lines)).take k).flatMap String.utf8EncodeChar).length
    (Nat.zero_le _) ?_ ?_
  · -- There are more characters behind this place than the blank line at the end has bytes.
    have hbehind := Utf8.length_le_of_decode (Utf8.decode_encode
      (String.ofList ((Text.block (first :: lines)).drop k)))
    rw [Utf8.encode, String.toList_ofList, List.length_drop] at hbehind
    have hlength := congrArg List.length hblock
    rw [List.length_append, List.length_append] at hlength
    have hfour : Decoder.headTerminator.length = Text.blankLine.length := rfl
    omega
  · obtain ⟨rest, hrest⟩ := hblank
    rw [hblock, List.drop_left, ← hrest, List.flatMap_append, encode_blankLine]
    exact List.prefix_append _ _

/-- Header lines in another order make a whole block of the same length, which says the same. -/
theorem Reorders.whole {request : Request} (h : Reorders head head') (hwhole : Whole head)
    (hparse : Request.parse head = .ok request) :
    Whole head' ∧ head'.length = head.length ∧ Request.parse head' = .ok request := by
  obtain ⟨text, text', first, lines, lines', hdecode, hlines, hdecode', hlines', hperm, hdiffer⟩ := h
  obtain ⟨hblock, -⟩ := eq_headerBlock hdecode hlines
  obtain ⟨hblock', hhead'⟩ := eq_headerBlock hdecode' hlines'
  obtain ⟨_, first', others, hsame, hlines'', hstatus, hheaders⟩ :=
    Request.parse_eq_ok_iff.1 hparse
  cases hdecode.symm.trans hsame
  cases hlines.symm.trans hlines''
  refine ⟨?_, ?_, ?_⟩
  · have hempty := hwhole.ne_nil hdecode hlines
    have hsound : ∀ line ∈ (first :: lines').map String.ofList,
        line ≠ "" ∧ Unbroken line.toList := by
      intro line hmem
      obtain ⟨chars, hchars, rfl⟩ := List.mem_map.1 hmem
      rw [String.toList_ofList]
      refine ⟨?_, Text.unbroken_of_mem_crlfLines (by rwa [hlines'])⟩
      intro hnil
      obtain rfl : chars = [] := by simpa using hnil
      rcases List.mem_cons.1 hchars with rfl | hmem'
      · cases hstatus
      · exact hempty (hperm.mem_iff.2 hmem')
    have hne : (first :: lines').map String.ofList ≠ [] := List.cons_ne_nil _ _
    have hfind := find_headerBlock hne hsound []
    rwa [List.append_nil, ← hblock', ← hhead'] at hfind
  · have hlength : (headerBlock ((first :: lines').map String.ofList)).length =
        (headerBlock ((first :: lines).map String.ofList)).length := by
      rw [headerBlock_ofList, headerBlock_ofList]
      refine (List.Perm.flatMap_right _ (List.Perm.append_right _ ?_)).length_eq
      exact List.Perm.flatMap_right _ (hperm.symm.cons first)
    rw [← hblock, ← hblock', List.length_append, List.length_append] at hlength
    omega
  · exact Request.parse_eq_ok_iff.2
      ⟨text', first, lines', hdecode', hlines', hstatus,
        Request.headerLines_perm hheaders hperm hdiffer⟩

end FramedChannel.WebSocket
