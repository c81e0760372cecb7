import Mathlib.Data.List.TakeDrop
import FramedChannel.Proofs.Text.Lines
import FramedChannel.WebSocket.Upgrade

/-!
# How long a request is

A header that a request has stands somewhere in its bytes, so the bytes are not
fewer than the characters of its name (`length_le_of_header`).  The way goes
from the bytes to their text, from the text to its lines, and from a line to
the name in front of its colon.
-/

namespace FramedChannel

/-! ## Text -/

namespace Utf8

private theorem decodeFrom_length_aux {start : Nat} {cursor : Option Open} {done text : List Char}
    {bytes : Bytes} (h : decodeFrom start cursor done bytes = .ok text) :
    text.length ≤ done.length + bytes.length := by
  induction bytes generalizing start cursor done with
  | nil =>
    cases cursor <;> cases h
    simp
  | cons byte rest ih =>
    unfold decodeFrom at h
    rw [List.length_cons]
    split at h
    · split at h
      · cases h
      · have hrest := ih h
        rw [List.length_cons] at hrest
        omega
      · have hrest := ih h
        omega
    · split at h
      · split at h
        · have hrest := ih h
          rw [List.length_cons] at hrest
          omega
        · have hrest := ih h
          omega
      · cases h

/-- A text has no more characters than bytes. -/
theorem length_le_of_decode {bytes : Bytes} {text : String} (h : decode bytes = .ok text) :
    text.toList.length ≤ bytes.length := by
  unfold decode at h
  cases hdecode : decodeFrom 0 none [] bytes with
  | error fault =>
    rw [hdecode] at h
    cases h
  | ok chars =>
    rw [hdecode] at h
    cases h
    have hlength := decodeFrom_length_aux hdecode
    simpa using hlength

end Utf8

namespace Text

theorem length_le_of_mem_crlfLines {text line : List Char} (h : line ∈ crlfLines text) :
    line.length ≤ text.length := by
  fun_induction crlfLines text generalizing line with
  | case1 => simp_all
  | case2 rest ih =>
    rw [List.length_cons, List.length_cons]
    rcases List.mem_cons.1 h with rfl | hrest
    · exact Nat.zero_le _
    · have hline := ih hrest
      omega
  | case3 c rest _ hnone ih =>
    obtain rfl : line = [c] := by simpa using h
    simp
  | case4 c rest _ first lines hsome ih =>
    rw [hsome] at ih
    rw [List.length_cons]
    rcases List.mem_cons.1 h with rfl | hrest
    · have hfirst := ih List.mem_cons_self
      rw [List.length_cons]
      omega
    · have hline := ih (List.mem_cons_of_mem _ hrest)
      omega

theorem length_trim_le (text : List Char) : (trim text).length ≤ text.length := by
  have hfront := (List.dropWhile_sublist isBlank (l := text)).length_le
  have hback :=
    (List.dropWhile_sublist isBlank (l := (text.dropWhile isBlank).reverse)).length_le
  rw [List.length_reverse] at hback
  rw [trim, List.length_reverse]
  omega

theorem length_le_of_cutAt {mark : Char} {text before behind : List Char}
    (h : cutAt mark text = some (before, behind)) : before.length ≤ text.length := by
  unfold cutAt at h
  rw [List.span_eq_takeWhile_dropWhile] at h
  split at h
  · cases h
  · rename_i hspan
    cases h
    rw [Prod.mk.injEq] at hspan
    rw [← hspan.1]
    exact (List.takeWhile_sublist _).length_le

end Text

namespace WebSocket.Request

/-! ## Headers -/

/-- Every header name has at most so many characters. -/
def NamesWithin (length : Nat) (headers : List (String × String)) : Prop :=
  ∀ header ∈ headers, header.1.toList.length ≤ length

variable {length : Nat} {headers parsed : List (String × String)} {name value : String}

theorem NamesWithin.addHeader (h : NamesWithin length headers)
    (hname : name.toList.length ≤ length) (value : String) :
    NamesWithin length (addHeader name value headers) := by
  induction headers with
  | nil =>
    intro header hmem
    obtain rfl : header = (name, value) := by simpa [Request.addHeader] using hmem
    exact hname
  | cons known rest ih =>
    obtain ⟨first, values⟩ := known
    have hfirst : first.toList.length ≤ length := h _ List.mem_cons_self
    have hrest : NamesWithin length rest := fun header hmem => h _ (List.mem_cons_of_mem _ hmem)
    unfold Request.addHeader
    intro header hmem
    split_ifs at hmem
    · rcases List.mem_cons.1 hmem with rfl | hmem
      · exact hfirst
      · exact hrest _ hmem
    · rcases List.mem_cons.1 hmem with rfl | hmem
      · exact hname
      · exact h _ hmem
    · rcases List.mem_cons.1 hmem with rfl | hmem
      · exact hfirst
      · exact ih hrest _ hmem

theorem length_le_of_headerLine {line : List Char} (h : headerLine line = .ok (name, value)) :
    name.toList.length ≤ line.length := by
  unfold headerLine at h
  split at h
  · cases h
  · rename_i before behind hcut
    cases h
    have hbefore := Text.length_le_of_cutAt hcut
    have htrim := Text.length_trim_le before
    simp only [String.toList_ofList, Text.lowercaseAscii, List.length_map]
    omega

theorem NamesWithin.headerLines {lines : List (List Char)} (h : NamesWithin length headers)
    (hlines : ∀ line ∈ lines, line.length ≤ length)
    (hparsed : headerLines headers lines = .ok parsed) : NamesWithin length parsed := by
  induction lines generalizing headers with
  | nil =>
    cases hparsed
    exact h
  | cons line rest ih =>
    have hrest : ∀ line ∈ rest, line.length ≤ length := fun _ hmem =>
      hlines _ (List.mem_cons_of_mem _ hmem)
    unfold Request.headerLines at hparsed
    split_ifs at hparsed
    · exact ih h hrest hparsed
    · split at hparsed
      · cases hparsed
      · rename_i name value hline
        have hname := length_le_of_headerLine hline
        have hlength := hlines line List.mem_cons_self
        exact ih (h.addHeader (by omega) value) hrest hparsed

theorem namesWithin_of_parse {head : Bytes} {request : Request} (h : parse head = .ok request) :
    NamesWithin head.length request.headers := by
  unfold parse at h
  cases hdecode : Utf8.decode head with
  | error fault => simp [hdecode] at h
  | ok text =>
    simp only [hdecode] at h
    split at h
    · cases h
    · cases hlines : Request.headerLines [] (Text.crlfLines text.toList).tail with
      | error error => simp [hlines, Except.map] at h
      | ok headers =>
        simp only [hlines, Except.map, Except.ok.injEq] at h
        subst h
        refine NamesWithin.headerLines (fun _ hmem => by cases hmem) ?_ hlines
        intro line hmem
        have hline := Text.length_le_of_mem_crlfLines (List.mem_of_mem_tail hmem)
        have htext := Utf8.length_le_of_decode hdecode
        omega

/-- A request with a header has at least as many bytes as the name of the header characters. -/
theorem length_le_of_header {head : Bytes} {request : Request} (h : parse head = .ok request)
    (hheader : request.header name = some value) : name.toList.length ≤ head.length := by
  obtain ⟨before, behind, hheaders, _⟩ := List.lookup_eq_some_iff.1 hheader
  have hmem : (String.ofList (Text.lowercaseAscii name.toList), value) ∈ request.headers := by
    rw [hheaders]
    exact List.mem_append_right _ List.mem_cons_self
  have hlength := namesWithin_of_parse h _ hmem
  simpa [Text.lowercaseAscii] using hlength

end WebSocket.Request

end FramedChannel
