import FramedChannel.Proofs.Package.Splitting

/-!
# Lines there and back

A line is known by its terminator, which therefore must not come earlier.

* `EndsFirst` are the lines for which it does not, also not across the end of
  the line.  `endsFirst_crlf_iff` says that for CR LF these are the lines
  without one inside.
* `pieces_lines` cuts written lines apart again, and `lines_come_back` reads
  them from any segments.
-/

namespace FramedChannel

/-! ## Writing -/

namespace LineEncoder

theorem encode_eq (encoder : LineEncoder) (buffer : Bytes) (line : String) :
    encoder.encode buffer line =
      (buffer ++ encodeLine encoder.terminator line,
        (encodeLine encoder.terminator line).length) := by
  rw [encode, encodeLine, List.append_assoc, List.length_append]

/-- Each call appends its line to what the calls before it wrote, and counts what it appends. -/
theorem encodeAll_eq (encoder : LineEncoder) (buffer : Bytes) (lines : List String) :
    encoder.encodeAll buffer lines =
      (buffer ++ lines.flatMap (encodeLine encoder.terminator),
        lines.map fun line => (encodeLine encoder.terminator line).length) := by
  induction lines generalizing buffer with
  | nil => rw [encodeAll, List.flatMap_nil, List.append_nil, List.map_nil]
  | cons line rest ih =>
    rw [encodeAll, encode_eq]
    dsimp only
    rw [ih, List.flatMap_cons, List.map_cons, List.append_assoc]

end LineEncoder

/-! ## Lines that can be read back -/

/-- Behind the line, its terminator occurs for the first time. -/
def EndsFirst (terminator : Bytes) (line : String) : Prop :=
  ∀ i < (Utf8.encode line).length, ¬ terminator <+: (encodeLine terminator line).drop i

instance (terminator : Bytes) (line : String) : Decidable (EndsFirst terminator line) :=
  inferInstanceAs (Decidable (∀ i < _, _))

variable {terminator : Bytes} {line : String} {lines : List String}

/-- The first occurrence divides the line from what was written behind it. -/
theorem EndsFirst.divide (h : EndsFirst terminator line) (hne : terminator ≠ []) (behind : Bytes) :
    Bytes.divide? terminator (encodeLine terminator line ++ behind) =
      some (Utf8.encode line, behind) := by
  have hfind : Bytes.find terminator (encodeLine terminator line) 0 =
      some (Utf8.encode line).length := by
    refine (Bytes.find_eq_some_iff hne).2 ⟨Nat.zero_le _, ?_, fun i _ hlt => h i hlt⟩
    simp only [encodeLine, List.drop_left, List.prefix_rfl]
  have hlater := Bytes.find_append_of_eq_some hne hfind behind
  rw [Bytes.find_eq_divide? hne] at hlater
  obtain ⟨⟨front, back⟩, hdivide, hlength⟩ := Option.map_eq_some_iff.1 hlater
  have hbytes := Bytes.eq_of_divide? hdivide
  rw [encodeLine, List.append_assoc] at hbytes
  obtain ⟨rfl, hrest⟩ := List.append_inj hbytes hlength.symm
  rw [hdivide, List.append_cancel_left hrest]

/-- Written lines are cut into themselves, and nothing is left. -/
theorem pieces_lines (hne : terminator ≠ []) (h : ∀ line ∈ lines, EndsFirst terminator line) :
    Bytes.pieces terminator (lines.flatMap (encodeLine terminator)) =
      (lines.map Utf8.encode, []) := by
  induction lines with
  | nil => exact Bytes.pieces_of_none rfl
  | cons line rest ih =>
    rw [List.forall_mem_cons] at h
    rw [List.flatMap_cons, Bytes.pieces_of_some hne (h.1.divide hne _), ih h.2, List.map_cons]

/-! ## CR LF -/

/-- CR LF does not begin with the last byte in front of another one, since it does not begin with
LF. -/
theorem crlf_prefix_of_append {bytes : Bytes} (hne : bytes ≠ [])
    (h : crlf <+: bytes ++ crlf) : crlf <+: bytes := by
  match bytes with
  | [] => exact absurd rfl hne
  | [byte] =>
    obtain ⟨-, hsecond⟩ := List.cons_prefix_cons.1 h
    exact absurd (List.cons_prefix_cons.1 hsecond).1 (by decide)
  | first :: second :: rest =>
    obtain ⟨rfl, hsecond⟩ := List.cons_prefix_cons.1 h
    obtain ⟨rfl, -⟩ := List.cons_prefix_cons.1 hsecond
    exact List.prefix_append crlf rest

theorem endsFirst_crlf_iff_bytes : EndsFirst crlf line ↔ ¬ crlf <:+: Utf8.encode line := by
  constructor
  · rintro h ⟨front, behind, hline⟩
    rw [List.append_assoc] at hline
    refine h front.length ?_ ?_
    · rw [← hline, List.length_append, List.length_append]
      exact Nat.lt_add_of_pos_right (Nat.lt_of_lt_of_le (by decide) (Nat.le_add_right _ _))
    · rw [encodeLine, ← hline, List.append_assoc, List.drop_left, List.append_assoc]
      exact List.prefix_append _ _
  · intro h i hlt hprefix
    rw [encodeLine, List.drop_append_of_le_length (Nat.le_of_lt hlt)] at hprefix
    have hne : (Utf8.encode line).drop i ≠ [] := List.drop_eq_nil_iff.not.2 (Nat.not_le.2 hlt)
    exact h ((crlf_prefix_of_append hne hprefix).isInfix.trans (List.drop_suffix i _).isInfix)

/-- The bytes of a text have CR LF inside where the text has. -/
theorem infix_encode_iff : crlf <:+: Utf8.encode line ↔ ['\r', '\n'] <:+: line.toList := by
  have hmark : ['\r', '\n'].flatMap String.utf8EncodeChar = crlf := by decide
  have hascii : ∀ c ∈ ['\r', '\n'], c.val.toNat < 0x80 :=
    List.forall_mem_cons.2 ⟨by decide, List.forall_mem_singleton.2 (by decide)⟩
  constructor
  · intro h
    obtain ⟨back, hprefix, hsuffix⟩ := List.infix_iff_prefix_suffix.1 h
    obtain ⟨front, hbytes⟩ := hsuffix
    have hdrop : back = (Utf8.encode line).drop front.length := by
      rw [← hbytes, List.drop_left]
    rw [hdrop, ← hmark] at hprefix
    obtain ⟨k, -, hinside⟩ := Utf8.prefix_drop_of_encode hascii (List.cons_ne_nil _ _) hprefix
    exact hinside.isInfix.trans (List.drop_suffix k _).isInfix
  · rintro ⟨front, behind, hline⟩
    refine ⟨front.flatMap String.utf8EncodeChar, behind.flatMap String.utf8EncodeChar, ?_⟩
    rw [Utf8.encode, ← hline, List.flatMap_append, List.flatMap_append, hmark]

/-- A line ends at the first CR LF if it has none inside. -/
theorem endsFirst_crlf_iff : EndsFirst crlf line ↔ ¬ ['\r', '\n'] <:+: line.toList := by
  rw [endsFirst_crlf_iff_bytes, infix_encode_iff]

/-! ## Reading -/

open Reassembly

variable {σ π : Type}

/-- All bytes were read, and these are the packages in them. -/
structure AllRead (packages : List π) (outcome : List (Item π) × Verdict × Reassembly σ) :
    Prop where
  packages : packagesOf outcome.1 = packages
  waiting : outcome.2.1 = .waiting
  nothing_left : outcome.2.2.pending.bytes = []

/-- Without a limit, written packages that can be read are all read. -/
theorem Split.allRead {α : Type} {written : List α} {write : α → Bytes} {read : α → π}
    {make : Bytes → Option π} {width : Nat} {outcome : List (Item π) × Verdict × Reassembly σ}
    (h : Split 0 (accept 0 width make) (written.map write) [] outcome)
    (hread : ∀ package, make (write package) = some (read package)) :
    AllRead (written.map read) outcome := by
  have hmade : ∀ package, accept 0 width make (write package) = some (read package) := by
    intro package
    rw [accept, if_pos (.inl rfl), hread]
  have hall : ∀ piece ∈ written.map write, (accept 0 width make piece).isSome := by
    rw [List.forall_mem_map]
    intro package _
    rw [hmade]
    rfl
  obtain ⟨hwaiting, hleft⟩ := h.waiting hall (.inl rfl)
  refine ⟨?_, hwaiting, hleft⟩
  rw [h.packages, List.takeWhile_eq_self_iff.2 hall, List.filterMap_map, ← List.filterMap_eq_map]
  exact List.filterMap_congr fun package _ => hmade package

variable {segments : List Bytes}

/-- Lines whose terminator comes first at their end are read from any segments. -/
theorem Terminated.feed_lines (hne : terminator ≠ [])
    (hends : ∀ line ∈ lines, EndsFirst terminator line)
    (hcut : segments.flatten = ((LineEncoder.mk terminator).encodeAll [] lines).1) :
    ∃ t, Terminated.of terminator = .ok t ∧
      AllRead (lines.map Utf8.encode) ((Reassembly.of t 0).feed segments) := by
  rw [LineEncoder.encodeAll_eq, List.nil_append] at hcut
  obtain ⟨t, hof, hsplit⟩ := Terminated.feed_split 0 segments hne
  rw [hcut, pieces_lines hne hends] at hsplit
  exact ⟨t, hof, hsplit.allRead fun _ => rfl⟩

/-- Lines without CR LF are read as text from any segments. -/
theorem LineDecoder.feed_lines (hlines : ∀ line ∈ lines, ¬ ['\r', '\n'] <:+: line.toList)
    (hcut : segments.flatten = (({} : LineEncoder).encodeAll [] lines).1) :
    AllRead lines ((Reassembly.of ({} : LineDecoder) 0).feed segments) := by
  have hne : crlf ≠ [] := List.cons_ne_nil _ _
  have hends : ∀ line ∈ lines, EndsFirst crlf line :=
    fun line hin => endsFirst_crlf_iff.2 (hlines line hin)
  have hbytes : segments.flatten = lines.flatMap (encodeLine crlf) := by
    rw [hcut, LineEncoder.encodeAll_eq]
    rfl
  have hsplit := LineDecoder.feed_split 0 segments
  rw [hbytes, pieces_lines hne hends] at hsplit
  have hread : ∀ line, (Utf8.decode (Utf8.encode line)).toOption = some (id line) := by
    intro line
    rw [Utf8.decode_encode]
    rfl
  have hall := hsplit.allRead hread
  rw [List.map_id] at hall
  exact hall

/-- Lines that were written one behind the other come back from any segments, if each ends at its
first terminator.  If the terminator is CR LF, these are the lines without one. -/
theorem lines_come_back :
    (∀ (encoder : LineEncoder) (buffer : Bytes) (line : String),
      encoder.encode buffer line =
        (buffer ++ encodeLine encoder.terminator line,
          (encodeLine encoder.terminator line).length)) ∧
      (∀ terminator : Bytes, terminator ≠ [] → ∀ lines : List String,
        (∀ line ∈ lines, EndsFirst terminator line) →
        ∀ segments : List Bytes,
          segments.flatten = ((LineEncoder.mk terminator).encodeAll [] lines).1 →
          ∃ t, Terminated.of terminator = .ok t ∧
            AllRead (lines.map Utf8.encode) ((Reassembly.of t 0).feed segments)) ∧
      (∀ line : String, EndsFirst crlf line ↔ ¬ ['\r', '\n'] <:+: line.toList) ∧
      ∀ lines : List String, (∀ line ∈ lines, ¬ ['\r', '\n'] <:+: line.toList) →
        ∀ segments : List Bytes,
          segments.flatten = (({} : LineEncoder).encodeAll [] lines).1 →
          AllRead lines ((Reassembly.of ({} : LineDecoder) 0).feed segments) := by
  refine ⟨LineEncoder.encode_eq, ?terminated, fun _ => endsFirst_crlf_iff, ?lines⟩
  case terminated =>
    intro terminator hne lines hends segments hcut
    exact Terminated.feed_lines hne hends hcut
  case lines =>
    intro lines hlines segments hcut
    exact LineDecoder.feed_lines hlines hcut

/-- A terminator that overlaps itself, and a line that ends in CR, cut inside of the terminators. -/
theorem lines_come_back_straddled :
    (([0x61, 0x62, 0x61] : Bytes) ≠ [] ∧ (∀ line ∈ ["b", ""], EndsFirst [0x61, 0x62, 0x61] line) ∧
      ∃ t, Terminated.of [0x61, 0x62, 0x61] = .ok t ∧
        AllRead [[0x62], []]
          ((Reassembly.of t 0).feed [[0x62, 0x61, 0x62], [0x61, 0x61], [0x62, 0x61]])) ∧
      (∀ line ∈ ["a\r", ""], ¬ ['\r', '\n'] <:+: line.toList) ∧
      AllRead ["a\r", ""]
        ((Reassembly.of ({} : LineDecoder) 0).feed
          [[0x61, 0x0D], [0x0D], [0x0A, 0x0D], [0x0A]]) := by
  have hends : ∀ line ∈ ["b", ""], EndsFirst [0x61, 0x62, 0x61] line := by
    rw [List.forall_mem_cons, List.forall_mem_singleton]
    decide
  have hlines : ∀ line ∈ ["a\r", ""], ¬ ['\r', '\n'] <:+: line.toList := by
    rw [List.forall_mem_cons, List.forall_mem_singleton]
    decide
  obtain ⟨-, hterminated, -, hcrlf⟩ := lines_come_back
  exact ⟨⟨by decide, hends, hterminated _ (by decide) _ hends _ (by decide)⟩, hlines,
    hcrlf _ hlines _ (by decide)⟩

end FramedChannel
