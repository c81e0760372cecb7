import FramedChannel.Package.CursorReader
import FramedChannel.Proofs.Package.LineRoundTrip
import FramedChannel.Proofs.Sequence.Cursor

/-!
# Reading at a cursor is reading the bytes that are left

Decoders may read at a cursor that walks over the segments, or be given all
bytes that wait as one string.  This module shows that the two come to the same,
and that no walk accesses a segment that is not there.  What holds of packages
as pieces of the bytes therefore holds of decoders that read at a cursor.

* `Attempt.Walked` says what a walk owes to an attempt, and `Walks` that a
  decoder always keeps it.
* `cutAt_of_inPlace` is the search for a terminator; `walks_terminated`,
  `walks_line` and `walks_fixedSize` are the three decoders.
* `Walks.pass` is one pass, and `Walks.decode` and `Walks.feed` follow by
  induction on the passes and on the segments.
* `feedAt_terminated`, `feedAt_lines` and `feedAt_blocks` are the pieces that the
  three decoders hand out, and `feedAt_written` the lines that were written.
-/

namespace FramedChannel

variable {σ π : Type}

/-! ## What a walk owes -/

/-- A walk from a cursor comes to what an attempt did. -/
structure Attempt.Walked (a : Attempt σ π) (c : Cursor) (walked : Walk σ π) : Prop where
  state : walked.state = a.state
  result : walked.result = a.result
  replies : a.replies = []
  ahead : c.Ahead a.consumed walked.cursor

/-- The decoder reads at a cursor what it would read of the bytes that are left there. -/
def Walks [PackageDecoder σ π] (walk : σ → Cursor → Except Breach (Walk σ π)) : Prop :=
  ∀ (d : σ) {c : Cursor}, c.InPlace →
    ∃ walked, walk d c = .ok walked ∧ (PackageDecoder.attempt d c.bytes).Walked c walked

/-! ## The decoders -/

variable {c : Cursor}

/-- The search at a cursor cuts the bytes that are left where `Terminated.split` cuts them. -/
theorem Terminated.cutAt_of_inPlace (t : Terminated) (h : c.InPlace) :
    ∃ after, t.cutAt c = .ok ((t.split c.bytes).1, (t.split c.bytes).2.map Prod.fst, after) ∧
      c.Ahead (((t.split c.bytes).2.map Prod.snd).getD 0) after := by
  unfold cutAt split
  rw [Cursor.positionOf_of_inPlace h, Cursor.remaining_of_inPlace h]
  cases hfind : Bytes.find t.terminator c.bytes t.scanned with
  | none => exact ⟨c, rfl, .refl h⟩
  | some position =>
    have hwithin := Bytes.add_length_le_of_find hfind
    obtain ⟨middle, hread, hmiddle⟩ :=
      Cursor.readBytes_of_le h (Nat.le_trans (Nat.le_add_right _ _) hwithin)
    have hleft : t.terminator.length ≤ middle.bytes.length := by
      rw [hmiddle.bytes_eq h, List.length_drop]
      omega
    obtain ⟨after, hadvance, hafter⟩ := Cursor.advance_of_le hmiddle.inPlace hleft
    refine ⟨after, ?_, hmiddle.trans hafter⟩
    simp only [hread, hadvance, bind, Except.bind]
    rfl

theorem walks_terminated : Walks Terminated.walk := by
  intro t c h
  obtain ⟨after, hcut, hahead⟩ := t.cutAt_of_inPlace h
  refine ⟨⟨_, _, after⟩, by rw [Terminated.walk, hcut]; rfl, ?_⟩
  simp only [PackageDecoder.attempt]
  rcases hsplit : t.split c.bytes with ⟨behind, _ | ⟨package, used⟩⟩ <;> rw [hsplit] at hahead <;>
    exact ⟨rfl, rfl, rfl, hahead⟩

theorem walks_line : Walks LineDecoder.walk := by
  intro d c h
  obtain ⟨after, hcut, hahead⟩ := d.packages.cutAt_of_inPlace h
  simp only [LineDecoder.walk, hcut, PackageDecoder.attempt]
  rcases hsplit : d.packages.split c.bytes with ⟨behind, _ | ⟨line, used⟩⟩ <;>
    rw [hsplit] at hahead
  · exact ⟨_, rfl, rfl, rfl, rfl, hahead⟩
  · cases hdecode : Utf8.decode line <;> simp only [bind, Except.bind, Option.map_some, hdecode] <;>
      exact ⟨_, rfl, rfl, rfl, rfl, hahead⟩

theorem walks_fixedSize : Walks FixedSize.walk := by
  intro d c h
  simp only [FixedSize.walk, PackageDecoder.attempt]
  split
  · rename_i hfew
    rw [Cursor.readBytes_of_lt h hfew]
    exact ⟨_, rfl, rfl, rfl, rfl, .refl h⟩
  · rename_i hmany
    obtain ⟨after, hread, hahead⟩ := Cursor.readBytes_of_le h (Nat.not_lt.1 hmany)
    rw [hread]
    exact ⟨_, rfl, rfl, rfl, rfl, hahead⟩

/-! ## The passes -/

namespace Reassembly

variable [PackageDecoder σ π]

/-- Decodes segments as they arrive, up to the first error, with a decoder that reads at a
cursor. -/
def feedAt (walk : σ → Cursor → Except Breach (Walk σ π)) (r : Reassembly σ) :
    List Bytes → Except Breach (List (Item π) × Verdict × Reassembly σ)
  | [] => return ([], .waiting, r)
  | segment :: rest => do
    match ← (r.extend segment).decodeAt walk with
    | (items, .waiting, r) =>
      let (more, verdict, r) ← feedAt walk r rest
      return (items ++ more, verdict, r)
    | ended => return ended

end Reassembly

namespace Walks

variable [PackageDecoder σ π] {walk : σ → Cursor → Except Breach (Walk σ π)}

open Reassembly

/-- What the decoder does at a cursor in front of a sequence is its attempt on all bytes. -/
theorem attempt (h : Walks walk) (d : σ) (s : Sequence) :
    ∃ walked, walk d s.cursor = .ok walked ∧
      walked.attempt = PackageDecoder.attempt d s.bytes := by
  have hplace := Cursor.inPlace_cursor s
  have hbytes : s.cursor.bytes = s.bytes := Cursor.bytes_of_inPlace hplace
  obtain ⟨walked, hwalk, hwalked⟩ := h d hplace
  rw [hbytes] at hwalked
  refine ⟨walked, hwalk, ?_⟩
  have hconsumed : walked.cursor.consumed = (PackageDecoder.attempt d s.bytes).consumed :=
    hwalked.ahead.consumed_eq.trans (Nat.zero_add _)
  rw [Walk.attempt, hwalked.state, hconsumed, hwalked.result, ← hwalked.replies]

theorem pass (h : Walks walk) (r : Reassembly σ) : r.passAt walk = .ok r.pass := by
  obtain ⟨walked, hwalk, hattempt⟩ := h.attempt r.decoder r.pending
  rw [passAt, hwalk, Reassembly.pass, ← hattempt]
  rfl

theorem passes (h : Walks walk) (count : Nat) (r : Reassembly σ) :
    passesAt walk count r = .ok (Reassembly.passes count r) := by
  induction count generalizing r with
  | zero => rfl
  | succ count ih =>
    rw [passesAt, h.pass, Reassembly.passes]
    rcases r.pass with ⟨items, _ | _ | error, s⟩
    · simp only [bind, Except.bind, ih]
      rfl
    · rfl
    · rfl

theorem decode (h : Walks walk) (r : Reassembly σ) : r.decodeAt walk = .ok r.decode :=
  h.passes _ r

/-- A reassembly whose decoder reads at a cursor decodes any segments to the same end as one whose
decoder is given the bytes. -/
theorem feed (h : Walks walk) (r : Reassembly σ) (segments : List Bytes) :
    r.feedAt walk segments = .ok (r.feed segments) := by
  induction segments generalizing r with
  | nil => rfl
  | cons segment rest ih =>
    rw [feedAt, h.decode, Reassembly.feed]
    rcases (r.extend segment).decode with ⟨items, _ | _ | error, s⟩
    · rfl
    · simp only [bind, Except.bind, ih]
      rfl
    · rfl

end Walks

/-! ## Pieces of the bytes -/

section Pieces

open Reassembly

variable (limit : Nat) (segments : List Bytes)

/-- A decoder that searches the segments hands out the pieces between the terminators. -/
theorem feedAt_terminated {terminator : Bytes} (hne : terminator ≠ []) :
    ∃ t outcome, Terminated.of terminator = .ok t ∧
      (Reassembly.of t limit).feedAt Terminated.walk segments = .ok outcome ∧
      Split limit (accept limit terminator.length some)
        (Bytes.pieces terminator segments.flatten).1 (Bytes.pieces terminator segments.flatten).2
        outcome := by
  obtain ⟨t, hof, hsplit⟩ := Terminated.feed_split limit segments hne
  exact ⟨t, _, hof, walks_terminated.feed _ _, hsplit⟩

theorem feedAt_lines :
    ∃ outcome, (Reassembly.of ({} : LineDecoder) limit).feedAt LineDecoder.walk segments =
        .ok outcome ∧
      Split limit (accept limit crlf.length fun piece => (Utf8.decode piece).toOption)
        (Bytes.pieces crlf segments.flatten).1 (Bytes.pieces crlf segments.flatten).2 outcome :=
  ⟨_, walks_line.feed _ _, LineDecoder.feed_split limit segments⟩

theorem feedAt_blocks {size : Nat} (hpos : 0 < size) :
    ∃ d outcome, FixedSize.of size = .ok d ∧
      (Reassembly.of d limit).feedAt FixedSize.walk segments = .ok outcome ∧
      Split limit (accept limit 0 some) (Bytes.blocks size segments.flatten)
        (Bytes.restOfBlocks size segments.flatten) outcome := by
  obtain ⟨d, hof, hsplit⟩ := FixedSize.feed_split limit segments hpos
  exact ⟨d, _, hof, walks_fixedSize.feed _ _, hsplit⟩

/-- Written lines come back from a decoder that searches the segments. -/
theorem feedAt_written {lines : List String}
    (hlines : ∀ line ∈ lines, ¬ ['\r', '\n'] <:+: line.toList)
    (hcut : segments.flatten = (({} : LineEncoder).encodeAll [] lines).1) :
    ∃ outcome, (Reassembly.of ({} : LineDecoder) 0).feedAt LineDecoder.walk segments =
        .ok outcome ∧ AllRead lines outcome :=
  ⟨_, walks_line.feed _ _, LineDecoder.feed_lines hlines hcut⟩

end Pieces

end FramedChannel
