import FramedChannel.Proofs.Sequence.Cursor

/-!
# Sequences are byte strings

Whatever is asked of a sequence, the answers are those of the plain byte string
that it stands for, wherever that was cut into segments.

* `follow` makes calls one after another.  It gives their answers, or the promise
  that the caller broke, and `follow_agrees` carries an agreement of single calls
  to scripts.
* `Cursor.Call` and `Sequence.Call` are all calls.
* `Flat` is a reader of a plain byte string.  Nothing in `Flat.answer` and
  `Flat.respond` knows of segments.
* `Cursor.answer_agrees` and `Sequence.answer_agrees` are one call, and
  `follow_eq_flat` is the result.
-/

namespace FramedChannel

/-! ## Scripts -/

section Scripts

variable {α γ δ κ : Type}

/-- The answers to some calls, one after another, and the state behind them. -/
def follow (answer : γ → κ → Except Breach (α × γ)) (state : γ) :
    List κ → Except Breach (List α × γ)
  | [] => .ok ([], state)
  | call :: rest => do
    let (first, state) ← answer state call
    let (others, state) ← follow answer state rest
    .ok (first :: others, state)

/-- Two results are the same to who sees a valid state through a view: the same answer, or the same
promise that the caller broke, which is never that of a segment that is not there. -/
inductive Agrees (Valid : γ → Prop) (view : γ → δ) :
    Except Breach (α × γ) → Except Breach (α × δ) → Prop where
  | answered (answer : α) {state : γ} (h : Valid state) :
      Agrees Valid view (.ok (answer, state)) (.ok (answer, view state))
  | refused {breach : Breach} (h : breach ≠ .noSuchSegment) :
      Agrees Valid view (.error breach) (.error breach)

variable {Valid : γ → Prop} {view : γ → δ}

theorem Agrees.map_eq {mine : Except Breach (α × γ)} {plain : Except Breach (α × δ)}
    (h : Agrees Valid view mine plain) :
    (mine.map fun (answer, state) => (answer, view state)) = plain := by
  cases h <;> rfl

theorem Agrees.ne_noSuchSegment {mine : Except Breach (α × γ)} {plain : Except Breach (α × δ)}
    (h : Agrees Valid view mine plain) : mine ≠ .error .noSuchSegment := by
  cases h with
  | answered answer h => exact fun habsurd => by cases habsurd
  | refused hbreach => exact fun hsame => hbreach (Except.error.inj hsame)

/-- What agrees in single calls agrees in scripts. -/
theorem follow_agrees {mine : γ → κ → Except Breach (α × γ)}
    {plain : δ → κ → Except Breach (α × δ)}
    (hcalls : ∀ state, Valid state → ∀ call,
      Agrees Valid view (mine state call) (plain (view state) call))
    (state : γ) (h : Valid state) (script : List κ) :
    Agrees Valid view (follow mine state script) (follow plain (view state) script) := by
  induction script generalizing state with
  | nil => exact .answered [] h
  | cons call rest ih =>
    have hcall := hcalls state h call
    rw [follow, follow]
    generalize mine state call = first at hcall
    generalize plain (view state) call = first' at hcall
    cases hcall with
    | refused hbreach => exact .refused hbreach
    | @answered answer after hafter =>
      have hrest := ih after hafter
      simp only [bind, Except.bind]
      generalize follow mine after rest = others at hrest
      generalize follow plain (view after) rest = others' at hrest
      cases hrest with
      | refused hbreach => exact .refused hbreach
      | answered answers hlast => exact .answered (answer :: answers) hlast

end Scripts

/-! ## Calls -/

/-- A call on a cursor. -/
inductive Cursor.Call where
  | advance (count : Nat)
  | rewind (count : Nat)
  | peek
  | peekInto (count : Nat)
  | readByte
  /-- A big-endian number of so many bytes is read. -/
  | readNumber (width : Nat)
  | readBytes (count : Nat)
  | positionOf (delimiter : Bytes) (start : Nat)
  | bytes
  | consumed
  | remaining
  | length
  | isEnd
  deriving DecidableEq, Repr

/-- The answer to a call on a cursor. -/
inductive Cursor.Answer where
  | moved
  | byte (byte : Option UInt8)
  | bytes (bytes : Option Bytes)
  | number (number : Option Nat)
  | flag (flag : Bool)
  deriving DecidableEq, Repr

/-- The answer of a cursor, and the cursor behind the call. -/
def Cursor.answer (c : Cursor) : Cursor.Call → Except Breach (Cursor.Answer × Cursor)
  | .advance count => (c.advance count).map fun after => (.moved, after)
  | .rewind count => (c.rewind count).map fun after => (.moved, after)
  | .peek => .ok (.byte c.peek, c)
  | .peekInto count => (c.peekInto count).map fun bytes => (.bytes bytes, c)
  | .readByte => c.readByte.map fun (byte, after) => (.byte byte, after)
  | .readNumber width => (c.readNumber width).map fun (number, after) => (.number number, after)
  | .readBytes count => (c.readBytes count).map fun (bytes, after) => (.bytes bytes, after)
  | .positionOf delimiter start => .ok (.number (c.positionOf delimiter start), c)
  | .bytes => .ok (.bytes (some c.bytes), c)
  | .consumed => .ok (.number (some c.consumed), c)
  | .remaining => .ok (.number (some c.remaining), c)
  | .length => .ok (.number (some c.length), c)
  | .isEnd => .ok (.flag c.isEnd, c)

/-- A call on a sequence. -/
inductive Sequence.Call where
  | push (segment : Bytes)
  | advance (count : Nat)
  | clear
  | length
  | isEmpty
  | slice (start count : Nat)
  | decodeText (start count : Nat)
  /-- A new cursor follows a script. -/
  | read (script : List Cursor.Call)
  deriving DecidableEq, Repr

/-- The answer to a call on a sequence. -/
inductive Sequence.Answer where
  | done
  | number (number : Nat)
  | flag (flag : Bool)
  | bytes (bytes : Option Bytes)
  | text (text : Except Error String)
  | read (answers : List Cursor.Answer)

/-- The answer of a sequence, and the sequence behind the call. -/
def Sequence.answer (s : Sequence) : Sequence.Call → Except Breach (Sequence.Answer × Sequence)
  | .push segment => .ok (.done, s.push segment)
  | .advance count => (s.advance count).map fun after => (.done, after)
  | .clear => .ok (.done, s.clear)
  | .length => .ok (.number s.length, s)
  | .isEmpty => .ok (.flag s.isEmpty, s)
  | .slice start count => (s.slice start count).map fun bytes => (.bytes bytes, s)
  | .decodeText start count => (s.decodeText start count).map fun text => (.text text, s)
  | .read script =>
    (follow Cursor.answer s.cursor script).map fun (answers, _) => (.read answers, s)

/-! ## Plain byte strings -/

/-- A byte string, and how many of its bytes a reader has passed. -/
structure Flat where
  bytes : Bytes
  passed : Nat := 0

namespace Flat

/-- The bytes that are left. -/
def left (f : Flat) : Bytes :=
  f.bytes.drop f.passed

/-- The next bytes, if there are as many. -/
def take? (f : Flat) (count : Nat) : Option Bytes :=
  if count ≤ f.left.length then some (f.left.take count) else none

/-- The reader behind so many more bytes. -/
def skip (f : Flat) (count : Nat) : Flat :=
  { f with passed := f.passed + count }

/-- The smallest offset, not below `start`, at which the delimiter stands.  An empty one stands
nowhere. -/
def firstAt (delimiter bytes : Bytes) (start : Nat) : Option Nat :=
  if delimiter = [] then none
  else
    (List.range bytes.length).find? fun offset =>
      start ≤ offset && delimiter.isPrefixOf (bytes.drop offset)

/-- The answer of a reader, and the reader behind the call.  A read for which too few bytes are left
has no result and moves nothing. -/
def answer (f : Flat) : Cursor.Call → Except Breach (Cursor.Answer × Flat)
  | .advance count =>
    if count ≤ f.left.length then .ok (.moved, f.skip count) else .error .advancePastCursor
  | .rewind count =>
    if count ≤ f.passed then .ok (.moved, { f with passed := f.passed - count })
    else .error .rewindPastStart
  | .peek => .ok (.byte f.left.head?, f)
  | .peekInto count => .ok (.bytes (f.take? count), f)
  | .readByte =>
    match f.left with
    | [] => .ok (.byte none, f)
    | byte :: _ => .ok (.byte (some byte), f.skip 1)
  | .readNumber width =>
    match f.take? width with
    | none => .ok (.number none, f)
    | some bytes => .ok (.number (some (Bytes.toNat bytes)), f.skip width)
  | .readBytes count =>
    match f.take? count with
    | none => .ok (.bytes none, f)
    | some bytes => .ok (.bytes (some bytes), f.skip count)
  | .positionOf delimiter start => .ok (.number (firstAt delimiter f.left start), f)
  | .bytes => .ok (.bytes (some f.left), f)
  | .consumed => .ok (.number (some f.passed), f)
  | .remaining => .ok (.number (some f.left.length), f)
  | .length => .ok (.number (some f.bytes.length), f)
  | .isEnd => .ok (.flag f.left.isEmpty, f)

/-- The bytes of a range, if it is all there. -/
def slice? (bytes : Bytes) (start count : Nat) : Option Bytes :=
  if start + count ≤ bytes.length then some ((bytes.drop start).take count) else none

/-- The text of a range. -/
def text (bytes : Bytes) (start count : Nat) : Except Error String :=
  match slice? bytes start count with
  | none => .error (.protocol .rangePastEnd)
  | some range => (Utf8.decode range).mapError fun fault => .protocol (.rangeNotText fault)

/-- The answer of a byte string, and the byte string behind the call. -/
def respond (bytes : Bytes) : Sequence.Call → Except Breach (Sequence.Answer × Bytes)
  | .push segment => .ok (.done, bytes ++ segment)
  | .advance count =>
    if count ≤ bytes.length then .ok (.done, bytes.drop count) else .error .advancePastSequence
  | .clear => .ok (.done, [])
  | .length => .ok (.number bytes.length, bytes)
  | .isEmpty => .ok (.flag bytes.isEmpty, bytes)
  | .slice start count => .ok (.bytes (slice? bytes start count), bytes)
  | .decodeText start count => .ok (.text (text bytes start count), bytes)
  | .read script =>
    (follow answer { bytes } script).map fun (answers, _) => (.read answers, bytes)

theorem take?_of_le {f : Flat} {count : Nat} (h : count ≤ f.left.length) :
    f.take? count = some (f.left.take count) :=
  if_pos h

theorem take?_of_lt {f : Flat} {count : Nat} (h : f.left.length < count) : f.take? count = none :=
  if_neg (Nat.not_le.2 h)

/-- The first occurrence is the smallest offset at which the delimiter stands. -/
theorem find_eq_firstAt (delimiter bytes : Bytes) (start : Nat) :
    Bytes.find delimiter bytes start = firstAt delimiter bytes start := by
  by_cases hempty : delimiter = []
  · subst hempty
    rfl
  · rw [firstAt, if_neg hempty]
    cases hfind : Bytes.find delimiter bytes start with
    | none =>
      rw [Bytes.find_eq_none_iff hempty] at hfind
      symm
      rw [List.find?_eq_none]
      intro offset _ hhit
      rw [Bool.and_eq_true, decide_eq_true_eq, List.isPrefixOf_iff_prefix] at hhit
      exact hfind offset hhit.1 hhit.2
    | some position =>
      obtain ⟨hle, hat, hfirst⟩ := (Bytes.find_eq_some_iff hempty).1 hfind
      have hin := Bytes.add_length_le_of_prefix_drop hat hempty
      have hwidth : 0 < delimiter.length := List.length_pos_iff.2 hempty
      symm
      rw [List.find?_range_eq_some]
      refine ⟨?_, List.mem_range.2 (by omega), ?_⟩
      · rw [Bool.and_eq_true, decide_eq_true_eq, List.isPrefixOf_iff_prefix]
        exact ⟨hle, hat⟩
      · intro offset hlt
        rw [Bool.not_eq_true', Bool.and_eq_false_iff, decide_eq_false_iff_not]
        by_cases hstart : start ≤ offset
        · right
          rw [← Bool.not_eq_true, List.isPrefixOf_iff_prefix]
          exact hfirst offset hstart hlt
        · exact .inl hstart

end Flat

/-! ## Cursors -/

/-- What a reader of the plain byte string would be in the place of a cursor. -/
def Cursor.flat (c : Cursor) : Flat :=
  { bytes := c.sequence.bytes, passed := c.consumed }

namespace Cursor

variable {c after : Cursor} {count : Nat}

theorem left_flat (h : c.InPlace) : c.flat.left = c.bytes :=
  (bytes_of_inPlace h).symm

theorem Ahead.flat_eq (h : c.Ahead count after) : after.flat = c.flat.skip count := by
  rw [flat, flat, Flat.skip, h.sequence_eq, h.consumed_eq]

/-- An answer that moves the cursor. -/
theorem Ahead.agrees (h : c.Ahead count after) (answer : Answer) :
    Agrees InPlace flat (.ok (answer, after)) (.ok (answer, c.flat.skip count)) := by
  rw [← h.flat_eq]
  exact .answered answer h.inPlace

theorem answer_agrees (h : c.InPlace) (call : Call) :
    Agrees InPlace flat (c.answer call) (c.flat.answer call) := by
  have hleft := left_flat h
  cases call with
  | advance count =>
    simp only [answer, Flat.answer, hleft]
    by_cases hcount : count ≤ c.bytes.length
    · obtain ⟨after, hadvance, hahead⟩ := advance_of_le h hcount
      rw [hadvance, if_pos hcount]
      exact hahead.agrees Answer.moved
    · rw [advance_of_lt h (Nat.not_le.1 hcount), if_neg hcount]
      exact .refused Breach.noConfusion
  | rewind count =>
    simp only [answer, Flat.answer]
    by_cases hcount : count ≤ c.consumed
    · obtain ⟨after, hrewind, hplace, hsequence, hconsumed⟩ := rewind_of_le h hcount
      have hflat : after.flat = { c.flat with passed := c.flat.passed - count } := by
        rw [flat, hsequence, hconsumed]
        rfl
      rw [hrewind, if_pos (show count ≤ c.flat.passed from hcount), ← hflat]
      exact .answered Answer.moved hplace
    · rw [rewind, if_neg hcount, if_neg (show ¬ count ≤ c.flat.passed from hcount)]
      exact .refused Breach.noConfusion
  | peek =>
    simp only [answer, Flat.answer, hleft, peek_of_inPlace h]
    exact .answered _ h
  | peekInto count =>
    simp only [answer, Flat.answer, Flat.take?, hleft, peekInto_of_inPlace h]
    exact .answered _ h
  | readByte =>
    simp only [answer, Flat.answer, hleft]
    cases hbytes : c.bytes with
    | nil =>
      rw [readByte_of_nil h hbytes]
      exact .answered _ h
    | cons byte later =>
      obtain ⟨after, hread, hahead⟩ := readByte_of_cons h hbytes
      rw [hread]
      exact hahead.agrees (Answer.byte (some byte))
  | readNumber width =>
    simp only [answer, Flat.answer]
    by_cases hcount : width ≤ c.bytes.length
    · obtain ⟨after, hread, hahead⟩ := readNumber_of_le h hcount
      rw [hread, Flat.take?_of_le (by rwa [hleft]), hleft]
      exact hahead.agrees (Answer.number (some _))
    · rw [readNumber_of_lt h (Nat.not_le.1 hcount), Flat.take?_of_lt (by rw [hleft]; omega)]
      exact .answered _ h
  | readBytes count =>
    simp only [answer, Flat.answer]
    by_cases hcount : count ≤ c.bytes.length
    · obtain ⟨after, hread, hahead⟩ := readBytes_of_le h hcount
      rw [hread, Flat.take?_of_le (by rwa [hleft]), hleft]
      exact hahead.agrees (Answer.bytes (some _))
    · rw [readBytes_of_lt h (Nat.not_le.1 hcount), Flat.take?_of_lt (by rw [hleft]; omega)]
      exact .answered _ h
  | positionOf delimiter start =>
    simp only [answer, Flat.answer, hleft, positionOf_of_inPlace h, Flat.find_eq_firstAt]
    exact .answered _ h
  | bytes =>
    simp only [answer, Flat.answer, hleft]
    exact .answered _ h
  | consumed => exact .answered _ h
  | remaining =>
    simp only [answer, Flat.answer, hleft, remaining_of_inPlace h]
    exact .answered _ h
  | length =>
    simp only [answer, Flat.answer, length, flat, Sequence.length_bytes]
    exact .answered _ h
  | isEnd =>
    simp only [answer, Flat.answer, hleft, isEnd, remaining_of_inPlace h]
    cases c.bytes <;> exact .answered _ h

end Cursor

/-! ## Sequences -/

namespace Sequence

variable (s : Sequence)

/-- A range is read by a cursor that was moved to its start. -/
theorem slice_eq (start count : Nat) :
    s.slice start count = .ok (Flat.slice? s.bytes start count) := by
  have hfresh := Cursor.inPlace_cursor s
  have hbytes : s.cursor.bytes = s.bytes := Cursor.bytes_of_inPlace hfresh
  rw [slice, Flat.slice?, length_bytes]
  by_cases hstart : start ≤ s.length
  · rw [if_neg (Nat.not_lt.2 hstart)]
    have hin : start ≤ s.cursor.bytes.length := by
      rw [hbytes, length_bytes]
      exact hstart
    obtain ⟨after, hadvance, hahead⟩ := Cursor.advance_of_le hfresh hin
    have hleft : after.bytes = s.bytes.drop start := by
      rw [Cursor.bytes_of_inPlace hahead.inPlace, hahead.sequence_eq, hahead.consumed_eq]
      exact congrArg (s.bytes.drop ·) (Nat.zero_add start)
    have hlength : after.bytes.length = s.length - start := by
      rw [hleft, List.length_drop, length_bytes]
    simp only [hadvance, bind, Except.bind]
    by_cases hcount : start + count ≤ s.length
    · have hthere : count ≤ after.bytes.length := by omega
      obtain ⟨behind, hread, -⟩ := Cursor.readBytes_of_le hahead.inPlace hthere
      rw [hread, if_pos hcount, hleft]
    · rw [Cursor.readBytes_of_lt hahead.inPlace (by omega), if_neg hcount]
  · rw [if_pos (Nat.not_le.1 hstart), if_neg (by omega)]

theorem decodeText_eq (start count : Nat) :
    s.decodeText start count = .ok (Flat.text s.bytes start count) := by
  rw [decodeText, slice_eq, Flat.text]
  simp only [bind, Except.bind]
  cases Flat.slice? s.bytes start count <;> rfl

theorem answer_agrees (call : Call) :
    Agrees (fun _ => True) bytes (s.answer call) (Flat.respond s.bytes call) := by
  cases call with
  | push segment =>
    rw [answer, Flat.respond, ← bytes_push]
    exact .answered Answer.done trivial
  | advance count =>
    rw [answer, Flat.respond, advance, length_bytes, ← bytes_discard]
    by_cases hcount : count ≤ s.length
    · rw [if_pos hcount, if_pos hcount]
      exact .answered Answer.done trivial
    · rw [if_neg hcount, if_neg hcount]
      exact .refused Breach.noConfusion
  | clear =>
    rw [answer, Flat.respond, ← s.bytes_clear]
    exact .answered Answer.done trivial
  | length =>
    rw [answer, Flat.respond, length_bytes]
    exact .answered (Answer.number s.length) trivial
  | isEmpty =>
    have hempty : s.isEmpty = s.bytes.isEmpty := by
      rw [isEmpty, ← length_bytes]
      cases s.bytes <;> rfl
    rw [answer, Flat.respond, hempty]
    exact .answered (Answer.flag s.bytes.isEmpty) trivial
  | slice start count =>
    rw [answer, slice_eq]
    exact .answered (Answer.bytes _) trivial
  | decodeText start count =>
    rw [answer, decodeText_eq]
    exact .answered (Answer.text _) trivial
  | read script =>
    have hscript :=
      follow_agrees (fun _ => Cursor.answer_agrees) s.cursor (Cursor.inPlace_cursor s) script
    have hflat : s.cursor.flat = { bytes := s.bytes } := rfl
    rw [hflat] at hscript
    rw [answer, Flat.respond]
    generalize follow Cursor.answer s.cursor script = mine at hscript
    generalize follow Flat.answer { bytes := s.bytes } script = plain at hscript
    cases hscript with
    | answered answers _ => exact .answered (Answer.read answers) trivial
    | refused hbreach => exact .refused hbreach

end Sequence

/-! ## The result -/

/-- Whatever is asked of a sequence, also through cursors, the answers are those of its plain byte
string, and so is every promise that the caller breaks.  No segment is asked for that is not there,
and behind every script a cursor stands where it has counted to. -/
theorem follow_eq_flat (s : Sequence) :
    (∀ calls,
      ((follow Sequence.answer s calls).map fun (answers, after) => (answers, after.bytes)) =
          follow Flat.respond s.bytes calls ∧
        follow Sequence.answer s calls ≠ .error .noSuchSegment) ∧
    ∀ script answers c, follow Cursor.answer s.cursor script = .ok (answers, c) → c.InPlace := by
  constructor
  · intro calls
    have hcalls := follow_agrees (fun s _ => Sequence.answer_agrees s) s trivial calls
    exact ⟨hcalls.map_eq, hcalls.ne_noSuchSegment⟩
  · intro script answers c hrun
    have hscript :=
      follow_agrees (fun _ => Cursor.answer_agrees) s.cursor (Cursor.inPlace_cursor s) script
    rw [hrun] at hscript
    generalize follow Flat.answer s.cursor.flat script = plain at hscript
    cases hscript with
    | answered _ h => exact h

end FramedChannel
