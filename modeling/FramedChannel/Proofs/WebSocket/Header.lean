import Mathlib.Data.List.Basic
import FramedChannel.WebSocket.Decoding

/-!
# Reading a frame header

How many bytes a header needs, and that nothing behind them has a say.

* `headerNeeds` is the number of bytes without which `Decoder.readHeader`
  waits.  It is known from the second byte on.
* `readHeader_append` says that a header reads the same whatever follows it.
* `payloadLength_of_beginFrame` and `protocol_of_resolve_eq_error` are what
  the rules for frames keep.
-/

namespace FramedChannel.WebSocket

variable {bytes rest : Bytes} {first second : UInt8}

/-! ## The parts of a header -/

/-- The length of the part of a header that holds the payload length, behind the second byte. -/
def extendedLength (second : UInt8) : Nat :=
  if second &&& 0x7F = 126 then 2
  else if second &&& 0x7F = 127 then 8
  else 0

/-- The length of the masking key in a header. -/
def keyLength (second : UInt8) : Nat :=
  if second &&& maskBit ≠ 0 then 4 else 0

theorem headerLength_eq (second : UInt8) :
    headerLength second = 2 + extendedLength second + keyLength second := rfl

namespace MaskKey

theorem ofBytes?_append (h : 4 ≤ bytes.length) (more : Bytes) :
    ofBytes? (bytes ++ more) = ofBytes? bytes := by
  match bytes, h with
  | a :: b :: c :: d :: rest, _ => rfl

end MaskKey

namespace Decoder

theorem frameLength_append (h : extendedLength second ≤ rest.length) (more : Bytes) :
    frameLength second (rest ++ more) =
      ((frameLength second rest).1, (frameLength second rest).2 ++ more) := by
  unfold extendedLength at h
  unfold frameLength
  split_ifs at h ⊢ with h126 h127
  · rw [List.take_append_of_le_length h, List.drop_append_of_le_length h]
  · rw [List.take_append_of_le_length h, List.drop_append_of_le_length h]
  · rfl

theorem length_frameLength (second : UInt8) (rest : Bytes) :
    (frameLength second rest).2.length = rest.length - extendedLength second := by
  unfold extendedLength frameLength
  split_ifs <;> simp

/-! ## Headers that are all there -/

/-- How many bytes a header needs, as far as its first bytes tell. -/
def headerNeeds : Bytes → Nat
  | _ :: second :: _ => headerLength second
  | _ => 2

theorem two_le_headerNeeds (bytes : Bytes) : 2 ≤ headerNeeds bytes := by
  unfold headerNeeds
  split
  · rw [headerLength_eq]
    omega
  · exact Nat.le_refl 2

/-- More bytes do not complete a header without being needed. -/
theorem length_lt_headerNeeds_append (h : bytes.length < headerNeeds bytes) (more : Bytes) :
    bytes.length < headerNeeds (bytes ++ more) := by
  match bytes with
  | [] => exact Nat.lt_of_lt_of_le (by simp) (two_le_headerNeeds _)
  | [_] => exact Nat.lt_of_lt_of_le (by simp) (two_le_headerNeeds _)
  | _ :: _ :: _ => exact h

variable {d : Decoder}

theorem readHeader_of_length_lt (h : bytes.length < headerNeeds bytes) :
    d.readHeader bytes = .needMore d := by
  unfold readHeader
  split
  · exact if_pos h
  · rfl

/-- A header reads the same whatever follows it. -/
theorem readHeader_append (h : headerNeeds bytes ≤ bytes.length) (more : Bytes) :
    d.readHeader (bytes ++ more) = d.readHeader bytes := by
  match bytes, h with
  | first :: second :: rest, h =>
    have hneeds : headerLength second ≤ rest.length + 2 := h
    rw [headerLength_eq] at hneeds
    have hlength : ¬ (first :: second :: rest).length < headerLength second := Nat.not_lt.2 h
    have hlength' : ¬ (first :: second :: (rest ++ more)).length < headerLength second := by
      rw [headerLength_eq]
      simp only [List.length_cons, List.length_append]
      omega
    have hkey : (if second &&& maskBit ≠ 0 then
          MaskKey.ofBytes? ((frameLength second rest).2 ++ more) else none) =
        if second &&& maskBit ≠ 0 then MaskKey.ofBytes? (frameLength second rest).2 else none := by
      split_ifs with hmask
      · rw [keyLength, if_pos hmask] at hneeds
        apply MaskKey.ofBytes?_append
        rw [length_frameLength]
        omega
      · rfl
    simp only [List.cons_append, readHeader, if_neg hlength, if_neg hlength',
      frameLength_append (show extendedLength second ≤ rest.length by omega) more, hkey]

end Decoder

/-! ## What the rules for frames keep -/

namespace Context

variable {context after : Context} {length : Nat} {mask : Option MaskKey}

/-- The rule that a frame with an operation code of its own breaks, of the two that depend on what
the frame carries. -/
def frameFault (context : Context) (op : OpCode) (fin : Bool) (length : Nat) : Option Violation :=
  if op.isControl then controlFault fin length else context.dataFault op length

/-- A header is accepted exactly when it breaks no rule. -/
theorem beginFrame_eq_ok_iff :
    context.beginFrame first second length mask = .ok after ↔
      first &&& reservedBits = 0 ∧
        ¬ (context.options.requireMask = true ∧ second &&& maskBit = 0) ∧ length < 1 <<< 63 ∧
        ∃ op, OpCode.ofCode? (first &&& 0x0F) = some op ∧
          context.frameFault op (first &&& finBit != 0) length = none ∧
          after =
            { context with op, fin := first &&& finBit != 0, payloadLength := length, mask } := by
  unfold beginFrame frameFault
  generalize 1 <<< 63 = bound
  by_cases hreserved : first &&& reservedBits = 0
  · cases hop : OpCode.ofCode? (first &&& 0x0F) with
    | none => simp [hreserved]
    | some op =>
      by_cases hmask : context.options.requireMask = true ∧ second &&& maskBit = 0
      · simp [hreserved, hmask]
      · by_cases hlong : bound ≤ length
        · simp [hreserved, hmask, hlong, Nat.not_lt.2 hlong]
        · simp only [hreserved, hmask, hlong, Nat.not_le.1 hlong, ne_eq, not_true_eq_false,
            not_false_eq_true, if_false, true_and, Option.some.injEq, exists_eq_left']
          cases (if op.isControl = true then controlFault (first &&& finBit != 0) length
              else context.dataFault op length) with
          | none =>
            simp only [Except.ok.injEq, true_and]
            exact eq_comm
          | some violation => simp
  · simp [hreserved]

theorem payloadLength_of_beginFrame
    (h : context.beginFrame first second length mask = .ok after) :
    after.payloadLength = length := by
  obtain ⟨_, _, _, op, _, _, rfl⟩ := beginFrame_eq_ok_iff.1 h
  rfl

theorem protocol_of_resolve_eq_error {payload : Bytes} {error : Error}
    (h : (context.resolve payload).2 = .error error) : ∃ violation, error = .protocol violation := by
  unfold resolve at h
  split at h
  · cases h
  · split at h
    · cases h
    · dsimp only at h
      split at h <;> split at h <;> cases h <;> exact ⟨_, rfl⟩

end Context

end FramedChannel.WebSocket
