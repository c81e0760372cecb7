import Mathlib.Tactic.SplitIfs
import FramedChannel.WebSocket.Encoding

/-!
# Messages at the end of a buffer

An encoder writes into a buffer, slice by slice, and masks what it wrote where
it stands.  What it writes does not depend on the buffer.

* `flatten_payloadsOf` says that the payloads of the frames are the payload of
  the message.
* `appendMessage_eq` says that the loop over a buffer comes to the same as
  `encodeFramed`.
* `Encoder.encoded` is what an encoder writes for a message, and
  `Encoder.encode_eq` says that it writes this behind what the buffer holds, and
  counts it.
* `written_forVersion` says so of the encoder that a session uses.
-/

namespace FramedChannel.WebSocket

/-! ## Slices -/

theorem flatten_slices {α : Type} {size : Nat} (hsize : 0 < size) (items : List α) :
    (slices size items).flatten = items := by
  fun_induction slices size items with
  | case1 items _ ih => rw [List.flatten_cons, ih, List.take_append_drop]
  | case2 items hend =>
    have hnone : items.length = 0 := by omega
    rw [List.length_eq_zero_iff.1 hnone]
    rfl

theorem slices_ne_nil {α : Type} {size : Nat} (hsize : 0 < size) {items : List α}
    (hitems : items ≠ []) : slices size items ≠ [] := by
  rw [slices, if_pos ⟨hsize, List.length_pos_iff.2 hitems⟩]
  exact List.cons_ne_nil _ _

theorem slices_of_le {α : Type} {size : Nat} {items : List α} (hitems : items ≠ [])
    (hle : items.length ≤ size) : slices size items = [items] := by
  have hpos := List.length_pos_iff.2 hitems
  rw [slices, if_pos ⟨by omega, hpos⟩, List.take_of_length_le hle, List.drop_eq_nil_of_le hle,
    slices, if_neg (by simp)]

theorem flatten_payloadsOf (op : OpCode) (data : Bytes) (maxPayload : Nat) :
    (payloadsOf op data maxPayload).flatten = data := by
  unfold payloadsOf
  split
  · exact List.flatten_singleton
  · rename_i hsliced
    simp only [Bool.or_eq_true, decide_eq_true_eq, not_or] at hsliced
    exact flatten_slices (Nat.pos_of_ne_zero hsliced.1.2) data

theorem payloadsOf_ne_nil (op : OpCode) (data : Bytes) (maxPayload : Nat) :
    payloadsOf op data maxPayload ≠ [] := by
  unfold payloadsOf
  split
  · exact List.cons_ne_nil _ _
  · rename_i hsliced
    simp only [Bool.or_eq_true, decide_eq_true_eq, List.isEmpty_iff, not_or] at hsliced
    exact slices_ne_nil (Nat.pos_of_ne_zero hsliced.1.2) hsliced.2

theorem payloadsOf_control {op : OpCode} (h : op.isControl = true) (data : Bytes)
    (maxPayload : Nat) : payloadsOf op data maxPayload = [data] := by
  simp [payloadsOf, h]

/-! ## Loops over a buffer -/

theorem appendFrame_eq (buffer : Bytes) (frame : Frame) :
    appendFrame buffer frame = buffer ++ frame.bytes := by
  rw [appendFrame, maskFrom, List.take_left, List.drop_left, Frame.bytes, List.append_assoc]

theorem appendParts_eq (op : OpCode) (keys : Nat → Option MaskKey) (index : Nat) (buffer : Bytes)
    (parts : List Bytes) :
    appendParts op keys index buffer parts =
      buffer ++ (framesFrom op keys index parts).flatMap Frame.bytes := by
  induction parts generalizing op index buffer with
  | nil => exact (List.append_nil buffer).symm
  | cons part rest ih =>
    rw [appendParts, ih, appendFrame_eq, framesFrom, List.flatMap_cons, List.append_assoc]

/-- The parts of a payload are the payloads of its frames. -/
theorem slices_partSize (op : OpCode) {data : Bytes} (hdata : data ≠ []) (maxPayload : Nat) :
    slices (partSize op data.length maxPayload) data = payloadsOf op data maxPayload := by
  have hempty : data.isEmpty = false := by simpa using hdata
  unfold partSize payloadsOf
  rw [hempty, Bool.or_false, Bool.or_comm]
  split_ifs
  · rw [slices_of_le hdata (by omega)]
  · rfl

section Loops

variable (message : Message) (maxPayload : Nat) (keys : Nat → Option MaskKey)

/-- What is written at the end of a buffer are the frames of the message. -/
theorem appendMessage_eq (buffer : Bytes) :
    appendMessage buffer message maxPayload keys =
      buffer ++ encodeFramed message maxPayload keys := by
  by_cases hdata : message.data = []
  · have hnone : slices (partSize message.op message.data.length maxPayload) message.data = [] := by
      rw [hdata, slices, if_neg (by simp)]
    have hone : payloadsOf message.op message.data maxPayload = [[]] := by
      rw [payloadsOf, hdata]
      simp
    have hbytes : Frame.bytes ⟨true, message.op, keys 0, []⟩ = header true message.op 0 (keys 0) := by
      cases hkey : keys 0 <;> simp [Frame.bytes, masked, MaskKey.apply]
    rw [appendMessage, hnone, encodeFramed, framesOf, hone, framesFrom, framesFrom]
    exact congrArg (buffer ++ ·) (hbytes.symm.trans (List.append_nil _).symm)
  · have hsome := payloadsOf_ne_nil message.op message.data maxPayload
    rw [appendMessage, slices_partSize message.op hdata, encodeFramed, framesOf]
    split
    · exact absurd ‹_› hsome
    · exact appendParts_eq ..

theorem length_appendMessage_sub (buffer : Bytes) :
    (appendMessage buffer message maxPayload keys).length - buffer.length =
      (encodeFramed message maxPayload keys).length := by
  rw [appendMessage_eq, List.length_append, Nat.add_sub_cancel_left]

end Loops

/-! ## Encoders -/

namespace Encoder

/-- What an encoder writes for a message, wherever it writes it. -/
def encoded : Encoder → Message → Except Error Bytes
  | server maxPayload, message => .ok (encodeFramed message maxPayload unmasked)
  | client maxPayload keys, message =>
    .ok (encodeFramed message maxPayload fun index => some (keys index))
  | draft, message => encodeDraft message

/-- An encoder writes behind what is in the buffer and counts what it wrote, or leaves the buffer. -/
theorem encode_eq (encoder : Encoder) (buffer : Bytes) (message : Message) :
    encoder.encode buffer message =
      match encoder.encoded message with
      | .ok bytes => (buffer ++ bytes, .ok bytes.length)
      | .error error => (buffer, .error error) := by
  cases encoder with
  | server maxPayload | client maxPayload keys =>
    rw [encode, encoded]
    dsimp only
    rw [length_appendMessage_sub, appendMessage_eq]
  | draft =>
    obtain ⟨op, data⟩ := message
    unfold encode encoded encodeDraft
    cases op with
    | text => by_cases htext : Utf8.isText data = true <;> simp [htext]
    | close => rfl
    | continuation | binary | ping | pong => rfl

theorem written_eq (encoder : Encoder) (message : Message) :
    encoder.written message = encoder.encoded message := by
  rw [written, encode_eq]
  cases encoder.encoded message <;> rfl

theorem encodeAll_eq_foldl (encoder : Encoder) (buffer : Bytes) (messages : List Message) :
    (encoder.encodeAll buffer messages).1 =
      messages.foldl (fun buffer message => (encoder.encode buffer message).1) buffer := by
  induction messages generalizing buffer with
  | nil => rfl
  | cons message rest ih => exact ih _

theorem encoded_forVersion (version : Version) (maxPayload : Nat) (message : Message) :
    (forVersion version maxPayload).encoded message = encodeFor version maxPayload message := by
  unfold forVersion encodeFor
  split_ifs <;> rfl

end Encoder

/-- What a session sends of a message is its encoding for the version. -/
theorem written_forVersion (version : Version) (maxPayload : Nat) (message : Message) :
    (Encoder.forVersion version maxPayload).written message =
      encodeFor version maxPayload message := by
  rw [Encoder.written_eq, Encoder.encoded_forVersion]

end FramedChannel.WebSocket
