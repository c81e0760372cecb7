import FramedChannel.Proofs.WebSocket.Header

/-!
# Frames read one by one

A reading of frames that knows nothing of bytes that arrive, of phases and of
passes.  It takes whole frames in order, and remembers the message that is
open.

* `WireFrame` is any frame that can stand on the wire: every first byte, every
  masking key, and every form of the payload length that holds it.
* `Rules.Refuses` lists what a frame is refused for.
* `Rules.read` reads one frame, and `Rules.interpret` a list of them.
* `readHeader_bytes` is what the decoder makes of the header of a `WireFrame`.
-/

namespace FramedChannel.WebSocket

/-! ## Frames on the wire -/

/-- The three forms of a payload length. -/
inductive LengthForm where
  /-- In the second byte. -/
  | short
  /-- In two bytes of its own. -/
  | medium
  /-- In eight bytes of its own. -/
  | long
  deriving DecidableEq, Repr

namespace LengthForm

/-- The form can hold the length. -/
def Holds : LengthForm → Nat → Prop
  | short, length => length < 126
  | medium, length => length < 1 <<< 16
  | long, length => length < 1 <<< 64

/-- The lower bits of the second byte. -/
def code : LengthForm → Nat → UInt8
  | short, length => UInt8.ofNat length
  | medium, _ => 126
  | long, _ => 127

/-- The bytes of the length behind the second byte. -/
def extended : LengthForm → Nat → Bytes
  | short, _ => []
  | medium, length => Bytes.ofNat 2 length
  | long, length => Bytes.ofNat 8 length

instance (form : LengthForm) (length : Nat) : Decidable (form.Holds length) :=
  match form with
  | short => inferInstanceAs (Decidable (length < 126))
  | medium => inferInstanceAs (Decidable (length < 1 <<< 16))
  | long => inferInstanceAs (Decidable (length < 1 <<< 64))

variable {form : LengthForm} {length : Nat}

theorem toNat_code_short (h : short.Holds length) : (short.code length).toNat = length := by
  have hlength : length < 126 := h
  rw [code, UInt8.toNat_ofNat']
  omega

theorem toNat_code_lt (h : form.Holds length) : (form.code length).toNat < 128 := by
  cases form with
  | short =>
    have hlength : length < 126 := h
    rw [toNat_code_short h]
    omega
  | medium => exact (by decide : (126 : UInt8).toNat < 128)
  | long => exact (by decide : (127 : UInt8).toNat < 128)

/-- The short form is never taken for a longer one. -/
theorem code_short_ne (h : short.Holds length) (byte : UInt8) (hbyte : 126 ≤ byte.toNat) :
    short.code length ≠ byte := by
  have hlength : length < 126 := h
  intro heq
  have hto := toNat_code_short h
  rw [heq] at hto
  omega

end LengthForm

/-- A frame on the wire.  Only a frame that declares more bytes than a payload can have may come
without all of them. -/
structure WireFrame where
  first : UInt8
  mask : Option MaskKey
  form : LengthForm
  /-- The payload length in the header. -/
  length : Nat
  /-- The payload before masking. -/
  payload : Bytes
  holds : form.Holds length
  whole : length < 1 <<< 63 → payload.length = length

namespace WireFrame

/-- What the frame carries, if its operation code is known. -/
def op? (frame : WireFrame) : Option OpCode :=
  OpCode.ofCode? (frame.first &&& 0x0F)

/-- Whether the frame ends its message. -/
def fin (frame : WireFrame) : Bool :=
  frame.first &&& finBit != 0

/-- The second byte of a frame. -/
def second (frame : WireFrame) : UInt8 :=
  (if frame.mask.isSome then maskBit else 0) ||| frame.form.code frame.length

/-- The masking key as it stands in the header. -/
def keyBytes (frame : WireFrame) : Bytes :=
  (frame.mask.map MaskKey.bytes).getD []

/-- The frame on the wire. -/
def bytes (frame : WireFrame) : Bytes :=
  frame.first :: frame.second ::
    (frame.form.extended frame.length ++ frame.keyBytes ++ masked frame.mask frame.payload)

end WireFrame

/-! ## The reading -/

/-- What the reading of frames depends on. -/
structure Rules where
  /-- Frames without a mask are refused. -/
  requireMask : Bool
  /-- The most bytes of a message, and 0 for no limit. -/
  limit : Nat

/-- What comes of a frame. -/
inductive Reading where
  | refused
  /-- The frame is taken: the message that it completes, and the one that is open behind it. -/
  | taken (message : Option Message) (opened : Option Message)
  deriving DecidableEq, Repr

/-- How a list of frames ends. -/
inductive Ending where
  | refused
  /-- All frames were taken, and the message may be open. -/
  | idle (opened : Option Message)
  deriving DecidableEq, Repr

namespace Rules

/-- Some bytes are more than a message may have. -/
def Exceeds (rules : Rules) (length : Nat) : Prop :=
  0 < rules.limit ∧ rules.limit < length

/-- How many bytes the open message has so far. -/
def lengthOf (opened : Option Message) : Nat :=
  (opened.map fun message => message.data.length).getD 0

/-- What a frame with a given operation code is refused for, when the message `opened` is open. -/
def Refuses (rules : Rules) (opened : Option Message) (op : OpCode) (frame : WireFrame) : Prop :=
  frame.first &&& reservedBits ≠ 0 ∨
    (rules.requireMask = true ∧ frame.mask = none) ∨
    1 <<< 63 ≤ frame.length ∨
    (op.isControl = true ∧
      (frame.fin = false ∨ 125 < frame.length ∨ rules.Exceeds frame.length)) ∨
    (op = .continuation ∧ opened = none) ∨
    ((op = .text ∨ op = .binary) ∧ opened.isSome = true) ∨
    (op.isControl = false ∧
      rules.Exceeds (lengthOf opened + frame.length))

theorem Exceeds.mono {rules : Rules} {length longer : Nat} (h : rules.Exceeds length)
    (hle : length ≤ longer) : rules.Exceeds longer :=
  ⟨h.1, Nat.lt_of_lt_of_le h.2 hle⟩

instance (rules : Rules) (length : Nat) : Decidable (rules.Exceeds length) :=
  inferInstanceAs (Decidable (_ ∧ _))

instance (rules : Rules) (opened : Option Message) (op : OpCode) (frame : WireFrame) :
    Decidable (rules.Refuses opened op frame) :=
  inferInstanceAs (Decidable (_ ∨ _))

/-- The open message with another payload behind it, or the message that the payload opens. -/
def grow (opened : Option Message) (op : OpCode) (payload : Bytes) : Message :=
  match opened with
  | none => ⟨op, payload⟩
  | some message => ⟨message.op, message.data ++ payload⟩

theorem length_grow (opened : Option Message) (op : OpCode) (payload : Bytes) :
    (grow opened op payload).data.length = lengthOf opened + payload.length := by
  cases opened <;> simp [grow, lengthOf]

/-- A message grows by two payloads as by both in one. -/
theorem grow_grow (opened : Option Message) (op : OpCode) (first second : Bytes) :
    grow (some (grow opened op first)) .continuation second = grow opened op (first ++ second) := by
  cases opened <;> simp [grow]

/-- Reads one frame, when the message `opened` is open. -/
def read (rules : Rules) (opened : Option Message) (frame : WireFrame) : Reading :=
  match frame.op? with
  | none => .refused
  | some op =>
    if rules.Refuses opened op frame then .refused
    else if op.isControl then .taken (some ⟨op, frame.payload⟩) opened
    else
      let message := grow opened op frame.payload
      if frame.fin = false then .taken none (some message)
      else if message.op = .text ∧ Utf8.isText message.data = false then .refused
      else .taken (some message) none

/-- Reads frames in order, up to the first that is refused. -/
def interpret (rules : Rules) (opened : Option Message) :
    List WireFrame → List Message × Ending
  | [] => ([], .idle opened)
  | frame :: rest =>
    match rules.read opened frame with
    | .refused => ([], .refused)
    | .taken message opened =>
      let (messages, ending) := rules.interpret opened rest
      (message.toList ++ messages, ending)

end Rules

/-! ## What the decoder sees of a frame -/

theorem length_masked (mask : Option MaskKey) (payload : Bytes) :
    (masked mask payload).length = payload.length := by
  cases mask <;> simp [masked]

theorem masked_masked (mask : Option MaskKey) (payload : Bytes) :
    masked mask (masked mask payload) = payload := by
  cases mask <;> simp [masked]

/-- The two parts of a second byte do not touch each other. -/
theorem second_byte_cases (x : UInt8) (h : x.toNat < 128) :
    ((maskBit ||| x) &&& 0x7F = x ∧ (maskBit ||| x) &&& maskBit ≠ 0) ∧
      (0 ||| x) &&& 0x7F = x ∧ (0 ||| x) &&& maskBit = 0 := by
  cases x with
  | ofBitVec bits =>
    cases bits with
    | ofFin n =>
      revert n
      decide +kernel

namespace WireFrame

variable (frame : WireFrame)

theorem second_and_lengthBits : frame.second &&& 0x7F = frame.form.code frame.length := by
  obtain ⟨⟨hmasked, _⟩, hbare, _⟩ := second_byte_cases _ (LengthForm.toNat_code_lt frame.holds)
  unfold second
  split
  · exact hmasked
  · exact hbare

theorem second_and_maskBit : frame.second &&& maskBit = 0 ↔ frame.mask = none := by
  obtain ⟨⟨_, hmasked⟩, _, hbare⟩ := second_byte_cases _ (LengthForm.toNat_code_lt frame.holds)
  unfold second
  cases frame.mask with
  | none => simpa using hbare
  | some key => simpa using hmasked

theorem holds_of_form {frame : WireFrame} {form : LengthForm} (h : frame.form = form) :
    form.Holds frame.length :=
  h ▸ frame.holds

theorem extendedLength_second :
    extendedLength frame.second = (frame.form.extended frame.length).length := by
  unfold extendedLength
  rw [second_and_lengthBits]
  cases hform : frame.form with
  | short =>
    have hholds := holds_of_form hform
    rw [if_neg (LengthForm.code_short_ne hholds 126 (by decide)),
      if_neg (LengthForm.code_short_ne hholds 127 (by decide))]
    rfl
  | medium => simp [LengthForm.code, LengthForm.extended]
  | long => simp [LengthForm.code, LengthForm.extended]

theorem keyLength_second : keyLength frame.second = frame.keyBytes.length := by
  unfold keyLength keyBytes
  cases hmask : frame.mask with
  | none => simp [(second_and_maskBit frame).2 hmask]
  | some key =>
    have hbit : frame.second &&& maskBit ≠ 0 := by
      intro hzero
      rw [second_and_maskBit, hmask] at hzero
      cases hzero
    simp [hbit, MaskKey.bytes]

/-- The decoder reads the declared length back from every form. -/
theorem frameLength_second (rest : Bytes) :
    Decoder.frameLength frame.second (frame.form.extended frame.length ++ rest) =
      (frame.length, rest) := by
  unfold Decoder.frameLength
  rw [second_and_lengthBits]
  cases hform : frame.form with
  | short =>
    have hholds := holds_of_form hform
    rw [if_neg (LengthForm.code_short_ne hholds 126 (by decide)),
      if_neg (LengthForm.code_short_ne hholds 127 (by decide)),
      LengthForm.toNat_code_short hholds]
    rfl
  | medium =>
    have hholds : frame.length < 1 <<< 16 := holds_of_form hform
    have hnumber : Bytes.toNat (Bytes.ofNat 2 frame.length) = frame.length := by
      rw [Bytes.toNat_ofNat]
      exact Nat.mod_eq_of_lt hholds
    simp [LengthForm.code, LengthForm.extended, hnumber]
  | long =>
    have hholds : frame.length < 1 <<< 64 := holds_of_form hform
    have hnumber : Bytes.toNat (Bytes.ofNat 8 frame.length) = frame.length := by
      rw [Bytes.toNat_ofNat]
      exact Nat.mod_eq_of_lt hholds
    simp [LengthForm.code, LengthForm.extended, hnumber]

theorem ofBytes?_keyBytes (rest : Bytes) :
    (if frame.second &&& maskBit ≠ 0 then MaskKey.ofBytes? (frame.keyBytes ++ rest) else none) =
      frame.mask := by
  cases hmask : frame.mask with
  | none => simp [(second_and_maskBit frame).2 hmask]
  | some key =>
    have hbit : frame.second &&& maskBit ≠ 0 := by
      intro hzero
      rw [second_and_maskBit, hmask] at hzero
      cases hzero
    rw [if_pos hbit, keyBytes, hmask]
    rfl

/-- How many bytes the header of the frame has. -/
def headerLength (frame : WireFrame) : Nat :=
  2 + (frame.form.extended frame.length).length + frame.keyBytes.length

theorem headerLength_second : WebSocket.headerLength frame.second = frame.headerLength := by
  rw [headerLength_eq, extendedLength_second, keyLength_second]
  rfl

theorem headerLength_pos : 0 < frame.headerLength := by
  unfold headerLength
  omega

theorem headerLength_le : frame.headerLength ≤ 14 := by
  have hextended : (frame.form.extended frame.length).length ≤ 8 := by
    cases frame.form <;> simp [LengthForm.extended]
  have hkey : frame.keyBytes.length ≤ 4 := by
    unfold keyBytes
    cases frame.mask <;> simp [MaskKey.bytes]
  unfold headerLength
  omega

theorem bytes_append (rest : Bytes) :
    frame.bytes ++ rest =
      frame.first :: frame.second :: (frame.form.extended frame.length ++
        (frame.keyBytes ++ (masked frame.mask frame.payload ++ rest))) := by
  simp [bytes]

theorem drop_headerLength (rest : Bytes) :
    (frame.bytes ++ rest).drop frame.headerLength = masked frame.mask frame.payload ++ rest := by
  have hheader : frame.headerLength =
      (frame.form.extended frame.length ++ frame.keyBytes).length + 2 := by
    rw [headerLength, List.length_append]
    omega
  rw [bytes_append, hheader, List.drop_succ_cons, List.drop_succ_cons, ← List.append_assoc]
  exact List.drop_left

end WireFrame

/-- The decoder makes of a header what the rules for headers make of its parts. -/
theorem Decoder.readHeader_bytes (d : Decoder) (frame : WireFrame) (rest : Bytes) :
    d.readHeader (frame.bytes ++ rest) =
      match d.context.beginFrame frame.first frame.second frame.length frame.mask with
      | .error violation => .fail d frame.headerLength (.protocol violation)
      | .ok context =>
        if frame.length = 0 then
          ⟨{ d with context := (context.resolve []).1 }, frame.headerLength, [],
            (context.resolve []).2⟩
        else .progress { d with phase := .frames .payload, context } frame.headerLength := by
  have hlength : ¬ (frame.bytes ++ rest).length < frame.headerLength := by
    simp only [WireFrame.bytes, WireFrame.headerLength, List.length_cons, List.length_append]
    omega
  rw [frame.bytes_append] at hlength ⊢
  cases hbegin : d.context.beginFrame frame.first frame.second frame.length frame.mask <;>
    simp only [readHeader, frame.headerLength_second, if_neg hlength, frame.frameLength_second,
      frame.ofBytes?_keyBytes, hbegin]

end FramedChannel.WebSocket
