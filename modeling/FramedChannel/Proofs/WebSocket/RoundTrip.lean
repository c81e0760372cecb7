import FramedChannel.Proofs.WebSocket.Buffers
import FramedChannel.Proofs.WebSocket.Reached

/-!
# Messages there and back

Messages that were encoded come back from a connection that reads frames, in
order and whole, however they were split into frames, masked and cut.

* `WireFrame.ofFrame` says that an encoded frame is a `WireFrame`, and
  `not_refuses_ofFrame` what keeps it from being refused.
* `AtFrame.message` is one message, and `feed_encoded` a list of them.
* `feed_encode` and `feed_encodeAll` say so of the encoders.
-/

namespace FramedChannel.WebSocket

open Reassembly

/-! ## Encoded frames -/

namespace LengthForm

/-- The shortest form of a length. -/
def shortest (length : Nat) : LengthForm :=
  if length < 126 then short else if length < 65536 then medium else long

theorem holds_shortest {length : Nat} (h : length < 1 <<< 63) : (shortest length).Holds length := by
  unfold shortest
  split_ifs with hshort hmedium
  · exact hshort
  · exact hmedium
  · exact Nat.lt_trans h (by decide)

end LengthForm

namespace WireFrame

/-- An encoded frame. -/
def ofFrame (frame : Frame) (h : frame.payload.length < 1 <<< 63) : WireFrame where
  first := (if frame.fin then finBit else 0) ||| frame.op.code
  mask := frame.mask
  form := LengthForm.shortest frame.payload.length
  length := frame.payload.length
  payload := frame.payload
  holds := LengthForm.holds_shortest h
  whole _ := rfl

variable {frame : Frame} (h : frame.payload.length < 1 <<< 63)

theorem bytes_ofFrame : (ofFrame frame h).bytes = frame.bytes := by
  unfold bytes Frame.bytes header second keyBytes ofFrame LengthForm.shortest
  dsimp only
  split_ifs <;> simp [LengthForm.code, LengthForm.extended]

/-- What is read off the first byte of an encoded frame. -/
theorem first_byte_cases (op : OpCode) (fin : Bool) :
    let first := (if fin then finBit else 0) ||| op.code
    first &&& reservedBits = 0 ∧ first &&& 0x0F = op.code ∧ (first &&& finBit != 0) = fin := by
  cases op <;> cases fin <;> decide

@[simp] theorem op?_ofFrame : (ofFrame frame h).op? = some frame.op := by
  obtain ⟨_, hcode, _⟩ := first_byte_cases frame.op frame.fin
  rw [op?, ofFrame, hcode, OpCode.ofCode?_code]

@[simp] theorem fin_ofFrame : (ofFrame frame h).fin = frame.fin :=
  (first_byte_cases frame.op frame.fin).2.2

variable {opened : Option Message} {rules : Rules}

theorem not_refuses_ofFrame (hmask : rules.requireMask = true → frame.mask ≠ none)
    (hcontrol : frame.op.isControl = true →
      frame.fin = true ∧ frame.payload.length ≤ 125 ∧ ¬ rules.Exceeds frame.payload.length)
    (hdata : frame.op.isControl = false →
      (frame.op = .continuation ↔ opened ≠ none) ∧
        ¬ rules.Exceeds (Rules.lengthOf opened + frame.payload.length)) :
    ¬ rules.Refuses opened frame.op (ofFrame frame h) := by
  obtain ⟨hreserved, _, _⟩ := first_byte_cases frame.op frame.fin
  have hfirst : (ofFrame frame h).first &&& reservedBits = 0 := hreserved
  have hlength : (ofFrame frame h).length = frame.payload.length := rfl
  have hmask' : (ofFrame frame h).mask = frame.mask := rfl
  have hop : frame.op.isControl = true → frame.op ≠ .continuation ∧
      ¬ (frame.op = .text ∨ frame.op = .binary) := by
    cases frame.op <;> decide
  have hop' : frame.op = .text ∨ frame.op = .binary → frame.op.isControl = false ∧
      frame.op ≠ .continuation := by
    rintro (htext | hbinary)
    · rw [htext]
      decide
    · rw [hbinary]
      decide
  unfold Rules.Refuses
  rw [hfirst, hlength, hmask', fin_ofFrame]
  rintro (hbits | ⟨hrequire, hnone⟩ | hlong | ⟨hop, hbad⟩ | ⟨hop, hnone⟩ | ⟨hop, hsome⟩ |
    ⟨hop, hbad⟩)
  · exact hbits rfl
  · exact hmask hrequire hnone
  · omega
  · obtain ⟨hfin, hshort, hfits⟩ := hcontrol hop
    rcases hbad with hfragment | hbad | hbad
    · rw [hfin] at hfragment
      cases hfragment
    · omega
    · exact hfits hbad
  · have hkind : frame.op.isControl = false := by rw [hop]; decide
    exact ((hdata hkind).1.1 hop) hnone
  · obtain ⟨hkind, hfirst⟩ := hop' hop
    refine hfirst ((hdata hkind).1.2 ?_)
    rintro rfl
    cases hsome
  · exact (hdata hop).2 hbad

/-- The header of a control frame that is too long breaks that rule, and no other one. -/
theorem beginFrame_ofFrame_of_long {context : Context}
    (hmask : context.options.requireMask = true → frame.mask ≠ none)
    (hcontrol : frame.op.isControl = true) (hfin : frame.fin = true)
    (hlong : maxControlPayload < frame.payload.length) :
    context.beginFrame (ofFrame frame h).first (ofFrame frame h).second (ofFrame frame h).length
      (ofFrame frame h).mask = .error (.controlTooLong frame.payload.length) := by
  have hreserved : ¬ (ofFrame frame h).first &&& reservedBits ≠ 0 :=
    not_not.2 (first_byte_cases frame.op frame.fin).1
  have hop : OpCode.ofCode? ((ofFrame frame h).first &&& 0x0F) = some frame.op := op?_ofFrame h
  have hlast : ((ofFrame frame h).first &&& finBit != 0) = true := (fin_ofFrame h).trans hfin
  have hmasked :
      ¬ (context.options.requireMask = true ∧ (ofFrame frame h).second &&& maskBit = 0) :=
    fun ⟨hrequire, hbit⟩ => hmask hrequire ((second_and_maskBit (ofFrame frame h)).1 hbit)
  have hshort : ¬ 1 <<< 63 ≤ (ofFrame frame h).length := Nat.not_le.2 h
  have hfault : Context.controlFault true (ofFrame frame h).length =
      some (.controlTooLong frame.payload.length) := if_pos hlong
  simp only [Context.beginFrame, if_neg hreserved, hop, if_neg hmasked, if_neg hshort, hcontrol,
    if_true, hlast, hfault]

theorem read_ofFrame_control (hnot : ¬ rules.Refuses opened frame.op (ofFrame frame h))
    (hcontrol : frame.op.isControl = true) :
    rules.read opened (ofFrame frame h) = .taken (some ⟨frame.op, frame.payload⟩) opened := by
  simp only [Rules.read, op?_ofFrame, if_neg hnot, hcontrol, if_true]
  rfl

theorem read_ofFrame_fragment (hnot : ¬ rules.Refuses opened frame.op (ofFrame frame h))
    (hdata : frame.op.isControl = false) (hfin : frame.fin = false) :
    rules.read opened (ofFrame frame h) =
      .taken none (some (Rules.grow opened frame.op frame.payload)) := by
  simp only [Rules.read, op?_ofFrame, if_neg hnot, hdata, fin_ofFrame, hfin, if_true]
  rfl

theorem read_ofFrame_final (hnot : ¬ rules.Refuses opened frame.op (ofFrame frame h))
    (hdata : frame.op.isControl = false) (hfin : frame.fin = true)
    (htext : (Rules.grow opened frame.op frame.payload).op = .text →
      Utf8.isText (Rules.grow opened frame.op frame.payload).data = true) :
    rules.read opened (ofFrame frame h) =
      .taken (some (Rules.grow opened frame.op frame.payload)) none := by
  have hvalid : ¬ ((Rules.grow opened frame.op frame.payload).op = .text ∧
      Utf8.isText (Rules.grow opened frame.op frame.payload).data = false) := by
    rintro ⟨hop, hbad⟩
    rw [htext hop] at hbad
    cases hbad
  simp only [Rules.read, op?_ofFrame, if_neg hnot, hdata, fin_ofFrame, hfin]
  exact if_neg hvalid

end WireFrame

/-! ## Messages -/

variable {options : WebSocketOptions} {limit : Nat} {r : Reassembly Decoder} {rest : Bytes}

/-- One encoded frame that is not refused. -/
theorem AtFrame.encoded_step (h : AtFrame options limit r) {frame : Frame}
    (hlength : frame.payload.length < 1 <<< 63) (hbytes : r.pending.bytes = frame.bytes ++ rest)
    {message opened : Option Message}
    (hread : (rulesOf options limit).read r.decoder.context.openMessage
      (WireFrame.ofFrame frame hlength) = .taken message opened) :
    ∃ s, Leads r (delivered message) s ∧ AtFrame options limit s ∧ s.pending.bytes = rest ∧
      s.decoder.context.openMessage = opened := by
  rw [← WireFrame.bytes_ofFrame hlength] at hbytes
  have hstep := h.step hbytes
  rw [hread] at hstep
  exact hstep

/-- The frames of a message whose first payloads are taken already, or none is. -/
theorem AtFrame.frames (h : AtFrame options limit r) {op : OpCode} {keys : Nat → Option MaskKey}
    {index : Nat} {payloads : List Bytes} (hsome : payloads ≠ []) (hdata : op.isControl = false)
    (hcontinues : op = .continuation ↔ r.decoder.context.openMessage ≠ none)
    (hmask : options.requireMask = true → ∀ index, keys index ≠ none)
    (hlength : payloads.flatten.length < 1 <<< 63)
    (hlimit : ¬ (rulesOf options limit).Exceeds
      (Rules.lengthOf r.decoder.context.openMessage + payloads.flatten.length))
    (htext : (Rules.grow r.decoder.context.openMessage op payloads.flatten).op = .text →
      Utf8.isText (Rules.grow r.decoder.context.openMessage op payloads.flatten).data = true)
    (hbytes : r.pending.bytes = (framesFrom op keys index payloads).flatMap Frame.bytes ++ rest) :
    ∃ s, Leads r
        (delivered (some (Rules.grow r.decoder.context.openMessage op payloads.flatten))) s ∧
      AtFrame options limit s ∧ s.pending.bytes = rest ∧
      s.decoder.context.openMessage = none := by
  -- Behind the first frame `op` is a continuation, and the message so far is the open one.
  induction payloads generalizing r op index with
  | nil => exact absurd rfl hsome
  | cons payload others ih =>
    rw [List.flatten_cons] at hlength hlimit htext ⊢
    rw [List.length_append] at hlength hlimit
    have hpayload : payload.length < 1 <<< 63 := by omega
    have hshort : ¬ (rulesOf options limit).Exceeds
        (Rules.lengthOf r.decoder.context.openMessage + payload.length) := fun hlong =>
      hlimit (hlong.mono (by omega))
    have hnot : ∀ fin, ¬ (rulesOf options limit).Refuses r.decoder.context.openMessage op
        (.ofFrame ⟨fin, op, keys index, payload⟩ hpayload) := fun fin =>
      WireFrame.not_refuses_ofFrame hpayload (fun hrequire => hmask hrequire index)
        (fun hcontrol => by rw [hdata] at hcontrol; cases hcontrol)
        fun _ => ⟨hcontinues, hshort⟩
    rw [framesFrom, List.flatMap_cons, List.append_assoc] at hbytes
    cases others with
    | nil =>
      rw [List.flatten_nil, List.append_nil] at htext ⊢
      exact h.encoded_step hpayload hbytes
        (WireFrame.read_ofFrame_final hpayload (hnot true) hdata rfl htext)
    | cons next others =>
      obtain ⟨s, hleads, hat, hrest, hopened⟩ := h.encoded_step hpayload hbytes
        (WireFrame.read_ofFrame_fragment hpayload (hnot false) hdata rfl)
      have hlengthOf : Rules.lengthOf s.decoder.context.openMessage =
          Rules.lengthOf r.decoder.context.openMessage + payload.length := by
        rw [hopened, ← Rules.length_grow _ op]
        rfl
      have hgrow : Rules.grow s.decoder.context.openMessage .continuation (next :: others).flatten =
          Rules.grow r.decoder.context.openMessage op (payload ++ (next :: others).flatten) := by
        rw [hopened, Rules.grow_grow]
      obtain ⟨t, hleads', hat', hrest', hclosed⟩ :=
        ih hat (List.cons_ne_nil _ _) rfl (by simp [hopened]) (by omega)
          (by rwa [hlengthOf, Nat.add_assoc]) (by rwa [hgrow]) hrest
      rw [hgrow] at hleads'
      exact ⟨t, hleads.trans hleads', hat', hrest', hclosed⟩

/-- A message to be sent, and how. -/
structure Sending where
  message : Message
  /-- The most payload bytes of a frame, and 0 for no bound. -/
  maxPayload : Nat
  /-- The masks of the frames. -/
  keys : Nat → Option MaskKey

namespace Sending

/-- The bytes of the message. -/
def bytes (sending : Sending) : Bytes :=
  encodeFramed sending.message sending.maxPayload sending.keys

/-- A control message is one frame. -/
theorem bytes_of_control {sending : Sending} (hcontrol : sending.message.isControl = true) :
    sending.bytes =
      (⟨true, sending.message.op, sending.keys 0, sending.message.data⟩ : Frame).bytes := by
  rw [bytes, encodeFramed, framesOf, payloadsOf_control hcontrol]
  exact List.append_nil _

/-- The message is one that can be sent to a connection with the given options and limit: a text, a
binary or a short control message, not longer than the connection and a byte string in memory can
be, and masked if it has to be. -/
structure Fits (options : WebSocketOptions) (limit : Nat) (sending : Sending) : Prop where
  op : sending.message.op ≠ .continuation
  text : sending.message.op = .text → Utf8.isText sending.message.data = true
  control : sending.message.isControl = true → sending.message.data.length ≤ 125
  length : sending.message.data.length < 1 <<< 63
  limit : limit = 0 ∨ sending.message.data.length ≤ limit
  masked : options.requireMask = true → ∀ index, sending.keys index ≠ none

theorem Fits.not_exceeds {sending : Sending} (h : sending.Fits options limit) :
    ¬ (rulesOf options limit).Exceeds sending.message.data.length := by
  rintro ⟨hpos, hlong⟩
  have hlimit := h.limit
  change 0 < limit at hpos
  change limit < _ at hlong
  omega

end Sending

/-- A connection without an open message takes an encoded message as a whole. -/
theorem AtFrame.message (h : AtFrame options limit r) {sending : Sending}
    (hfits : sending.Fits options limit) (hclosed : r.decoder.context.openMessage = none)
    (hbytes : r.pending.bytes = sending.bytes ++ rest) :
    ∃ s, Leads r (delivered (some sending.message)) s ∧ AtFrame options limit s ∧
      s.pending.bytes = rest ∧ s.decoder.context.openMessage = none := by
  have hsame := flatten_payloadsOf sending.message.op sending.message.data sending.maxPayload
  have hmessage : Rules.grow r.decoder.context.openMessage sending.message.op
      sending.message.data = sending.message := by
    rw [hclosed]
    rfl
  cases hkind : sending.message.op.isControl with
  | true =>
    rw [Sending.bytes_of_control hkind] at hbytes
    have hnot : ¬ (rulesOf options limit).Refuses r.decoder.context.openMessage
        sending.message.op
        (.ofFrame ⟨true, sending.message.op, sending.keys 0, sending.message.data⟩ hfits.length) :=
      WireFrame.not_refuses_ofFrame hfits.length (fun hrequire => hfits.masked hrequire 0)
        (fun _ => ⟨rfl, hfits.control hkind, hfits.not_exceeds⟩)
        fun hdata => by rw [hkind] at hdata; cases hdata
    have hstep := h.encoded_step hfits.length hbytes
      (WireFrame.read_ofFrame_control hfits.length hnot hkind)
    rw [hclosed] at hstep
    exact hstep
  | false =>
    have hsome := payloadsOf_ne_nil sending.message.op sending.message.data sending.maxPayload
    have hframes := h.frames hsome hkind
      (by simp [hclosed, hfits.op]) hfits.masked (by rw [hsame]; exact hfits.length)
      (by rw [hsame, hclosed]; simpa [Rules.lengthOf] using hfits.not_exceeds)
      (by rw [hsame, hmessage]; exact hfits.text) hbytes
    rw [hsame, hmessage] at hframes
    exact hframes

/-- A control message that is too long for its frame makes a connection fail. -/
theorem AtFrame.tooLong (h : AtFrame options limit r) {sending : Sending}
    (hlength : sending.message.data.length < 1 <<< 63) (hcontrol : sending.message.isControl = true)
    (hlong : maxControlPayload < sending.message.data.length)
    (hmasked : options.requireMask = true → sending.keys 0 ≠ none)
    (hbytes : r.pending.bytes = sending.bytes ++ rest) :
    ∃ s, Runs r [] (.failed (.protocol (.controlTooLong sending.message.data.length))) s := by
  have hrequire : r.decoder.context.options.requireMask = true → sending.keys 0 ≠ none := by
    rw [h.sound.options_eq]
    exact hmasked
  have htrial := h.trial
  let frame : Frame := ⟨true, sending.message.op, sending.keys 0, sending.message.data⟩
  have hbytes' : r.pending.bytes = (WireFrame.ofFrame frame hlength).bytes ++ rest := by
    rw [hbytes, Sending.bytes_of_control hcontrol, WireFrame.bytes_ofFrame]
  have hbegin : r.decoder.context.beginFrame (WireFrame.ofFrame frame hlength).first
      (WireFrame.ofFrame frame hlength).second (WireFrame.ofFrame frame hlength).length
      (WireFrame.ofFrame frame hlength).mask =
        .error (.controlTooLong sending.message.data.length) :=
    WireFrame.beginFrame_ofFrame_of_long hlength hrequire hcontrol rfl hlong
  rw [hbytes', Decoder.readHeader_bytes, hbegin] at htrial
  have hresult : r.trial.result =
      .error (.protocol (.controlTooLong sending.message.data.length)) := by
    rw [htrial]
    rfl
  have hpass := pass_of_error hresult
  rw [show r.trial.replies = [] by rw [htrial]; rfl] at hpass
  exact ⟨_, .last hpass (by simp)⟩

/-- Encoded messages, one behind the other, are taken as a whole. -/
theorem AtFrame.messages (h : AtFrame options limit r) {sendings : List Sending}
    (hfits : ∀ sending ∈ sendings, sending.Fits options limit)
    (hclosed : r.decoder.context.openMessage = none)
    (hbytes : r.pending.bytes = sendings.flatMap Sending.bytes) :
    ∃ s, Runs r (sendings.map fun sending => .package (.message sending.message)) .waiting s ∧
      AtFrame options limit s ∧ s.pending.bytes = [] ∧
      s.decoder.context.openMessage = none := by
  induction sendings generalizing r with
  | nil =>
    obtain ⟨s, hpass, hat, hempty, hsame⟩ := h.wait_pass hbytes
    exact ⟨s, .last hpass (by simp), hat, hempty, by rw [hsame, hclosed]⟩
  | cons sending rest ih =>
    obtain ⟨s, hleads, hat, hrest, hclosed'⟩ :=
      h.message (hfits sending List.mem_cons_self) hclosed hbytes
    obtain ⟨t, hrun, hat', hempty, hdone⟩ :=
      ih hat (fun other hmem => hfits other (List.mem_cons_of_mem _ hmem)) hclosed' hrest
    exact ⟨t, hleads.runs hrun, hat', hempty, hdone⟩

/-- Decoding undoes encoding: messages that fit a connection, encoded one behind the other and cut
into any segments, are handed out in order, and nothing is left of them. -/
theorem feed_encoded {segments cut : List Bytes} {items : List (Item Package)}
    {sendings : List Sending} (hfeed : (fresh options limit).feed segments = (items, .waiting, r))
    (hphase : r.decoder.phase = .frames .header) (hempty : r.pending.bytes = [])
    (hclosed : r.decoder.context.openMessage = none)
    (hfits : ∀ sending ∈ sendings, sending.Fits options limit)
    (hcut : cut.flatten = sendings.flatMap Sending.bytes) :
    ∃ s, r.feed cut =
        (sendings.map fun sending => .package (.message sending.message), .waiting, s) ∧
      s.pending.bytes = [] ∧ s.decoder.phase = .frames .header ∧
      s.decoder.context.openMessage = none := by
  obtain ⟨hat, hbytes⟩ := atFrame_of_feed hfeed hphase hempty cut.flatten
  obtain ⟨t, hruns, hat', hnone, hdone⟩ := hat.messages hfits hclosed (hbytes.trans hcut)
  exact feed_to_frame hfeed hruns hat' hnone hdone

/-- A text of two bytes in two masked frames, and an empty ping. -/
def splitText : List Sending :=
  [⟨⟨.text, [0x68, 0x69]⟩, 1, fun index => some ⟨1, 2, 3, UInt8.ofNat index⟩⟩,
    ⟨⟨.ping, []⟩, 1, fun _ => some ⟨5, 6, 7, 8⟩⟩]

theorem fits_splitText : ∀ sending ∈ splitText, sending.Fits {} 80 := by
  intro sending hmem
  rcases List.mem_cons.1 hmem with rfl | hmem
  · exact ⟨by decide, fun _ => by decide, fun _ => by decide, by decide, .inr (by decide),
      fun _ _ => by simp⟩
  · obtain rfl := List.mem_singleton.1 hmem
    exact ⟨by decide, fun _ => by decide, fun _ => by decide, by decide, .inr (by decide),
      fun _ _ => by simp⟩

/-- Cut in the midst of the first masking key, the text and the ping come back. -/
theorem feed_splitText :
    ∃ items r s, (fresh {} 80).feed [acceptedRequest] = (items, .waiting, r) ∧
      r.decoder.phase = .frames .header ∧ r.pending.bytes = [] ∧
      r.decoder.context.openMessage = none ∧
      r.feed [(splitText.flatMap Sending.bytes).take 3, (splitText.flatMap Sending.bytes).drop 3] =
        ([.package (.message ⟨.text, [0x68, 0x69]⟩), .package (.message ⟨.ping, []⟩)],
          .waiting, s) := by
  have hcut : [(splitText.flatMap Sending.bytes).take 3,
      (splitText.flatMap Sending.bytes).drop 3].flatten = splitText.flatMap Sending.bytes := by
    simp
  obtain ⟨items, r, hfeed, hphase, hempty, hclosed⟩ := feed_acceptedRequest
  obtain ⟨s, hfed, _⟩ := feed_encoded hfeed hphase hempty hclosed fits_splitText hcut
  exact ⟨items, r, s, hfeed, hphase, hempty, hclosed, hfed⟩

/-! ## Encoders -/

/-- An encoder that writes frames of at most `maxPayload` payload bytes with some masks. -/
inductive Encoder.WritesFrames : Encoder → Nat → (Nat → Option MaskKey) → Prop where
  | server (maxPayload : Nat) : WritesFrames (.server maxPayload) maxPayload unmasked
  | client (maxPayload : Nat) (keys : Nat → MaskKey) :
    WritesFrames (.client maxPayload keys) maxPayload fun index => some (keys index)

/-- An encoder writes a message in frames that fit a connection. -/
def Encoder.Serves (options : WebSocketOptions) (limit : Nat) (encoder : Encoder)
    (message : Message) : Prop :=
  ∃ maxPayload keys, encoder.WritesFrames maxPayload keys ∧
    Sending.Fits options limit ⟨message, maxPayload, keys⟩

theorem Encoder.Serves.exists_sending {encoder : Encoder} {message : Message}
    (h : encoder.Serves options limit message) :
    ∃ sending : Sending, sending.Fits options limit ∧ sending.message = message ∧
      ∀ buffer, (encoder.encode buffer message) =
        (buffer ++ sending.bytes, .ok sending.bytes.length) := by
  obtain ⟨maxPayload, keys, hframes, hfits⟩ := h
  refine ⟨_, hfits, rfl, fun buffer => ?_⟩
  rw [encode_eq]
  cases hframes <;> rfl

variable {segments cut : List Bytes} {items : List (Item Package)} {buffer : Bytes}

/-- What some encoders write behind each other is what the messages are as they are sent. -/
theorem exists_sendings {encodings : List (Encoder × Message)}
    (hserves : ∀ encoding ∈ encodings, encoding.1.Serves options limit encoding.2) :
    ∃ sendings : List Sending, (∀ sending ∈ sendings, sending.Fits options limit) ∧
      sendings.map Sending.message = encodings.map Prod.snd ∧
      ∀ buffer, encodings.foldl (fun buffer encoding =>
          (encoding.1.encode buffer encoding.2).1) buffer =
        buffer ++ sendings.flatMap Sending.bytes := by
  induction encodings with
  | nil => exact ⟨[], List.forall_mem_nil _, rfl, fun buffer => (List.append_nil buffer).symm⟩
  | cons encoding rest ih =>
    obtain ⟨hfirst, hothers⟩ := List.forall_mem_cons.1 hserves
    obtain ⟨sending, hfits, hmessage, hwrites⟩ := hfirst.exists_sending
    obtain ⟨sendings, hall, hmessages, hwritten⟩ := ih hothers
    refine ⟨sending :: sendings, List.forall_mem_cons.2 ⟨hfits, hall⟩, ?_, fun buffer => ?_⟩
    · rw [List.map_cons, List.map_cons, hmessage, hmessages]
    · rw [List.foldl_cons, hwrites, hwritten, List.flatMap_cons, List.append_assoc]

/-- What encoders of frames write for some messages, one behind the other and each with an encoder
of its own, comes back from every cut as these messages, and nothing is left of it. -/
theorem feed_encode {encodings : List (Encoder × Message)}
    (hfeed : (fresh options limit).feed segments = (items, .waiting, r))
    (hphase : r.decoder.phase = .frames .header) (hempty : r.pending.bytes = [])
    (hclosed : r.decoder.context.openMessage = none)
    (hserves : ∀ encoding ∈ encodings, encoding.1.Serves options limit encoding.2)
    (hcut :
      encodings.foldl (fun buffer encoding => (encoding.1.encode buffer encoding.2).1) buffer =
        buffer ++ cut.flatten) :
    ∃ s, r.feed cut =
        (encodings.map fun encoding => .package (.message encoding.2), .waiting, s) ∧
      s.pending.bytes = [] ∧ s.decoder.phase = .frames .header ∧
      s.decoder.context.openMessage = none := by
  obtain ⟨sendings, hfits, hmessages, hwritten⟩ := exists_sendings hserves
  rw [hwritten, List.append_cancel_left_eq] at hcut
  obtain ⟨hat, hbytes⟩ := atFrame_of_feed hfeed hphase hempty cut.flatten
  obtain ⟨t, hruns, hat', hnone, hdone⟩ := hat.messages hfits hclosed (hbytes.trans hcut.symm)
  have hitems : (sendings.map fun sending => Item.package (Package.message sending.message)) =
      encodings.map fun encoding => .package (.message encoding.2) := by
    have hsame :=
      congrArg (List.map fun message => Item.package (Package.message message)) hmessages
    rwa [List.map_map, List.map_map] at hsame
  rw [← hitems]
  exact feed_to_frame hfeed hruns hat' hnone hdone

/-- So it is with one encoder for all messages. -/
theorem feed_encodeAll {encoder : Encoder} {messages : List Message}
    (hfeed : (fresh options limit).feed segments = (items, .waiting, r))
    (hphase : r.decoder.phase = .frames .header) (hempty : r.pending.bytes = [])
    (hclosed : r.decoder.context.openMessage = none)
    (hserves : ∀ message ∈ messages, encoder.Serves options limit message)
    (hcut : (encoder.encodeAll buffer messages).1 = buffer ++ cut.flatten) :
    ∃ s, r.feed cut = (messages.map fun message => .package (.message message), .waiting, s) ∧
      s.pending.bytes = [] ∧ s.decoder.phase = .frames .header ∧
      s.decoder.context.openMessage = none := by
  have hserves' : ∀ encoding ∈ messages.map (encoder, ·),
      encoding.1.Serves options limit encoding.2 := by
    intro encoding hmem
    obtain ⟨message, hmessage, rfl⟩ := List.mem_map.1 hmem
    exact hserves message hmessage
  have hcut' : (messages.map (encoder, ·)).foldl (fun buffer encoding =>
      (encoding.1.encode buffer encoding.2).1) buffer = buffer ++ cut.flatten := by
    rw [List.foldl_map, ← encoder.encodeAll_eq_foldl, hcut]
  obtain ⟨s, hfed, hs⟩ := feed_encode hfeed hphase hempty hclosed hserves' hcut'
  rw [List.map_map] at hfed
  exact ⟨s, hfed, hs⟩

end FramedChannel.WebSocket
