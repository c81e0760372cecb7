import FramedChannel.Proofs.WebSocket.Dialogue
import FramedChannel.Proofs.WebSocket.Fragments
import FramedChannel.Proofs.WebSocket.Upgraded

/-!
# Draft-00 messages there and back

Draft-00 has no lengths.  A message ends at a mark, so it has to be kept out of
the message.

* `mark_not_mem_of_isText` says that no text has the mark of texts inside.
* `Message.IsDraft` are the messages that draft-00 can carry, and
  `encodeAll_draft` are the bytes of some messages, with those left out that it
  cannot carry.
* `AtMark.carried` is one message, and `feed_draft` a list of them.
-/

namespace FramedChannel

/-! ## The mark -/

namespace Utf8

/-- No text has the mark inside. -/
theorem mark_not_mem_of_isText {bytes : Bytes} (h : isText bytes = true) : 0xFF ∉ bytes := by
  intro hmem
  cases hdecode : decode bytes with
  | error fault =>
    rw [isText, hdecode] at h
    cases h
  | ok text =>
    rw [← encode_of_decode hdecode, encode] at hmem
    obtain ⟨c, _, hc⟩ := List.mem_flatMap.1 hmem
    have hlt := toNat_lt_of_mem_encodeChar hc
    revert hlt
    decide

end Utf8

namespace WebSocket

open Reassembly

/-! ## Encoding -/

/-- A message that draft-00 can carry. -/
def Message.IsDraft (message : Message) : Prop :=
  message.op = .close ∨ message.op = .text ∧ Utf8.isText message.data = true

instance (message : Message) : Decidable message.IsDraft :=
  inferInstanceAs (Decidable (_ ∨ _))

/-- What draft-00 carries of a message.  A close has no data. -/
def Message.bare (message : Message) : Message :=
  if message.op = .close then ⟨.close, []⟩ else message

/-- The bytes of a message, if there are any. -/
def Message.draftBytes (message : Message) : Bytes :=
  (encodeDraft message).toOption.getD []

variable {message : Message} {buffer : Bytes}

theorem Message.IsDraft.cases (h : message.IsDraft) :
    message.op = .close ∧ message.bare = ⟨.close, []⟩ ∧ encodeDraft message = .ok [0xFF, 0x00] ∨
      ∃ data, message = ⟨.text, data⟩ ∧ Utf8.isText data = true ∧ message.bare = message ∧
        encodeDraft message = .ok (0x00 :: data ++ [0xFF]) := by
  obtain ⟨op, data⟩ := message
  obtain hop | ⟨hop, htext⟩ := h
  · cases hop
    exact .inl ⟨rfl, rfl, rfl⟩
  · cases hop
    exact .inr ⟨data, rfl, htext, rfl, if_pos htext⟩

/-- Draft-00 carries no other messages. -/
theorem encodeDraft_of_not_isDraft (h : ¬ message.IsDraft) :
    ∃ error, encodeDraft message = .error error := by
  obtain ⟨op, data⟩ := message
  rw [Message.IsDraft, not_or, not_and] at h
  cases op with
  | close => exact absurd rfl h.1
  | text => exact ⟨_, if_neg (h.2 rfl)⟩
  | continuation | binary | ping | pong => exact ⟨_, rfl⟩

theorem encode_draft (buffer : Bytes) (message : Message) :
    Encoder.draft.encode buffer message =
      match encodeDraft message with
      | .ok bytes => (buffer ++ bytes, .ok bytes.length)
      | .error error => (buffer, .error error) :=
  Encoder.draft.encode_eq buffer message

theorem encode_of_isDraft (h : message.IsDraft) (buffer : Bytes) :
    Encoder.draft.encode buffer message =
      (buffer ++ message.draftBytes, .ok message.draftBytes.length) := by
  rw [encode_draft, Message.draftBytes]
  obtain ⟨_, _, hbytes⟩ | ⟨_, _, _, _, hbytes⟩ := h.cases <;> rw [hbytes] <;> rfl

/-- A call that fails leaves the buffer. -/
theorem encode_of_not_isDraft (h : ¬ message.IsDraft) (buffer : Bytes) :
    ∃ error, Encoder.draft.encode buffer message = (buffer, .error error) := by
  obtain ⟨error, herror⟩ := encodeDraft_of_not_isDraft h
  rw [encode_draft, herror]
  exact ⟨error, rfl⟩

/-- Calls that fail leave no trace between the others. -/
theorem encodeAll_draft (buffer : Bytes) (messages : List Message) :
    (Encoder.draft.encodeAll buffer messages).1 =
        buffer ++ (messages.filter (·.IsDraft)).flatMap Message.draftBytes ∧
      ((∀ result ∈ (Encoder.draft.encodeAll buffer messages).2, ∃ count, result = .ok count) →
        ∀ message ∈ messages, message.IsDraft) := by
  induction messages generalizing buffer with
  | nil => exact ⟨(List.append_nil buffer).symm, fun _ _ hmem => by cases hmem⟩
  | cons message rest ih =>
    rw [Encoder.encodeAll]
    by_cases hdraft : message.IsDraft
    · obtain ⟨hbytes, hall⟩ := ih (buffer ++ message.draftBytes)
      rw [encode_of_isDraft hdraft, List.filter_cons_of_pos (by simpa using hdraft)]
      dsimp only
      refine ⟨?_, fun hok => List.forall_mem_cons.2 ⟨hdraft, hall ?_⟩⟩
      · rw [hbytes, List.flatMap_cons, List.append_assoc]
      · exact (List.forall_mem_cons.1 hok).2
    · obtain ⟨hbytes, _⟩ := ih buffer
      obtain ⟨error, herror⟩ := encode_of_not_isDraft hdraft buffer
      rw [herror, List.filter_cons_of_neg (by simpa using hdraft)]
      dsimp only
      refine ⟨hbytes, fun hok => ?_⟩
      obtain ⟨_, hcount⟩ := (List.forall_mem_cons.1 hok).1
      cases hcount

/-! ## Decoding -/

/-- A connection in front of a mark, without a limit. -/
structure AtMark (r : Reassembly Decoder) : Prop where
  phase : r.decoder.phase = .draftFrames .start
  next : r.decoder.next = none
  limit : r.limit = 0

variable {r : Reassembly Decoder} {rest : Bytes}

theorem AtMark.fits (h : AtMark r) (length : Nat) : Fits r.limit length :=
  .inl h.limit

/-- The mark in front of a message says what the message is. -/
theorem AtMark.begin_pass (h : AtMark r) {mark : UInt8} {part : DraftPart}
    (hbytes : r.pending.bytes = mark :: rest)
    (hmark : r.decoder.readMark (mark :: rest) =
      .progress { r.decoder with phase := .draftFrames part } 1) :
    ∃ s, r.pass = ([], .again, s) ∧ s.decoder = { r.decoder with phase := .draftFrames part } ∧
      s.pending.bytes = rest ∧ s.limit = 0 := by
  have htrial : r.trial = .progress { r.decoder with phase := .draftFrames part } 1 := by
    rw [trial, hbytes]
    exact (Decoder.attempt_mark h.phase _).trans hmark
  have hfront : r.pending.bytes = [mark] ++ rest := hbytes
  obtain ⟨s, hpass, hdecoder, hrest, hlimit⟩ :=
    pass_of_used htrial rfl hfront rfl Nat.one_pos (h.fits _)
  refine ⟨s, hpass, ?_, hrest, hlimit.trans h.limit⟩
  rw [hdecoder]
  exact behind_of_nothing h.next rfl

/-- The mark behind a message ends it. -/
theorem end_pass {d : Decoder} {message : Message} {front : Bytes} (hpos : 0 < front.length)
    (htrial : r.trial = .complete { d with phase := .draftFrames .start } front.length
      (.message message))
    (hnext : d.next = none) (hbytes : r.pending.bytes = front ++ rest) (hlimit : r.limit = 0) :
    ∃ s, r.pass = ([.package (.message message)], .again, s) ∧ AtMark s ∧
      s.pending.bytes = rest := by
  obtain ⟨s, hpass, hdecoder, hrest, hsame⟩ := pass_of_used htrial rfl hbytes rfl hpos (.inl hlimit)
  rw [behind_of_package hnext rfl] at hdecoder
  refine ⟨s, hpass, ⟨?_, ?_, hsame.trans hlimit⟩, hrest⟩
  · rw [hdecoder]
    rfl
  · rw [hdecoder]
    exact hnext

/-- A search finds the mark that ends a message. -/
theorem split_of_mark {mark : UInt8} {front : Bytes} (h : mark ∉ front) (rest : Bytes) :
    Terminated.split { terminator := [mark] } (front ++ mark :: rest) =
      ({ terminator := [mark] }, some (front, (front ++ [mark]).length)) := by
  rw [Terminated.split]
  dsimp only
  rw [Bytes.find_byte h]
  dsimp only
  rw [List.take_left, List.length_append]
  rfl

theorem AtMark.text (h : AtMark r) {data : Bytes} (htext : Utf8.isText data = true)
    (hbytes : r.pending.bytes = 0x00 :: (data ++ 0xFF :: rest)) :
    ∃ s, Leads r [.package (.message ⟨.text, data⟩)] s ∧ AtMark s ∧ s.pending.bytes = rest := by
  obtain ⟨s, hpass, hdecoder, hrest, hlimit⟩ := h.begin_pass hbytes rfl
  have htrial : s.trial = .complete { r.decoder with phase := .draftFrames .start }
      (data ++ [0xFF]).length (.message ⟨.text, data⟩) := by
    rw [trial, hrest, hdecoder]
    refine (Decoder.attempt_draftText rfl _).trans ?_
    rw [Decoder.readDraftText, split_of_mark (Utf8.mark_not_mem_of_isText htext)]
    exact if_pos htext
  have hfront : s.pending.bytes = data ++ [0xFF] ++ rest := by
    rw [hrest, List.append_assoc]
    rfl
  obtain ⟨t, hpass', hat, hleft⟩ := end_pass (by simp) htrial h.next hfront hlimit
  exact ⟨t, (leads_of_pass hpass).trans (leads_of_pass hpass'), hat, hleft⟩

theorem AtMark.close (h : AtMark r) (hbytes : r.pending.bytes = 0xFF :: 0x00 :: rest) :
    ∃ s, Leads r [.package (.message ⟨.close, []⟩)] s ∧ AtMark s ∧ s.pending.bytes = rest := by
  obtain ⟨s, hpass, hdecoder, hrest, hlimit⟩ := h.begin_pass hbytes rfl
  have htrial : s.trial = .complete { r.decoder with phase := .draftFrames .start }
      ([0x00] : Bytes).length (.message ⟨.close, []⟩) := by
    rw [trial, hrest, hdecoder]
    refine (Decoder.attempt_draftClose rfl _).trans ?_
    have hsplit := split_of_mark (List.not_mem_nil (a := (0x00 : UInt8))) rest
    rw [List.nil_append] at hsplit
    rw [Decoder.readDraftClose, hsplit]
    rfl
  have hpos : 0 < ([0x00] : Bytes).length := Nat.one_pos
  obtain ⟨t, hpass', hat, hleft⟩ := end_pass hpos htrial h.next hrest hlimit
  exact ⟨t, (leads_of_pass hpass).trans (leads_of_pass hpass'), hat, hleft⟩

/-- What was encoded is taken as a whole. -/
theorem AtMark.carried (h : AtMark r) (hdraft : message.IsDraft)
    (hbytes : r.pending.bytes = message.draftBytes ++ rest) :
    ∃ s, Leads r [.package (.message message.bare)] s ∧ AtMark s ∧ s.pending.bytes = rest := by
  obtain ⟨_, hbare, hencoded⟩ | ⟨data, rfl, htext, hbare, hencoded⟩ := hdraft.cases
  · rw [Message.draftBytes, hencoded] at hbytes
    rw [hbare]
    exact h.close hbytes
  · rw [Message.draftBytes, hencoded] at hbytes
    rw [hbare]
    refine h.text htext (hbytes.trans ?_)
    simp [Except.toOption]

/-- Encoded messages, one behind the other, are taken as a whole. -/
theorem AtMark.messages (h : AtMark r) {messages : List Message}
    (hdraft : ∀ message ∈ messages, message.IsDraft)
    (hbytes : r.pending.bytes = messages.flatMap Message.draftBytes) :
    ∃ s, Runs r (messages.map fun message => .package (.message message.bare)) .waiting s ∧
      AtMark s ∧ s.pending.bytes = [] := by
  induction messages generalizing r with
  | nil =>
    have hnone : r.pending.bytes = [] := hbytes
    have htrial : r.trial = .needMore r.decoder := by
      rw [trial, hnone]
      exact Decoder.attempt_mark h.phase []
    obtain ⟨s, hruns, hdecoder, hleft⟩ := runs_of_needMore htrial h.next (h.fits _)
    refine ⟨s, hruns, ⟨?_, ?_, hruns.limit_eq.trans h.limit⟩, hleft.trans hnone⟩
    · rw [hdecoder]
      exact h.phase
    · rw [hdecoder]
      exact h.next
  | cons message rest ih =>
    obtain ⟨hfirst, hothers⟩ := List.forall_mem_cons.1 hdraft
    obtain ⟨s, hleads, hat, hrest⟩ := h.carried hfirst hbytes
    obtain ⟨t, hruns, hat', hleft⟩ := ih hat hothers hrest
    exact ⟨t, hleads.runs hruns, hat', hleft⟩

/-- Decoding undoes encoding in draft-00.  Messages that are encoded one behind the other and cut
into any segments are handed out in order, each close without its data, and nothing is left of them.
If no call fails these are all messages.  A call fails for a message that draft-00 cannot carry, and
for no other, and then it leaves the buffer. -/
theorem feed_draft {options : WebSocketOptions} {segments cut : List Bytes}
    {items : List (Item Package)} {messages : List Message}
    (hfeed : (fresh options 0).feed segments = (items, .waiting, r))
    (hphase : r.decoder.phase = .draftFrames .start) (hempty : r.pending.bytes = [])
    (hcut : (Encoder.draft.encodeAll buffer messages).1 = buffer ++ cut.flatten) :
    (∃ s, r.feed cut =
        ((messages.filter (·.IsDraft)).map fun message => .package (.message message.bare),
          .waiting, s) ∧
      s.pending.bytes = [] ∧ s.decoder.phase = .draftFrames .start) ∧
    ((∀ result ∈ (Encoder.draft.encodeAll buffer messages).2, ∃ count, result = .ok count) →
      messages.filter (·.IsDraft) = messages) ∧
    ∀ (message : Message) (buffer : Bytes),
      if message.IsDraft then ∃ count, (Encoder.draft.encode buffer message).2 = .ok count
      else ∃ error, Encoder.draft.encode buffer message = (buffer, .error error) := by
  obtain ⟨hready, hsound, _⟩ := reached_of_feed hfeed
  obtain ⟨hbytes, hall⟩ := encodeAll_draft buffer messages
  rw [hcut, List.append_cancel_left_eq] at hbytes
  have hat : AtMark (r.extend cut.flatten) := ⟨hphase, hready.next, hsound.limit_eq⟩
  refine ⟨?_, ?_, ?_⟩
  · obtain ⟨t, hruns, hat', hnone⟩ := hat.messages
      (fun message hmem => of_decide_eq_true (List.mem_filter.1 hmem).2)
      (by rw [bytes_extend, hempty, List.nil_append, hbytes])
    obtain ⟨s, hfed, hs⟩ := (feed_behind hfeed hruns).eq_of_waiting
    exact ⟨s, hfed, by rw [hs.bytes, hnone], by rw [hs.decoder, hat'.phase]⟩
  · intro hok
    exact List.filter_eq_self.2 fun message hmem => decide_eq_true (hall hok message hmem)
  · intro message buffer
    split_ifs with hdraft
    · exact ⟨_, congrArg Prod.snd (encode_of_isDraft hdraft buffer)⟩
    · exact encode_of_not_isDraft hdraft buffer

/-- A request for draft-00 with its nonce. -/
def challengedRequest : Bytes :=
  Utf8.encode ("GET / HTTP/1.1\r\nSec-WebSocket-Key1: 1 2\r\nSec-WebSocket-Key2: 3 4\r\n\r\n" ++
    "01234567")

/-- A text, a ping that draft-00 cannot carry, and a close with a status. -/
def farewell : List Message :=
  [⟨.text, [0x68, 0x69]⟩, ⟨.ping, []⟩, ⟨.close, [0x03, 0xE8]⟩]

/-- Cut in the midst of the text, the text and the close come back. -/
theorem feed_farewell :
    ∃ items r s, (fresh {} 0).feed [challengedRequest] = (items, .waiting, r) ∧
      r.decoder.phase = .draftFrames .start ∧ r.pending.bytes = [] ∧
      (Encoder.draft.encodeAll [0x2A] farewell).1 =
        [0x2A] ++ [[0x00, 0x68], [0x69, 0xFF, 0xFF, 0x00]].flatten ∧
      r.feed [[0x00, 0x68], [0x69, 0xFF, 0xFF, 0x00]] =
        ([.package (.message ⟨.text, [0x68, 0x69]⟩), .package (.message ⟨.close, []⟩)],
          .waiting, s) := by
  have hfed : ((fresh {} 0).feed [challengedRequest]).2.1 = .waiting ∧
      ((fresh {} 0).feed [challengedRequest]).2.2.decoder.phase = .draftFrames .start ∧
      ((fresh {} 0).feed [challengedRequest]).2.2.pending.bytes = [] := by
    decide +kernel
  have hfeed : (fresh {} 0).feed [challengedRequest] =
      (((fresh {} 0).feed [challengedRequest]).1, .waiting,
        ((fresh {} 0).feed [challengedRequest]).2.2) := by
    rw [← hfed.1]
  have hcut : (Encoder.draft.encodeAll [0x2A] farewell).1 =
      [0x2A] ++ [[0x00, 0x68], [0x69, 0xFF, 0xFF, 0x00]].flatten := by decide +kernel
  obtain ⟨⟨s, hdecoded, _⟩, _⟩ := feed_draft hfeed hfed.2.1 hfed.2.2 hcut
  refine ⟨_, _, s, hfeed, hfed.2.1, hfed.2.2, hcut, hdecoded.trans ?_⟩
  have hitems : (farewell.filter (·.IsDraft)).map
      (fun message => Item.package (Package.message message.bare)) =
        [.package (.message ⟨.text, [0x68, 0x69]⟩), .package (.message ⟨.close, []⟩)] := by
    decide +kernel
  rw [hitems]

end WebSocket

end FramedChannel
