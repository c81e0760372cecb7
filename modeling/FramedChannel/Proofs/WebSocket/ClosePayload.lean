import FramedChannel.Proofs.Text.Utf8
import FramedChannel.WebSocket.Session

/-!
# Close payloads

A close payload is empty, or it states a code and a reason, or it is illegal.

* `data_close_iff` takes the data of a close message apart.
* `Closing.States` and `Closing.IsIllegal` are the second case and the third,
  and `Closing.parsed` says what each of the three is parsed to.
* `RepliesWith` is a reply of a session that a peer can parse, and
  `close_payloads` gives the code of the reply to each payload.
-/

namespace FramedChannel.WebSocket

variable {payload : Bytes} {code : UInt16} {reason : String}

/-! ## The data of a close message -/

/-- Two bytes are the code that they write. -/
theorem ofNat_code_iff {high low : UInt8} :
    Bytes.ofNat 2 code.toNat = [high, low] ↔
      UInt16.ofNat (Bytes.toNat [high, low]) = code := by
  constructor
  · intro h
    have hlt : code.toNat < 1 <<< (8 * 2) := code.toNat_lt
    rw [← h, Bytes.toNat_ofNat, Nat.mod_eq_of_lt hlt, UInt16.ofNat_toNat]
  · rintro rfl
    rw [UInt16.toNat_ofNat_of_lt' (Bytes.toNat_lt [high, low])]
    exact Bytes.ofNat_toNat [high, low]

/-- The data of a close message is the two bytes of its code with the reason behind. -/
theorem data_close_iff {high low : UInt8} {rest : Bytes} :
    high :: low :: rest = (Message.close code reason).data ↔
      UInt16.ofNat (Bytes.toNat [high, low]) = code ∧ Utf8.decode rest = .ok reason := by
  rw [← ofNat_code_iff, Utf8.decode_eq_ok_iff]
  constructor
  · intro h
    have hsplit : [high, low] ++ rest = Bytes.ofNat 2 code.toNat ++ Utf8.encode reason := h
    obtain ⟨hcode, hrest⟩ := List.append_inj hsplit (Bytes.length_ofNat 2 code.toNat).symm
    exact ⟨hcode.symm, hrest.symm⟩
  · rintro ⟨hcode, hrest⟩
    rw [Message.close, hcode, hrest]
    rfl

namespace Closing

/-! ## Parsing -/

/-- The payload is the data of a close message with a code that a peer may send. -/
def States (payload : Bytes) (code : UInt16) (reason : String) : Prop :=
  payload = (Message.close code reason).data ∧ isAllowed code = true

/-- The payload is neither empty nor states a code and a reason. -/
def IsIllegal (payload : Bytes) : Prop :=
  payload ≠ [] ∧ ∀ code reason, ¬ States payload code reason

/-- What a payload is parsed to. -/
inductive Parsed (payload : Bytes) : Except Error (Option UInt16 × String) → Prop where
  | empty (hempty : payload = []) : Parsed payload (.ok (none, ""))
  | stated {code : UInt16} {reason : String} (hstates : States payload code reason) :
      Parsed payload (.ok (some code, reason))
  | illegal (hillegal : IsIllegal payload) (violation : Violation) :
      Parsed payload (.error (.protocol violation))

theorem parse_of_states (h : States payload code reason) :
    parse payload = .ok (some code, reason) := by
  obtain ⟨hdata, hallowed⟩ := h
  obtain ⟨high, low, hpair⟩ : ∃ high low, Bytes.ofNat 2 code.toNat = [high, low] := ⟨_, _, rfl⟩
  have hpayload : payload = high :: low :: Utf8.encode reason := by
    rw [hdata, Message.close, hpair]
    rfl
  rw [hpayload, parse, ofNat_code_iff.1 hpair, if_pos hallowed, Utf8.decode_encode]

theorem parse_of_isIllegal (h : IsIllegal payload) :
    ∃ violation, parse payload = .error (.protocol violation) := by
  obtain ⟨hne, hstates⟩ := h
  match payload with
  | [] => exact absurd rfl hne
  | [_] => exact ⟨_, rfl⟩
  | high :: low :: rest =>
    rw [parse]
    by_cases hallowed : isAllowed (UInt16.ofNat (Bytes.toNat [high, low])) = true
    · cases hdecode : Utf8.decode rest with
      | ok reason => exact absurd ⟨data_close_iff.2 ⟨rfl, hdecode⟩, hallowed⟩ (hstates _ reason)
      | error fault => exact ⟨_, if_pos hallowed⟩
    · exact ⟨_, if_neg hallowed⟩

theorem parsed (payload : Bytes) : Parsed payload (parse payload) := by
  by_cases hempty : payload = []
  · rw [hempty]
    exact .empty rfl
  by_cases hstates : ∃ code reason, States payload code reason
  · obtain ⟨code, reason, hstates⟩ := hstates
    rw [parse_of_states hstates]
    exact .stated hstates
  · have hillegal : IsIllegal payload :=
      ⟨hempty, fun code reason h => hstates ⟨code, reason, h⟩⟩
    obtain ⟨violation, herror⟩ := parse_of_isIllegal hillegal
    rw [herror]
    exact .illegal hillegal violation

theorem parse_eq_none_iff : parse payload = .ok (none, "") ↔ payload = [] := by
  refine ⟨fun h => ?_, fun h => h ▸ rfl⟩
  have hparsed := parsed payload
  rw [h] at hparsed
  cases hparsed with
  | empty hempty => exact hempty

theorem parse_eq_some_iff :
    parse payload = .ok (some code, reason) ↔ States payload code reason := by
  refine ⟨fun h => ?_, parse_of_states⟩
  have hparsed := parsed payload
  rw [h] at hparsed
  cases hparsed with
  | stated hstates => exact hstates

theorem parse_eq_error_iff :
    (∃ violation, parse payload = .error (.protocol violation)) ↔ IsIllegal payload := by
  refine ⟨?_, parse_of_isIllegal⟩
  rintro ⟨violation, h⟩
  have hparsed := parsed payload
  rw [h] at hparsed
  cases hparsed with
  | illegal hillegal => exact hillegal

end Closing

/-! ## The reply -/

/-- The reply of a session to a payload is a close message with a code and no reason, and a peer
that parses it finds that. -/
structure RepliesWith (version : Version) (payload : Bytes) (code : UInt16) : Prop where
  reply : Session.closeReply (some version) payload = Message.close code ""
  parse : Closing.parse (Session.closeReply (some version) payload).data = .ok (some code, "")

variable {version : Version}

theorem repliesWith_of_isAllowed
    (hreply : Session.closeReply (some version) payload = Message.close code "")
    (hallowed : Closing.isAllowed code = true) : RepliesWith version payload code :=
  ⟨hreply, by rw [hreply]; exact Closing.parse_of_states ⟨rfl, hallowed⟩⟩

theorem closeReply_framed (h : version.isFramed = true) (payload : Bytes) :
    Session.closeReply (some version) payload =
      match Closing.parse payload with
      | .ok (some code, _) => Message.close code ""
      | .ok (none, _) => Message.close CloseStatus.normalClosure.code ""
      | .error _ => Message.close CloseStatus.protocolError.code "" := by
  cases version with
  | hybi00 => cases h
  | hybi10 | rfc6455 => rfl

/-- Close payloads are parsed to what they state, and the reply to each is legal. -/
theorem close_payloads (payload : Bytes) :
    (Closing.parse payload = .ok (none, "") ↔ payload = []) ∧
      (∀ code reason, Closing.parse payload = .ok (some code, reason) ↔
        payload = (Message.close code reason).data ∧ Closing.isAllowed code = true) ∧
      ((∃ violation, Closing.parse payload = .error (.protocol violation)) ↔
        payload ≠ [] ∧ ∀ code reason,
          ¬ (payload = (Message.close code reason).data ∧ Closing.isAllowed code = true)) ∧
      ∀ version : Version, version.isFramed = true →
        (payload = [] → RepliesWith version payload 1000) ∧
          (∀ code reason,
            payload = (Message.close code reason).data ∧ Closing.isAllowed code = true →
              RepliesWith version payload code) ∧
          ((∃ violation, Closing.parse payload = .error (.protocol violation)) →
            RepliesWith version payload 1002) := by
  refine ⟨Closing.parse_eq_none_iff, fun _ _ => Closing.parse_eq_some_iff,
    Closing.parse_eq_error_iff, fun version hframed => ⟨fun hempty => ?empty,
      fun code reason hstates => ?states, fun hillegal => ?illegal⟩⟩
  case empty =>
    refine repliesWith_of_isAllowed ?_ (by decide)
    rw [closeReply_framed hframed, hempty]
    rfl
  case states =>
    refine repliesWith_of_isAllowed ?_ hstates.2
    rw [closeReply_framed hframed, Closing.parse_of_states hstates]
  case illegal =>
    obtain ⟨violation, herror⟩ := hillegal
    refine repliesWith_of_isAllowed ?_ (by decide)
    rw [closeReply_framed hframed, herror]
    rfl

/-- One byte is answered with a protocol error, and a code of an application with itself. -/
theorem close_payloads_framed :
    Version.rfc6455.isFramed = true ∧ RepliesWith .rfc6455 [0x03] 1002 ∧
      RepliesWith .rfc6455 (Message.close 3000 "bye").data 3000 :=
  ⟨rfl, ((close_payloads [0x03]).2.2.2 .rfc6455 rfl).2.2 ⟨_, rfl⟩,
    ((close_payloads (Message.close 3000 "bye").data).2.2.2 .rfc6455 rfl).2.1 3000 "bye"
      ⟨rfl, by decide⟩⟩

end FramedChannel.WebSocket
