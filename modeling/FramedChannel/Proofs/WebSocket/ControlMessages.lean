import FramedChannel.Proofs.Package.Handed
import FramedChannel.Proofs.WebSocket.Dialogue

/-!
# Control messages are short

Control frames are never put together from fragments, and their headers are
refused when they announce too much.  So no control message that the decoder
hands out has more bytes than one frame may carry.

* `Message.IsBrief` is the bound, and `Decoder.Brief` the invariant.
* `Attempt.Brief` is what an attempt owes, and `attempt_brief` says that every
  attempt keeps it.
* `brief_of_feed` is the result.
-/

namespace FramedChannel.WebSocket

open Reassembly

/-- A control message has no more bytes than a control frame may carry. -/
def Message.IsBrief (message : Message) : Prop :=
  message.isControl = true → message.data.length ≤ maxControlPayload

/-! ## The invariant -/

/-- No control frame opens a message. -/
def Context.Opens (context : Context) : Prop :=
  ∀ op, context.messageOp = some op → op.isControl = false

/-- The header of the current frame announces no long control frame. -/
def Context.Announces (context : Context) : Prop :=
  context.op.isControl = true → context.payloadLength ≤ maxControlPayload

/-- What holds of a decoder between two attempts. -/
structure Decoder.Brief (d : Decoder) : Prop where
  opens : d.context.Opens
  announces : d.phase = .frames .payload → d.context.Announces
  next : d.next ≠ some (.frames .payload)

/-- What an attempt owes: the invariant, and that its message is no long control message. -/
structure Attempt.Brief (a : Attempt Decoder Package) : Prop where
  state : a.state.Brief
  message : ∀ message, a.result = .ok (some (.message message)) → message.IsBrief

namespace Context

variable {context after : Context} {first second : UInt8} {length : Nat} {mask : Option MaskKey}
  {payload : Bytes}

theorem announces_of_beginFrame
    (h : context.beginFrame first second length mask = .ok after) : after.Announces := by
  obtain ⟨-, -, -, op, -, hfault, rfl⟩ := beginFrame_eq_ok_iff.1 h
  intro hcontrol
  have hop : op.isControl = true := hcontrol
  rw [frameFault, if_pos hop, controlFault] at hfault
  split at hfault
  · cases hfault
  · split at hfault
    · cases hfault
    · rename_i hshort
      exact Nat.not_lt.1 hshort

theorem Opens.of_beginFrame (h : context.Opens)
    (hbegin : context.beginFrame first second length mask = .ok after) : after.Opens := by
  obtain ⟨-, -, -, op, -, -, rfl⟩ := beginFrame_eq_ok_iff.1 hbegin
  exact h

theorem Opens.resolve (h : context.Opens) : (context.resolve payload).1.Opens := by
  intro op hop
  unfold Context.resolve at hop
  split at hop
  · exact h op hop
  · rename_i hdata
    split at hop
    · dsimp only at hop
      split at hop
      · exact h op hop
      · cases hop
        simpa using hdata
    · cases hopen : context.messageOp with
      | none =>
        rw [hopen] at hop
        dsimp only at hop
        split at hop <;> exact h op hop
      | some _ =>
        rw [hopen] at hop
        dsimp only at hop
        split at hop <;> cases hop

/-- A finished frame completes a control message of its own, or a message of the data frame that
opened it. -/
theorem Opens.brief_of_resolve (h : context.Opens)
    (hshort : context.op.isControl = true → payload.length ≤ maxControlPayload) {message : Message}
    (hresolve : (context.resolve payload).2 = .ok (some (.message message))) : message.IsBrief := by
  intro hcontrol
  unfold Context.resolve at hresolve
  split at hresolve
  · rename_i hop
    cases hresolve
    exact hshort hop
  · rename_i hdata
    split at hresolve
    · cases hresolve
    · exfalso
      cases hopen : context.messageOp with
      | none =>
        rw [hopen] at hresolve
        dsimp only at hresolve
        split at hresolve <;> cases hresolve
        exact hdata hcontrol
      | some op =>
        rw [hopen] at hresolve
        dsimp only at hresolve
        split at hresolve <;> cases hresolve
        have hfirst := h op hopen
        rw [Message.isControl] at hcontrol
        dsimp only at hcontrol
        rw [hfirst] at hcontrol
        cases hcontrol

end Context

/-! ## One attempt -/

namespace Decoder

variable {d : Decoder} {bytes : Bytes} {used : Nat}

/-- A decoder that is in no payload has no header to remember. -/
theorem Brief.of_phase (h : d.Brief) {phase : Phase} (hphase : phase ≠ .frames .payload) :
    Brief { d with phase } :=
  ⟨h.opens, fun habsurd => absurd habsurd hphase, h.next⟩

/-- An attempt that completes no message owes nothing but the invariant. -/
theorem brief_of_silent {a : Attempt Decoder Package} (h : a.state.Brief)
    (hsilent : ∀ message, a.result ≠ .ok (some (.message message))) : Attempt.Brief a :=
  ⟨h, fun message hresult => absurd hresult (hsilent message)⟩

theorem brief_needMore (h : d.Brief) : Attempt.Brief (.needMore d) :=
  brief_of_silent h nofun

theorem brief_progress (h : d.Brief) : Attempt.Brief (.progress d used) :=
  brief_of_silent h nofun

theorem brief_fail (h : d.Brief) (error : Error) : Attempt.Brief (.fail d used error) :=
  brief_of_silent h nofun

theorem brief_complete (h : d.Brief) {message : Message} (hbrief : message.IsBrief) :
    Attempt.Brief (.complete d used (.message message)) :=
  ⟨h, fun other hsame => by cases hsame; exact hbrief⟩

/-- The next phase is not the middle of a frame. -/
theorem brief_going {phase next : Phase} {context : Context} (hphase : phase ≠ .frames .payload)
    (hnext : next ≠ .frames .payload) (hopens : context.Opens) :
    Brief { phase, next := some next, context } :=
  ⟨hopens, fun habsurd => absurd habsurd hphase, fun habsurd => hnext (Option.some.inj habsurd)⟩

theorem readRequest_brief (h : d.Brief) (hphase : d.phase ≠ .frames .payload) (head : Bytes) :
    Attempt.Brief (d.readRequest head used) := by
  unfold readRequest
  split
  · exact brief_fail h _
  · split
    · exact brief_of_silent (brief_going hphase Phase.noConfusion h.opens) nofun
    · dsimp only
      split
      · exact brief_progress (brief_going hphase Phase.noConfusion h.opens)
      · split
        · exact brief_fail h _
        · exact brief_of_silent (brief_going hphase (by simp) h.opens) nofun

theorem readNonce_brief (h : d.Brief) (info : Option HandshakeInfo) :
    Attempt.Brief (d.readNonce info bytes) := by
  have htried : Brief { d with phase := .nonce none } := h.of_phase Phase.noConfusion
  unfold readNonce
  split
  · exact brief_needMore h
  · dsimp only
    split
    · exact brief_fail htried _
    · split
      · exact brief_fail htried _
      · exact brief_of_silent (brief_going Phase.noConfusion Phase.noConfusion h.opens) nofun

/-- The end of a frame leaves the decoder in front of the next one. -/
theorem brief_of_resolve {context : Context} {payload : Bytes} (h : d.Brief)
    (hphase : d.phase ≠ .frames .payload) (hopens : context.Opens)
    (hshort : context.op.isControl = true → payload.length ≤ maxControlPayload) :
    Attempt.Brief ⟨{ d with context := (context.resolve payload).1 }, used, [],
      (context.resolve payload).2⟩ :=
  ⟨⟨hopens.resolve, fun habsurd => absurd habsurd hphase, h.next⟩,
    fun _ hresult => hopens.brief_of_resolve hshort hresult⟩

theorem readHeader_brief (h : d.Brief) (hphase : d.phase = .frames .header) :
    Attempt.Brief (d.readHeader bytes) := by
  have hother : d.phase ≠ .frames .payload := by simp [hphase]
  unfold readHeader
  split
  · dsimp only
    split
    · exact brief_needMore h
    · split
      · exact brief_fail h _
      · rename_i hbegin
        have hopens := h.opens.of_beginFrame hbegin
        split
        · exact brief_of_resolve h hother hopens fun _ => Nat.zero_le _
        · exact brief_progress
            ⟨hopens, fun _ => Context.announces_of_beginFrame hbegin, h.next⟩
  · exact brief_needMore h

theorem readPayload_brief (h : d.Brief) (hphase : d.phase = .frames .payload) :
    Attempt.Brief (d.readPayload bytes) := by
  unfold readPayload
  dsimp only
  split
  · exact brief_needMore h
  · have hturned : Brief { d with phase := .frames .header } := h.of_phase (by simp)
    refine brief_of_resolve hturned (by simp) h.opens fun hcontrol => ?_
    rw [length_masked]
    exact (List.length_take_le _ _).trans (h.announces hphase hcontrol)

theorem readMark_brief (h : d.Brief) : Attempt.Brief (d.readMark bytes) := by
  unfold readMark
  split
  · exact brief_needMore h
  · split_ifs
    · exact brief_progress (h.of_phase Phase.noConfusion)
    · exact brief_progress (h.of_phase Phase.noConfusion)
    · exact brief_fail h _

theorem readDraftText_brief (h : d.Brief) (packages : Terminated) :
    Attempt.Brief (d.readDraftText packages bytes) := by
  unfold readDraftText
  split
  · exact brief_needMore (h.of_phase Phase.noConfusion)
  · split_ifs
    · have hdata : OpCode.isControl .text ≠ true := by decide
      exact brief_complete (h.of_phase Phase.noConfusion) fun hcontrol => absurd hcontrol hdata
    · exact brief_fail (h.of_phase Phase.noConfusion) _

theorem readDraftClose_brief (h : d.Brief) (packages : Terminated) :
    Attempt.Brief (d.readDraftClose packages bytes) := by
  unfold readDraftClose
  split
  · exact brief_needMore (h.of_phase Phase.noConfusion)
  · exact brief_complete (h.of_phase Phase.noConfusion) fun _ => Nat.zero_le _

/-- Every attempt keeps the invariant, and hands out no long control message. -/
theorem attempt_brief (h : d.Brief) (bytes : Bytes) : Attempt.Brief (d.attempt bytes) := by
  unfold attempt
  split
  · split
    · exact brief_needMore (h.of_phase Phase.noConfusion)
    · exact readRequest_brief (h.of_phase Phase.noConfusion) Phase.noConfusion _
  · exact readNonce_brief h _
  · exact readHeader_brief h ‹_›
  · exact readPayload_brief h ‹_›
  · exact readMark_brief h
  · exact readDraftText_brief h _
  · exact readDraftClose_brief h _
  · exact brief_progress h

theorem restart_ne_payload (phase : Phase) : restart phase ≠ .frames .payload := by
  cases phase <;> simp [restart]

/-- The state that decoding goes on with keeps the invariant. -/
theorem Brief.behind {a : Attempt Decoder Package} (h : a.state.Brief) {package : Option Package}
    (hresult : a.result = .ok package) : a.behind.Brief := by
  cases hnext : a.state.next with
  | some phase =>
    rw [behind_of_next hnext]
    refine ⟨h.opens, fun habsurd => ?_, nofun⟩
    exact absurd (hnext.trans (congrArg some habsurd)) h.next
  | none =>
    cases package with
    | none =>
      rw [behind_of_nothing hnext hresult]
      exact h
    | some package =>
      rw [behind_of_package hnext hresult]
      exact h.of_phase (restart_ne_payload _)

end Decoder

/-! ## All that is handed out -/

/-- Replies are no messages, and messages are brief. -/
def BriefItem : Item Package → Prop
  | .package (.message message) => message.IsBrief
  | _ => True

theorem vouches_brief : Vouches Decoder.Brief BriefItem where
  replies _ _ _ _ _ := trivial
  package d bytes package h hresult := by
    cases package with
    | message message => exact (Decoder.attempt_brief h bytes).message message hresult
    | _ => trivial
  behind _ bytes _ h hresult := (Decoder.attempt_brief h bytes).state.behind hresult

/-- No control message has more bytes than one frame may carry, whatever the segments are. -/
theorem brief_of_feed (options : WebSocketOptions) (limit : Nat) (segments : List Bytes)
    {message : Message}
    (hmem : .message message ∈ packagesOf ((fresh options limit).feed segments).1) :
    message.IsBrief := by
  have hfresh : (fresh options limit).decoder.Brief := ⟨nofun, nofun, nofun⟩
  obtain ⟨item, hitem, hsome⟩ := List.mem_filterMap.1 hmem
  have hgood := (vouches_brief.feed hfresh segments).items item hitem
  cases item with
  | reply bytes => cases hsome
  | package package =>
    cases hsome
    exact hgood

end FramedChannel.WebSocket
