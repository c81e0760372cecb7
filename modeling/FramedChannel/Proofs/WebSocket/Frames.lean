import FramedChannel.Proofs.WebSocket.Messages
import FramedChannel.Proofs.WebSocket.Segmentation

/-!
# Runs over frames

A connection that reads frames does with them what `Rules.interpret` says.

* `AtFrame` is the invariant in front of a frame.
* `AtFrame.step` is one frame: one pass for its header, and one for its payload
  if it has any.
* `AtFrame.interpret` is a list of frames.
-/

namespace FramedChannel.WebSocket

open Reassembly

variable {options : WebSocketOptions} {limit : Nat} {r : Reassembly Decoder} {frame : WireFrame}
  {op : OpCode} {rest : Bytes}

/-- The connection stands in front of a frame.  Its limit leaves room for every header. -/
structure AtFrame (options : WebSocketOptions) (limit : Nat) (r : Reassembly Decoder) : Prop where
  phase : r.decoder.phase = .frames .header
  next : r.decoder.next = none
  limit_eq : r.limit = limit
  sound : r.decoder.context.Sound options limit
  room : limit = 0 ∨ 14 ≤ limit

/-- The packages that a message makes, if it is there. -/
def delivered (message : Option Message) : List (Item Package) :=
  message.toList.map fun message => .package (.message message)

theorem exceeds_iff {a : Attempt Decoder Package} (hlimit : r.limit = limit)
    (hconsumed : 0 < a.consumed) (hkeeps : a.state.phase ≠ .rejected) :
    r.exceeds a = true ↔ (rulesOf options limit).Exceeds a.consumed := by
  rw [Reassembly.exceeds_iff (Decoder.discards_eq_false hkeeps), measured_of_moves hconsumed,
    hlimit]
  rfl

theorem AtFrame.not_exceeds (h : AtFrame options limit r) {length : Nat} (hlength : length ≤ 14) :
    ¬ (rulesOf options limit).Exceeds length := by
  rintro ⟨hpos, hlong⟩
  have hroom := h.room
  change 0 < limit at hpos
  change limit < length at hlong
  omega

/-- A pass does what the reading of a frame says, and uses the given number of bytes. -/
def Finishes (options : WebSocketOptions) (limit : Nat) (reading : Reading) (used : Nat)
    (q : Reassembly Decoder) : Prop :=
  match reading with
  | .refused => ∃ violation s, q.pass = ([], .failed (.protocol violation), s)
  | .taken message opened =>
    ∃ s, q.pass = (delivered message, .again, s) ∧ AtFrame options limit s ∧
      s.pending.bytes = q.pending.bytes.drop used ∧ s.decoder.context.openMessage = opened

/-- The pass in which a frame is complete. -/
theorem finishes {q : Reassembly Decoder} {context : Context} {used : Nat}
    (hsound : context.Sound options limit) (hroom : limit = 0 ∨ 14 ≤ limit)
    (hlimit : q.limit = limit) (hnext : q.decoder.next = none) (hop : frame.op? = some op)
    (hplaced : (context.begun frame op).Placed)
    (hrefuses : (rulesOf options limit).Refuses context.openMessage op frame ↔
      op.isControl = true ∧ (rulesOf options limit).Exceeds frame.length)
    (htrial : q.trial =
      ⟨{ q.decoder with
          phase := .frames .header
          context := ((context.begun frame op).resolve frame.payload).1 },
        used, [], ((context.begun frame op).resolve frame.payload).2⟩)
    (hpos : 0 < used)
    (hused : (rulesOf options limit).Exceeds used ↔ (rulesOf options limit).Exceeds frame.length) :
    Finishes options limit ((rulesOf options limit).read context.openMessage frame) used q := by
  unfold Finishes
  by_cases hbad : (rulesOf options limit).Refuses context.openMessage op frame
  · obtain ⟨hcontrol, hlong⟩ := hrefuses.1 hbad
    rw [Context.read_eq_refused hop hbad]
    rw [Context.resolve_control hcontrol] at htrial
    have hresult : q.trial.result = .ok (some (.message ⟨op, frame.payload⟩)) := by rw [htrial]
    have hexceeds : q.exceeds q.trial = true := by
      rw [htrial, exceeds_iff hlimit hpos Phase.noConfusion]
      exact hused.2 hlong
    have hpass := pass_of_exceeds hresult hexceeds
    rw [show q.trial.replies = [] by rw [htrial]] at hpass
    exact ⟨_, _, hpass⟩
  · have hshort : ¬ (rulesOf options limit).Exceeds used := fun hlong =>
      hbad (Context.refuses_of_exceeds _ op (hused.1 hlong))
    have hexceeds : q.exceeds q.trial = false := by
      rw [← Bool.not_eq_true, htrial, exceeds_iff hlimit hpos Phase.noConfusion]
      exact hshort
    have hreplies : q.trial.replies = [] := by rw [htrial]
    have hread := Context.resolve_of_read hsound hop hbad
    cases hreading : (rulesOf options limit).read context.openMessage frame with
    | refused =>
      rw [hreading] at hread
      obtain ⟨violation, herror⟩ := hread
      have hresult : q.trial.result = .error (.protocol violation) := by rw [htrial, ← herror]
      have hpass := pass_of_error hresult
      rw [hreplies] at hpass
      exact ⟨_, _, hpass⟩
    | taken message opened =>
      rw [hreading] at hread
      obtain ⟨hok, hopened⟩ := hread
      have hresult : q.trial.result = .ok (message.map .message) := by rw [htrial, ← hok]
      have hpass := pass_of_moves hresult (by rw [htrial]; exact hpos) hexceeds
      have hbehind : q.trial.behind =
          { q.decoder with
            phase := .frames .header
            context := ((context.begun frame op).resolve frame.payload).1 } := by
        rw [htrial]
        cases message <;>
          simp [Attempt.behind, PackageDecoder.next?, PackageDecoder.reset, Decoder.restart, hnext,
            hok]
      have hsame : (q.behind q.trial).decoder = q.trial.behind := rfl
      have hdropped : (q.behind q.trial).pending.bytes = q.pending.bytes.drop q.trial.consumed :=
        Sequence.bytes_discard _ _
      refine ⟨q.behind q.trial, ?_, ⟨?_, ?_, hlimit, ?_, hroom⟩, ?_, ?_⟩
      · rw [hpass, handedOut, hreplies]
        cases message <;> rfl
      · rw [hsame, hbehind]
      · rw [hsame, hbehind]
        exact hnext
      · rw [hsame, hbehind]
        exact (hsound.begun frame op).resolve hplaced frame.payload
      · rw [hdropped, htrial]
      · rw [hsame, hbehind]
        exact hopened

theorem AtFrame.trial (h : AtFrame options limit r) :
    r.trial = r.decoder.readHeader r.pending.bytes :=
  Decoder.attempt_header h.phase _

/-- The pass for the header of a frame with a payload. -/
theorem AtFrame.header_pass (h : AtFrame options limit r)
    (htrial : r.trial =
      .progress
        { r.decoder with
          phase := .frames .payload
          context := r.decoder.context.begun frame op } frame.headerLength) :
    ∃ s, r.pass = ([], .again, s) ∧ s.limit = limit ∧
      s.decoder =
        { r.decoder with
          phase := .frames .payload
          context := r.decoder.context.begun frame op } ∧
      s.pending.bytes = r.pending.bytes.drop frame.headerLength := by
  have hheader := frame.headerLength_pos
  have hexceeds : r.exceeds r.trial = false := by
    rw [← Bool.not_eq_true, htrial, exceeds_iff h.limit_eq hheader Phase.noConfusion]
    exact h.not_exceeds frame.headerLength_le
  have hresult : r.trial.result = .ok none := by
    rw [htrial]
    rfl
  have hpass := pass_of_moves hresult (by rw [htrial]; exact hheader) hexceeds
  refine ⟨r.behind r.trial, ?_, h.limit_eq, ?_, ?_⟩
  · rw [hpass, htrial]
    rfl
  · rw [htrial]
    simp [behind, Attempt.behind, Attempt.progress, PackageDecoder.next?, h.next]
  · rw [htrial]
    exact Sequence.bytes_discard _ _

/-- What the attempt at a payload finds that is all there. -/
theorem payload_trial {s : Reassembly Decoder} {context : Context}
    (hphase : s.decoder.phase = .frames .payload)
    (hcontext : s.decoder.context = context.begun frame op)
    (hwhole : frame.payload.length = frame.length)
    (hbytes : s.pending.bytes = masked frame.mask frame.payload ++ rest) :
    s.trial =
      ⟨{ s.decoder with
          phase := .frames .header
          context := ((context.begun frame op).resolve frame.payload).1 },
        frame.length, [], ((context.begun frame op).resolve frame.payload).2⟩ := by
  have htrial : s.trial = s.decoder.readPayload s.pending.bytes :=
    Decoder.attempt_payload hphase _
  have hlength : (masked frame.mask frame.payload).length = frame.length :=
    (length_masked _ _).trans hwhole
  have hneeds : (context.begun frame op).payloadLength = frame.length := rfl
  have hmask : (context.begun frame op).mask = frame.mask := rfl
  have hall : ¬ s.pending.bytes.length < frame.length := by
    rw [hbytes, List.length_append]
    omega
  have htake : s.pending.bytes.take frame.length = masked frame.mask frame.payload := by
    rw [hbytes, ← hlength]
    exact List.take_left
  rw [htrial, Decoder.readPayload, hcontext, hneeds, hmask]
  dsimp only
  rw [if_neg hall, htake, masked_masked]

/-- One frame: it is refused, or taken and then the next one comes. -/
theorem AtFrame.step (h : AtFrame options limit r) (hbytes : r.pending.bytes = frame.bytes ++ rest) :
    match (rulesOf options limit).read r.decoder.context.openMessage frame with
    | .refused => ∃ violation s, Runs r [] (.failed (.protocol violation)) s
    | .taken message opened =>
      ∃ s, Leads r (delivered message) s ∧ AtFrame options limit s ∧ s.pending.bytes = rest ∧
        s.decoder.context.openMessage = opened := by
  have htrial := h.trial
  rw [hbytes, Decoder.readHeader_bytes] at htrial
  cases hbegin : r.decoder.context.beginFrame frame.first frame.second frame.length frame.mask with
  | error violation =>
    rw [Context.read_of_beginFrame_eq_error h.sound hbegin]
    rw [hbegin] at htrial
    have hresult : r.trial.result = .error (.protocol violation) := by
      rw [htrial]
      rfl
    have hpass := pass_of_error hresult
    rw [show r.trial.replies = [] by rw [htrial]; rfl] at hpass
    exact ⟨_, _, .last hpass (by simp)⟩
  | ok context =>
    obtain ⟨op, hop, hlength, rfl, hrefuses⟩ := Context.begun_of_beginFrame_eq_ok h.sound hbegin
    have hplaced := Context.placed_of_beginFrame hbegin
    have hwhole := frame.whole hlength
    have hdrop := frame.drop_headerLength rest
    rw [hbegin] at htrial
    dsimp only at htrial
    obtain ⟨q, used, hleads, hrest, hfinishes⟩ : ∃ q used, Leads r [] q ∧
        q.pending.bytes.drop used = rest ∧
        Finishes options limit
          ((rulesOf options limit).read r.decoder.context.openMessage frame) used q := by
      by_cases hempty : frame.length = 0
      · -- The frame is complete with its header.
        have hnone : frame.payload = [] := List.length_eq_zero_iff.1 (hwhole.trans hempty)
        refine ⟨r, frame.headerLength, .refl r, ?_, ?_⟩
        · rw [hbytes, hdrop, hnone]
          cases frame.mask <;> rfl
        · refine finishes h.sound h.room h.limit_eq h.next hop hplaced hrefuses ?_ ?_ ?_
          · rw [htrial, if_pos hempty, hnone, ← h.phase]
          · exact frame.headerLength_pos
          · exact iff_of_false (h.not_exceeds frame.headerLength_le) (h.not_exceeds (by omega))
      · rw [if_neg hempty] at htrial
        obtain ⟨s, hpass, hlimit, hdecoder, hbehind⟩ := h.header_pass htrial
        rw [hbytes, hdrop] at hbehind
        have hnext : s.decoder.next = none := by
          rw [hdecoder]
          exact h.next
        have htrial' : s.trial = _ :=
          payload_trial (by rw [hdecoder]) (by rw [hdecoder]) hwhole hbehind
        refine ⟨s, frame.length, leads_of_pass hpass, ?_, ?_⟩
        · rw [hbehind, ← hwhole, ← length_masked frame.mask]
          exact List.drop_left
        · exact finishes h.sound h.room hlimit hnext hop hplaced hrefuses htrial'
            (Nat.pos_of_ne_zero hempty) Iff.rfl
    unfold Finishes at hfinishes
    cases hreading : (rulesOf options limit).read r.decoder.context.openMessage frame with
    | refused =>
      rw [hreading] at hfinishes
      obtain ⟨violation, s, hpass⟩ := hfinishes
      exact ⟨violation, s, hleads.runs (.last hpass (by simp))⟩
    | taken message opened =>
      rw [hreading] at hfinishes
      obtain ⟨s, hpass, hat, hdropped, hopened⟩ := hfinishes
      exact ⟨s, hleads.trans (leads_of_pass hpass), hat, hdropped.trans hrest, hopened⟩

/-- Without bytes a connection waits where it is. -/
theorem AtFrame.wait_pass (h : AtFrame options limit r) (hbytes : r.pending.bytes = []) :
    ∃ s, r.pass = ([], .waiting, s) ∧ AtFrame options limit s ∧ s.pending.bytes = [] ∧
      s.decoder = r.decoder := by
  have htrial : r.trial = .needMore r.decoder := by
    rw [h.trial, hbytes]
    rfl
  have hexceeds : r.exceeds r.trial = false := by
    have hlength : r.pending.length = 0 := by
      rw [← Sequence.length_bytes, hbytes]
      rfl
    rw [htrial]
    simp [exceeds, measured, Attempt.needMore, hlength]
  have hwaits : r.trial.Waits := by
    rw [htrial]
    exact ⟨rfl, rfl⟩
  have hnext : PackageDecoder.next? r.trial.state = none := by
    rw [htrial]
    simp [PackageDecoder.next?, Attempt.needMore, h.next]
  have hpass := pass_of_waits hwaits hnext hexceeds
  rw [htrial] at hpass
  refine ⟨_, hpass, ⟨h.phase, h.next, h.limit_eq, h.sound, h.room⟩, ?_, rfl⟩
  show (r.pending.discard 0).bytes = []
  rw [Sequence.bytes_discard, hbytes]
  rfl

/-- Frames, one behind the other, do to a connection what their reading says. -/
theorem AtFrame.interpret (h : AtFrame options limit r) (frames : List WireFrame)
    (hbytes : r.pending.bytes = frames.flatMap WireFrame.bytes) :
    ∃ verdict s,
      Runs r (((rulesOf options limit).interpret r.decoder.context.openMessage frames).1.map
        fun message => .package (.message message)) verdict s ∧
      match ((rulesOf options limit).interpret r.decoder.context.openMessage frames).2 with
      | .refused => ∃ violation, verdict = .failed (.protocol violation)
      | .idle opened => verdict = .waiting ∧ AtFrame options limit s ∧ s.pending.bytes = [] ∧
          s.decoder.context.openMessage = opened := by
  induction frames generalizing r with
  | nil =>
    obtain ⟨s, hpass, hat, hempty, hsame⟩ := h.wait_pass hbytes
    exact ⟨.waiting, s, .last hpass (by simp), rfl, hat, hempty, by rw [hsame]⟩
  | cons frame rest ih =>
    rw [List.flatMap_cons] at hbytes
    have hstep := h.step hbytes
    rw [Rules.interpret]
    cases hreading : (rulesOf options limit).read r.decoder.context.openMessage frame with
    | refused =>
      rw [hreading] at hstep
      obtain ⟨violation, s, hrun⟩ := hstep
      exact ⟨_, s, hrun, violation, rfl⟩
    | taken message opened =>
      rw [hreading] at hstep
      obtain ⟨s, hleads, hat, hrest, rfl⟩ := hstep
      obtain ⟨verdict, t, hrun, hending⟩ := ih hat hrest
      refine ⟨verdict, t, ?_, hending⟩
      dsimp only
      rw [List.map_append]
      exact hleads.runs hrun

end FramedChannel.WebSocket
