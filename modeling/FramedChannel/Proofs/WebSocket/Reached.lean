import FramedChannel.Proofs.WebSocket.Frames
import FramedChannel.Proofs.WebSocket.Request

/-!
# Connections that came to frames

What holds of a connection whose bytes were fed to it from the beginning, and
so in front of its first frame: `reached_of_feed` and `atFrame_of_sound`.

* `Decoder.Sound` is the invariant, and `Decoder.Keeps` what one attempt owes
  to it.
* The limit has room for every header, because the request that led to the
  frames names its version in a header line longer than that.
-/

namespace FramedChannel.WebSocket

open Reassembly

variable {options : WebSocketOptions} {limit : Nat}

namespace Decoder

/-! ## The invariant -/

/-- The decoder belongs to a connection with the given options and limit.  In the midst of a frame
the frame has its place, and frames only come where there is room for their headers. -/
structure Sound (options : WebSocketOptions) (limit : Nat) (d : Decoder) : Prop where
  context : d.context.Sound options limit
  placed : d.phase = .frames .payload → d.context.Placed
  room : ∀ part, d.phase = .frames part → limit = 0 ∨ 14 ≤ limit

/-- What an attempt owes to the invariant. -/
structure Keeps (options : WebSocketOptions) (limit : Nat) (d : Decoder)
    (a : Attempt Decoder Package) : Prop where
  context : a.state.context.Sound options limit
  next : ∀ phase, a.state.next = some phase →
    phase = .frames .header ∧ 14 ≤ a.consumed ∧ a.state.phase ≠ .rejected ∨
      ∀ part, phase ≠ .frames part
  phase : ∀ part, a.state.phase = .frames part →
    (∃ part', d.phase = .frames part') ∧ (part = .payload → a.state.context.Placed)

variable {d : Decoder} {a : Attempt Decoder Package} {bytes : Bytes}

theorem restart_eq_frames {phase : Phase} {part : FramePart} (h : restart phase = .frames part) :
    part = .header ∧ ∃ part', phase = .frames part' := by
  cases phase <;> cases h
  exact ⟨rfl, _, rfl⟩

theorem Sound.behind (h : d.Sound options limit) (hkeeps : Keeps options limit d a)
    (hlimit : limit = 0 ∨ a.consumed ≤ limit ∨ a.state.phase = .rejected) :
    a.behind.Sound options limit := by
  unfold Attempt.behind
  cases hnext : a.state.next with
  | some phase =>
    have hbehind : PackageDecoder.next? a.state = some { a.state with phase, next := none } := by
      simp [PackageDecoder.next?, hnext]
    rw [hbehind]
    refine ⟨hkeeps.context, ?_, ?_⟩
    · intro hphase
      obtain ⟨hheader, _⟩ | hother := hkeeps.next phase hnext
      · change phase = .frames .payload at hphase
        rw [hheader] at hphase
        cases hphase
      · exact absurd hphase (hother _)
    · intro part hphase
      obtain ⟨_, hconsumed, hrejected⟩ | hother := hkeeps.next phase hnext
      · obtain hzero | hle | habsurd := hlimit
        · exact .inl hzero
        · exact .inr (Nat.le_trans hconsumed hle)
        · exact absurd habsurd hrejected
      · exact absurd hphase (hother _)
  | none =>
    have hbehind : PackageDecoder.next? a.state = none := by
      simp [PackageDecoder.next?, hnext]
    rw [hbehind]
    split
    · rename_i heq
      cases heq
    · refine ⟨hkeeps.context, ?_, ?_⟩
      · intro hphase
        cases (restart_eq_frames hphase).1
      · intro part hphase
        obtain ⟨_, part', hpart⟩ := restart_eq_frames hphase
        obtain ⟨⟨before, hbefore⟩, _⟩ := hkeeps.phase part' hpart
        exact h.room before hbefore
    · refine ⟨hkeeps.context, ?_, ?_⟩
      · intro hphase
        exact (hkeeps.phase _ hphase).2 rfl
      · intro part hphase
        obtain ⟨⟨before, hbefore⟩, _⟩ := hkeeps.phase part hphase
        exact h.room before hbefore

/-! ## Attempts outside frames -/

theorem keeps_of_other (hcontext : a.state.context.Sound options limit)
    (hnext : ∀ phase part, a.state.next = some phase → phase ≠ .frames part)
    (hphase : ∀ part, a.state.phase ≠ .frames part) : Keeps options limit d a where
  context := hcontext
  next phase h := .inr fun part => hnext phase part h
  phase part h := absurd h (hphase part)

/-- A request for a framed version has room for a header. -/
theorem version_header_of_select {request : Request} {version : Version}
    (h : Version.select request = some version) (hdraft : version ≠ .hybi00) :
    ∃ value, request.header "sec-websocket-version" = some value := by
  have hasked := List.find?_some h
  cases version with
  | hybi00 => exact absurd rfl hdraft
  | hybi10 => exact ⟨_, eq_of_beq hasked⟩
  | rfc6455 => exact ⟨_, eq_of_beq hasked⟩

theorem readRequest_keeps {head : Bytes} {used : Nat} {search : Terminated}
    (h : d.context.Sound options limit) (hnext : d.next = none)
    (hhandshake : d.phase = .handshake search) (hused : head.length < used) :
    Keeps options limit d (d.readRequest head used) := by
  have hphase : ∀ part, d.phase ≠ .frames part := by simp [hhandshake]
  have hnone : ∀ phase part, d.next = some phase → phase ≠ .frames part := by
    intro phase part hsome
    rw [hnext] at hsome
    cases hsome
  unfold readRequest
  split
  · exact keeps_of_other h hnone hphase
  · rename_i request hparse
    split
    · refine keeps_of_other h ?_ hphase
      rintro phase part hsome rfl
      cases hsome
    · rename_i version hselect
      dsimp only
      split
      · refine keeps_of_other h ?_ hphase
        rintro phase part hsome rfl
        cases hsome
      · rename_i hdraft
        split
        · exact keeps_of_other h hnone hphase
        · obtain ⟨value, hheader⟩ := version_header_of_select hselect hdraft
          have hlength := Request.length_le_of_header hparse hheader
          have hname : "sec-websocket-version".toList.length = 21 := by decide
          have hroom : 14 ≤ used := by omega
          refine ⟨h.negotiated _ _, ?_, fun part hpart => absurd hpart (hphase part)⟩
          intro phase hsome
          cases hsome
          exact .inl ⟨rfl, hroom, by simp [hhandshake]⟩

theorem readNonce_keeps {info : Option HandshakeInfo} (h : d.context.Sound options limit)
    (hnext : d.next = none) (hphase : ∀ part, d.phase ≠ .frames part) :
    Keeps options limit d (d.readNonce info bytes) := by
  have hnone : ∀ phase part, d.next = some phase → phase ≠ .frames part := by
    intro phase part hsome
    rw [hnext] at hsome
    cases hsome
  unfold readNonce
  split
  · exact keeps_of_other h hnone hphase
  · dsimp only
    split
    · exact keeps_of_other h hnone fun _ => Phase.noConfusion
    · split
      · exact keeps_of_other h hnone fun _ => Phase.noConfusion
      · refine keeps_of_other (h.negotiated _ _) ?_ fun _ => Phase.noConfusion
        rintro phase part hsome rfl
        cases hsome

/-! ## Attempts at frames -/

theorem keeps_of_frames {part : FramePart} (hcontext : a.state.context.Sound options limit)
    (hnext : a.state.next = none) (hphase : d.phase = .frames part)
    (hplaced : a.state.phase = .frames .payload → a.state.context.Placed) :
    Keeps options limit d a where
  context := hcontext
  next phase h := by
    rw [hnext] at h
    cases h
  phase _ h := ⟨⟨part, hphase⟩, fun hpart => hplaced (hpart ▸ h)⟩

theorem readHeader_keeps (h : d.Sound options limit) (hnext : d.next = none)
    (hphase : d.phase = .frames .header) : Keeps options limit d (d.readHeader bytes) := by
  have hstays : ∀ context, d.phase = .frames .payload → Context.Placed context := by
    intro context hpayload
    rw [hphase] at hpayload
    cases hpayload
  unfold readHeader
  split
  · dsimp only
    split
    · exact keeps_of_frames h.context hnext hphase (hstays _)
    · split
      · exact keeps_of_frames h.context hnext hphase (hstays _)
      · rename_i hbegin
        have hplaced := Context.placed_of_beginFrame hbegin
        have hsound := h.context.of_beginFrame hbegin
        split
        · exact keeps_of_frames (hsound.resolve hplaced []) hnext hphase (hstays _)
        · exact keeps_of_frames hsound hnext hphase fun _ => hplaced
  · exact keeps_of_frames h.context hnext hphase (hstays _)

theorem readPayload_keeps (h : d.Sound options limit) (hnext : d.next = none)
    (hphase : d.phase = .frames .payload) : Keeps options limit d (d.readPayload bytes) := by
  have hplaced := h.placed hphase
  unfold readPayload
  dsimp only
  split
  · exact keeps_of_frames h.context hnext hphase fun _ => hplaced
  · refine keeps_of_frames (h.context.resolve hplaced _) hnext hphase ?_
    intro hpayload
    cases hpayload

/-- Every attempt keeps what it owes. -/
theorem attempt_keeps (h : d.Sound options limit) (hready : Ready d bytes) :
    Keeps options limit d (d.attempt bytes) := by
  have hnext := hready.next
  have hnone : ∀ phase part, d.next = some phase → phase ≠ .frames part := by
    intro phase part hsome
    rw [hnext] at hsome
    cases hsome
  have hkept := hready.phase
  unfold attempt
  split
  · rename_i head hphase
    rw [hphase] at hkept
    split
    · exact keeps_of_other h.context hnone fun _ => Phase.noConfusion
    · rename_i after block used hsplit
      obtain ⟨_, _, _, hused, _⟩ := Terminated.split_eq_some hkept hsplit
      have hread : Keeps options limit { d with phase := .handshake after }
          (readRequest { d with phase := .handshake after } block used) :=
        readRequest_keeps h.context hnext rfl hused
      refine ⟨hread.context, hread.next, fun part hpart => ?_⟩
      obtain ⟨⟨_, hframes⟩, _⟩ := hread.phase part hpart
      cases hframes
  · rename_i hphase
    exact readNonce_keeps h.context hnext (by simp [hphase])
  · rename_i hphase
    exact readHeader_keeps h hnext hphase
  · rename_i hphase
    exact readPayload_keeps h hnext hphase
  · rename_i hphase
    unfold readMark
    split
    · exact keeps_of_other h.context hnone (by simp [Attempt.needMore, hphase])
    · split_ifs
      · exact keeps_of_other h.context hnone fun _ => Phase.noConfusion
      · exact keeps_of_other h.context hnone fun _ => Phase.noConfusion
      · exact keeps_of_other h.context hnone (by simp [Attempt.fail, hphase])
  · unfold readDraftText
    split
    · exact keeps_of_other h.context hnone fun _ => Phase.noConfusion
    · split_ifs
      · exact keeps_of_other h.context hnone fun _ => Phase.noConfusion
      · exact keeps_of_other h.context hnone fun _ => Phase.noConfusion
  · unfold readDraftClose
    split
    · exact keeps_of_other h.context hnone fun _ => Phase.noConfusion
    · exact keeps_of_other h.context hnone fun _ => Phase.noConfusion
  · rename_i hphase
    exact keeps_of_other h.context hnone (by simp [Attempt.progress, hphase])

end Decoder

/-! ## Connections from their beginning -/

variable {r s : Reassembly Decoder} {items : List (Item Package)} {verdict : Verdict}

/-- What holds of a connection between two segments. -/
structure Sound (options : WebSocketOptions) (limit : Nat) (r : Reassembly Decoder) : Prop where
  limit_eq : r.limit = limit
  decoder : r.decoder.Sound options limit

theorem sound_fresh (options : WebSocketOptions) (limit : Nat) :
    Sound options limit (fresh options limit) := by
  refine ⟨rfl, ⟨rfl, rfl, fun _ => rfl, rfl⟩, ?_, ?_⟩
  · intro hphase
    cases hphase
  · intro part hphase
    cases hphase

/-- A pass that does not fail keeps the invariant. -/
theorem Sound.pass (h : Sound options limit r)
    (hready : Decoder.Ready r.decoder r.pending.bytes) (hpass : r.pass = (items, verdict, s))
    (hok : ∀ error, verdict ≠ .failed error) : Sound options limit s := by
  have hkeeps : Decoder.Keeps options limit r.decoder r.trial :=
    Decoder.attempt_keeps h.decoder hready
  obtain ⟨_, _, heq⟩ | ⟨_, _, _, heq⟩ | ⟨hwaits, _, heq⟩ | ⟨_, _, hused, hexceeds, heq⟩ :=
    pass_cases Decoder.resumable hready <;> rw [hpass] at heq <;> cases heq
  · exact absurd rfl (hok _)
  · exact absurd rfl (hok _)
  · obtain ⟨_, hnext, _⟩ := (Decoder.resumable.resumableAt hready).wait hwaits
    have hbehind : r.trial.behind = r.trial.state := by
      change PackageDecoder.next? r.trial.state = none at hnext
      simp [Attempt.behind, hnext, hwaits.1]
    have hsound := h.decoder.behind hkeeps (.inr (.inl (by rw [hwaits.2]; exact Nat.zero_le _)))
    rw [hbehind] at hsound
    exact ⟨h.limit_eq, hsound⟩
  · refine ⟨h.limit_eq, h.decoder.behind hkeeps ?_⟩
    by_cases hrejected : r.trial.state.phase = .rejected
    · exact .inr (.inr hrejected)
    · have hiff : r.exceeds r.trial = true ↔ (rulesOf options limit).Exceeds r.trial.consumed :=
        exceeds_iff h.limit_eq hused hrejected
      rw [← Bool.not_eq_true, hiff] at hexceeds
      simp only [Rules.Exceeds, rulesOf] at hexceeds
      omega

theorem Sound.extend (h : Sound options limit r) (segment : Bytes) :
    Sound options limit (r.extend segment) :=
  ⟨h.limit_eq, h.decoder⟩

theorem Sound.runs (h : Sound options limit r)
    (hready : Decoder.Ready r.decoder r.pending.bytes) (hrun : Runs r items .waiting s) :
    Sound options limit s := by
  generalize hwait : Verdict.waiting = reached at hrun
  induction hrun with
  | last hpass _ =>
    subst hwait
    exact h.pass hready hpass (by simp)
  | more hpass _ ih =>
    exact ih (h.pass hready hpass (by simp))
      (ready_of_pass_eq_again Decoder.resumable hready hpass).1 hwait

/-- A connection that was fed segments from its beginning keeps the invariant, and has nothing left
to do. -/
theorem reached_of_feed {segments : List Bytes}
    (h : (fresh options limit).feed segments = (items, .waiting, r)) :
    Decoder.Ready r.decoder r.pending.bytes ∧ Sound options limit r ∧ Settled r := by
  refine feed_induction Decoder.resumable (P := fun r => Sound options limit r ∧ Settled r) ?_
    (ready_fresh options limit) ⟨sound_fresh options limit, settled_fresh options limit⟩ h
  intro r s items segment hready ⟨hsound, _⟩ hrun
  exact ⟨(hsound.extend segment).runs hready hrun, hrun.settled Decoder.resumable hready⟩

/-- In front of a frame, the connection is as `AtFrame` says. -/
theorem atFrame_of_sound (h : Sound options limit r)
    (hready : Decoder.Ready r.decoder r.pending.bytes) (hphase : r.decoder.phase = .frames .header) :
    AtFrame options limit r :=
  ⟨hphase, hready.next, h.limit_eq, h.decoder.context, h.decoder.room _ hphase⟩

/-- All that comes in behind a connection that came to frames stands in front of the next frame. -/
theorem atFrame_of_feed {segments : List Bytes}
    (hfeed : (fresh options limit).feed segments = (items, .waiting, r))
    (hphase : r.decoder.phase = .frames .header) (hempty : r.pending.bytes = []) (bytes : Bytes) :
    AtFrame options limit (r.extend bytes) ∧ (r.extend bytes).pending.bytes = bytes := by
  obtain ⟨hready, hsound, _⟩ := reached_of_feed hfeed
  have hready' := ready_extend Decoder.resumable hready bytes
  refine ⟨atFrame_of_sound (hsound.extend bytes) hready' hphase, ?_⟩
  rw [bytes_extend, hempty, List.nil_append]

/-- However later bytes are cut, the connection does with them what it does with all at once. -/
theorem feed_behind {segments cut : List Bytes} {later : List (Item Package)} {verdict : Verdict}
    {t : Reassembly Decoder} (hfeed : (fresh options limit).feed segments = (items, .waiting, r))
    (hruns : Runs (r.extend cut.flatten) later verdict t) :
    CutAlike limit (r.feed cut) (later, verdict, t) := by
  obtain ⟨hready, hsound, hsettled⟩ := reached_of_feed hfeed
  have hcut := feed_cutAlike_runs Decoder.resumable hready hsettled hruns
  rwa [hsound.limit_eq] at hcut

/-- A connection that came to the next frame, and has nothing left, is there however the bytes are
cut. -/
theorem feed_to_frame {segments cut : List Bytes} {later : List (Item Package)}
    {t : Reassembly Decoder} (hfeed : (fresh options limit).feed segments = (items, .waiting, r))
    (hruns : Runs (r.extend cut.flatten) later .waiting t) (hat : AtFrame options limit t)
    (hnone : t.pending.bytes = []) (hclosed : t.decoder.context.openMessage = none) :
    ∃ s, r.feed cut = (later, .waiting, s) ∧ s.pending.bytes = [] ∧
      s.decoder.phase = .frames .header ∧ s.decoder.context.openMessage = none := by
  obtain ⟨s, hfed, hs⟩ := (feed_behind hfeed hruns).eq_of_waiting
  exact ⟨s, hfed, by rw [hs.bytes, hnone], by rw [hs.decoder, hat.phase],
    by rw [hs.decoder, hclosed]⟩

/-! ## Frames behind an upgrade -/

theorem feed_acceptedRequest :
    ∃ items r, (fresh {} 80).feed [acceptedRequest] = (items, .waiting, r) ∧
      r.decoder.phase = .frames .header ∧ r.pending.bytes = [] ∧
      r.decoder.context.openMessage = none := by
  have hfed : ((fresh {} 80).feed [acceptedRequest]).2.1 = .waiting ∧
      ((fresh {} 80).feed [acceptedRequest]).2.2.decoder.phase = .frames .header ∧
      ((fresh {} 80).feed [acceptedRequest]).2.2.pending.bytes = [] ∧
      ((fresh {} 80).feed [acceptedRequest]).2.2.decoder.context.openMessage = none := by
    decide +kernel
  refine ⟨((fresh {} 80).feed [acceptedRequest]).1, ((fresh {} 80).feed [acceptedRequest]).2.2,
    ?_, hfed.2⟩
  rw [← hfed.1]

end FramedChannel.WebSocket
