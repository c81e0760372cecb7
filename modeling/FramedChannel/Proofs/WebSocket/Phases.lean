import FramedChannel.Proofs.WebSocket.Dialogue
import FramedChannel.Proofs.WebSocket.Reached

/-!
# The phases of a connection

Until decoding fails, a connection is in one of five states, and its phase, its
packages, the number of its phases and its version tell which.

* `Message.Whole` is what every message that is handed out owes.
* `Phase.depth` and `Phase.Negotiated` say what belongs to a phase, and
  `Decoder.Phased` adds what the current frame owes.
* `Decoder.Progresses` lists all that an attempt can do to that, and
  `attempt_progresses` says that the list is complete.
* `Standing` is the invariant between two passes.
* `feed_of_refused` is a connection that was turned down, and `feed_phases` the
  result.
-/

namespace FramedChannel.WebSocket

open Reassembly

/-! ## Messages -/

/-- A message and no part of one, and text if it says so. -/
structure Message.Whole (message : Message) : Prop where
  op : message.op ≠ .continuation
  text : message.op = .text → Utf8.isText message.data = true

namespace Context

variable {context after : Context} {first second : UInt8} {length : Nat} {mask : Option MaskKey}
  {payload : Bytes} {message : Message}

/-- The message whose fragments are being collected has an operation code of its own. -/
def Opened (context : Context) : Prop :=
  ∀ op, context.messageOp = some op → op ≠ .continuation

theorem Opened.of_beginFrame (h : context.Opened)
    (hbegin : context.beginFrame first second length mask = .ok after) : after.Opened := by
  obtain ⟨_, _, _, op, _, _, rfl⟩ := beginFrame_eq_ok_iff.1 hbegin
  exact h

theorem Opened.resolve (h : context.Opened) : (context.resolve payload).1.Opened := by
  intro op hop
  unfold Context.resolve at hop
  split at hop
  · exact h op hop
  · split at hop
    · dsimp only at hop
      split at hop
      · exact h op hop
      · rename_i hfirst
        cases hop
        exact hfirst
    · cases hopen : context.messageOp with
      | none =>
        rw [hopen] at hop
        dsimp only at hop
        split at hop <;> exact h op hop
      | some _ =>
        rw [hopen] at hop
        dsimp only at hop
        split at hop <;> cases hop

/-- A frame that completes a message completes a whole one. -/
theorem whole_of_resolve (h : context.Opened) (hplaced : context.Placed)
    (hresolve : (context.resolve payload).2 = .ok (some (.message message))) : message.Whole := by
  unfold Context.resolve at hresolve
  split at hresolve
  · rename_i hcontrol
    cases hresolve
    have hnot : ∀ op, op.isControl = false → context.op ≠ op := by
      rintro op hdata rfl
      rw [hcontrol] at hdata
      cases hdata
    exact ⟨hnot .continuation rfl, fun htext => absurd htext (hnot .text rfl)⟩
  · split at hresolve
    · cases hresolve
    · cases hopen : context.messageOp with
      | none =>
        rw [hopen] at hresolve
        dsimp only at hresolve
        split at hresolve
        · cases hresolve
        · rename_i htext
          cases hresolve
          refine ⟨fun hop => hplaced hop hopen, fun hop => ?_⟩
          by_contra hnot
          exact htext ⟨hop, by simpa using hnot⟩
      | some op =>
        rw [hopen] at hresolve
        dsimp only at hresolve
        split at hresolve
        · cases hresolve
        · rename_i htext
          cases hresolve
          refine ⟨h op hopen, fun hop => ?_⟩
          by_contra hnot
          exact htext ⟨hop, by simpa using hnot⟩

end Context

/-! ## What belongs to a phase -/

/-- The number of phases in front of this one. -/
def Phase.depth : Phase → Nat
  | handshake _ => 0
  | nonce _ | frames _ | rejected => 1
  | draftFrames _ => 2

/-- The version that was agreed on in a phase.  Until the nonce came there is none. -/
def Phase.Negotiated (version : Option Version) : Phase → Prop
  | handshake _ | rejected => version = none
  | nonce info => version = none ∧ ∃ known, info = some known ∧ known.version = .hybi00
  | frames _ => ∃ known, version = some known ∧ known.isFramed = true
  | draftFrames _ => version = some .hybi00

namespace Decoder

/-- The context fits the phase. -/
structure Phased (d : Decoder) : Prop where
  opened : d.context.Opened
  placed : d.phase = .frames .payload → d.context.Placed
  negotiated : d.phase.Negotiated d.context.version

/-- What an attempt does to the phase. -/
inductive Progresses (d : Decoder) (a : Attempt Decoder Package) : Prop where
  | fails {error : Error} (hresult : a.result = .error error)
  | stays (hnext : a.state.next = none) (hdepth : a.state.phase.depth = d.phase.depth)
      (hphased : a.state.Phased)
      (hwhole : ∀ message, a.result = .ok (some (.message message)) → message.Whole)
  | goes {phase : Phase} (hnext : a.state.next = some phase)
      (hdepth : phase.depth = d.phase.depth + 1)
      (hphased : Phased { a.state with phase, next := none })
      (hquiet : ∀ message, a.result ≠ .ok (some (.message message)))

variable {d d' : Decoder} {used : Nat} {bytes : Bytes} {error : Error}

theorem Phased.restart (h : d.Phased) : Phased { d with phase := restart d.phase } := by
  obtain ⟨hopened, _, hnegotiated⟩ := h
  refine ⟨hopened, ?_, ?_⟩ <;> cases hphase : d.phase <;> rw [hphase] at hnegotiated <;>
    intros <;> first | exact hnegotiated | rename_i habsurd; cases habsurd

theorem depth_restart (phase : Phase) : (Decoder.restart phase).depth = phase.depth := by
  cases phase <;> rfl

/-! ## One attempt -/

theorem progresses_needMore (h : d'.Phased) (hnext : d'.next = none)
    (hdepth : d'.phase.depth = d.phase.depth) : d.Progresses (.needMore d') :=
  .stays hnext hdepth h fun _ habsurd => by cases habsurd

theorem progresses_progress (h : d'.Phased) (hnext : d'.next = none)
    (hdepth : d'.phase.depth = d.phase.depth) : d.Progresses (.progress d' used) :=
  .stays hnext hdepth h fun _ habsurd => by cases habsurd

theorem progresses_complete {message : Message} (h : d'.Phased) (hnext : d'.next = none)
    (hdepth : d'.phase.depth = d.phase.depth) (hwhole : message.Whole) :
    d.Progresses (.complete d' used (.message message)) :=
  .stays hnext hdepth h fun _ hsame => by cases hsame; exact hwhole

variable (h : d.Phased) (hnext : d.next = none)

include h hnext

omit hnext in
theorem readRequest_progresses {search : Terminated} (head : Bytes)
    (hphase : d.phase = .handshake search) : d.Progresses (d.readRequest head used) := by
  have hnone : d.context.version = none := by
    have hnegotiated := h.negotiated
    rwa [hphase] at hnegotiated
  have hdepth : ∀ phase : Phase, phase.depth = 1 → phase.depth = d.phase.depth + 1 := by
    intro phase hone
    rw [hone, hphase]
    rfl
  unfold readRequest
  split
  · exact .fails rfl
  · rename_i request _
    split
    · exact .goes rfl (hdepth .rejected rfl) ⟨h.opened, fun habsurd => (by cases habsurd), hnone⟩
        fun _ habsurd => by cases habsurd
    · rename_i version _
      dsimp only
      split
      · rename_i hdraft
        exact .goes rfl (hdepth _ rfl)
          ⟨h.opened, fun habsurd => (by cases habsurd), hnone, _, rfl, hdraft⟩
          fun _ habsurd => by cases habsurd
      · rename_i hframed
        split
        · exact .fails rfl
        · refine .goes rfl (hdepth (.frames .header) rfl)
            ⟨h.opened, fun habsurd => (by cases habsurd), version, rfl, ?_⟩
            fun _ habsurd => by cases habsurd
          cases version with
          | hybi00 => exact absurd rfl hframed
          | hybi10 | rfc6455 => rfl

theorem readNonce_progresses {info : Option HandshakeInfo} (hphase : d.phase = .nonce info) :
    d.Progresses (d.readNonce info bytes) := by
  obtain ⟨_, known, rfl, hdraft⟩ : d.context.version = none ∧
      ∃ known, info = some known ∧ known.version = .hybi00 := by
    have hnegotiated := h.negotiated
    rwa [hphase] at hnegotiated
  unfold readNonce
  split
  · exact progresses_needMore h hnext rfl
  · dsimp only
    split
    · exact .fails rfl
    · refine .goes rfl (by rw [hphase]; rfl) ⟨h.opened, fun habsurd => (by cases habsurd), ?_⟩
        fun _ habsurd => by cases habsurd
      exact congrArg some hdraft

omit h hnext in
/-- A frame that is finished leads to the next header. -/
theorem progresses_resolve {context : Context} {payload : Bytes} (hopened : context.Opened)
    (hplaced : context.Placed) (hversion : (Phase.frames .header).Negotiated context.version)
    (hnext : d'.next = none) (hdepth : d.phase.depth = 1) (hphase : d'.phase = .frames .header) :
    d.Progresses ⟨{ d' with context := (context.resolve payload).1 }, used, [],
      (context.resolve payload).2⟩ := by
  cases hresult : (context.resolve payload).2 with
  | error error => exact .fails rfl
  | ok package =>
    refine .stays hnext ?_ ⟨hopened.resolve, ?_, ?_⟩ ?_
    · show d'.phase.depth = d.phase.depth
      rw [hphase, hdepth]
      rfl
    · intro habsurd
      cases hphase.symm.trans habsurd
    · show d'.phase.Negotiated (context.resolve payload).1.version
      rw [version_resolve, hphase]
      exact hversion
    · intro message hmessage
      exact Context.whole_of_resolve hopened hplaced (hresult.trans hmessage)

theorem readHeader_progresses (hphase : d.phase = .frames .header) :
    d.Progresses (d.readHeader bytes) := by
  have hdepth : d.phase.depth = 1 := by rw [hphase]; rfl
  have hversion : (Phase.frames .header).Negotiated d.context.version := hphase ▸ h.negotiated
  unfold readHeader
  split
  · dsimp only
    split
    · exact progresses_needMore h hnext rfl
    · split
      · exact .fails rfl
      · rename_i hbegin
        have hopened := h.opened.of_beginFrame hbegin
        have hplaced := Context.placed_of_beginFrame hbegin
        rw [← version_of_beginFrame hbegin] at hversion
        split
        · exact progresses_resolve hopened hplaced hversion hnext hdepth hphase
        · exact progresses_progress ⟨hopened, fun _ => hplaced, hversion⟩ hnext hdepth.symm
  · exact progresses_needMore h hnext rfl

theorem readPayload_progresses (hphase : d.phase = .frames .payload) :
    d.Progresses (d.readPayload bytes) := by
  have hversion : (Phase.frames .payload).Negotiated d.context.version := hphase ▸ h.negotiated
  unfold readPayload
  dsimp only
  split
  · exact progresses_needMore h hnext rfl
  · have hdepth : d.phase.depth = 1 := by rw [hphase]; rfl
    let turned := { d with phase := .frames .header }
    have hturned : turned.next = none := hnext
    exact progresses_resolve h.opened (h.placed hphase) hversion hturned hdepth rfl

omit hnext in
/-- The parts of draft messages all belong to the same version. -/
theorem Phased.draft {part : DraftPart} (hphase : d.phase = .draftFrames part)
    (after : DraftPart) : Phased { d with phase := .draftFrames after } := by
  have hnegotiated := h.negotiated
  rw [hphase] at hnegotiated
  exact ⟨h.opened, fun habsurd => (by cases habsurd), hnegotiated⟩

theorem readMark_progresses (hphase : d.phase = .draftFrames .start) :
    d.Progresses (d.readMark bytes) := by
  have hdepth : d.phase.depth = 2 := by rw [hphase]; rfl
  unfold readMark
  split
  · exact progresses_needMore h hnext rfl
  · split_ifs
    · exact progresses_progress (h.draft hphase _) hnext hdepth.symm
    · exact progresses_progress (h.draft hphase _) hnext hdepth.symm
    · exact .fails rfl

theorem readDraftText_progresses {packages : Terminated}
    (hphase : d.phase = .draftFrames (.text packages)) :
    d.Progresses (d.readDraftText packages bytes) := by
  have hdepth : d.phase.depth = 2 := by rw [hphase]; rfl
  unfold readDraftText
  split
  · exact progresses_needMore (h.draft hphase _) hnext hdepth.symm
  · split_ifs with htext
    · exact progresses_complete (h.draft hphase _) hnext hdepth.symm
        ⟨OpCode.noConfusion, fun _ => htext⟩
    · exact .fails rfl

theorem readDraftClose_progresses {packages : Terminated}
    (hphase : d.phase = .draftFrames (.close packages)) :
    d.Progresses (d.readDraftClose packages bytes) := by
  have hdepth : d.phase.depth = 2 := by rw [hphase]; rfl
  unfold readDraftClose
  split
  · exact progresses_needMore (h.draft hphase _) hnext hdepth.symm
  · exact progresses_complete (h.draft hphase _) hnext hdepth.symm
      ⟨OpCode.noConfusion, OpCode.noConfusion⟩

theorem attempt_progresses (bytes : Bytes) : d.Progresses (d.attempt bytes) := by
  unfold attempt
  split
  · rename_i head hphase
    have hnegotiated := h.negotiated
    rw [hphase] at hnegotiated
    have hsearch : ∀ after, Phased { d with phase := .handshake after } :=
      fun after => ⟨h.opened, fun habsurd => (by cases habsurd), hnegotiated⟩
    have hdepth : d.phase.depth = 0 := by rw [hphase]; rfl
    split
    · exact progresses_needMore (hsearch _) hnext hdepth.symm
    · rename_i after block used _
      have hread : Progresses _ (readRequest { d with phase := .handshake after } block used) :=
        readRequest_progresses (hsearch after) block rfl
      cases hread with
      | fails hresult => exact .fails hresult
      | stays hnext' hdepth' hphased hwhole =>
        exact .stays hnext' (hdepth'.trans hdepth.symm) hphased hwhole
      | goes hnext' hdepth' hphased hquiet =>
        exact .goes hnext' (hdepth'.trans (by rw [hdepth]; rfl)) hphased hquiet
  · rename_i hphase
    exact readNonce_progresses h hnext hphase
  · rename_i hphase
    exact readHeader_progresses h hnext hphase
  · rename_i hphase
    exact readPayload_progresses h hnext hphase
  · rename_i hphase
    exact readMark_progresses h hnext hphase
  · rename_i hphase
    exact readDraftText_progresses h hnext hphase
  · rename_i hphase
    exact readDraftClose_progresses h hnext hphase
  · exact progresses_progress h hnext rfl

omit h hnext in
/-- Behind an attempt that went well the context fits the phase, and another phase is one deeper. -/
theorem Progresses.behind {a : Attempt Decoder Package} {package : Option Package}
    (h : d.Progresses a) (hresult : a.result = .ok package) :
    a.behind.Phased ∧
      a.behind.phase.depth = d.phase.depth + (PackageDecoder.next? a.state).toList.length := by
  cases h with
  | fails herror => cases hresult.symm.trans herror
  | @goes phase hnext hdepth hphased _ =>
    have hsome : PackageDecoder.next? a.state = some { a.state with phase, next := none } := by
      show a.state.next.map _ = _
      rw [hnext]
      rfl
    rw [behind_of_next hnext, hsome]
    exact ⟨hphased, hdepth⟩
  | stays hnext hdepth hphased _ =>
    have hnone : PackageDecoder.next? a.state = none := by
      show a.state.next.map _ = _
      rw [hnext]
      rfl
    rw [hnone]
    cases package with
    | none =>
      rw [show a.behind = a.state by simp [Attempt.behind, hnone, hresult]]
      exact ⟨hphased, hdepth⟩
    | some package =>
      rw [show a.behind = { a.state with phase := Decoder.restart a.state.phase } by
        simp only [Attempt.behind, hnone, hresult]
        rfl]
      exact ⟨hphased.restart, (depth_restart _).trans hdepth⟩

end Decoder

/-! ## The invariant -/

variable {r s : Reassembly Decoder} {items more : List (Item Package)} {verdict : Verdict}

/-- All that was handed out is whole. -/
def AllWhole (items : List (Item Package)) : Prop :=
  ∀ message, .message message ∈ packagesOf items → message.Whole

theorem AllWhole.append (h : AllWhole items) (h' : AllWhole more) : AllWhole (items ++ more) := by
  intro message hmem
  rw [packagesOf_append] at hmem
  exact (List.mem_append.1 hmem).elim (h message) (h' message)

/-- Replies are no messages. -/
theorem allWhole_replies (replies : List Bytes) : AllWhole (replies.map .reply) := by
  intro message hmem
  rw [packagesOf_map_reply] at hmem
  cases hmem

theorem packagesOf_handedOut (a : Attempt Decoder Package) (package : Option Package) :
    packagesOf (handedOut a package) = package.toList := by
  rw [handedOut, packagesOf_append, packagesOf_map_reply]
  cases package <;> rfl

/-- What holds of a connection between two passes. -/
structure Standing (r : Reassembly Decoder) (items : List (Item Package)) : Prop where
  course : Course r.decoder items
  phased : r.decoder.Phased
  switches : r.switches = r.decoder.phase.depth

theorem Course.phase_of_rejected {d : Decoder} {request : Request} (h : Course d items)
    (hmem : .rejected request ∈ packagesOf items) : d.phase = .rejected := by
  cases h with
  | opening => cases hmem
  | talking _ _ _ messages => simp [packagesOf, spoken] at hmem
  | refused hpart _ =>
    cases hphase : d.phase <;> rw [hphase] at hpart <;> first | rfl | cases hpart

/-- Throwing bytes away cannot fail. -/
theorem pass_ne_failed_of_rejected {error : Error}
    (hready : Decoder.Ready r.decoder r.pending.bytes) (hphase : r.decoder.phase = .rejected) :
    r.pass ≠ (more, .failed error, s) := by
  intro hpass
  obtain ⟨_, hruns, _⟩ :=
    runs_of_discarding (Decoder.resumable.discard hready (Decoder.discards_eq_true hphase))
  cases (hruns.unique (.last hpass (by simp))).2.1

/-- A pass hands out whole messages.  It keeps the invariant, or the connection was not turned
down. -/
theorem Standing.pass (h : Standing r items) (hready : Decoder.Ready r.decoder r.pending.bytes)
    (hpass : r.pass = (more, verdict, s)) :
    AllWhole more ∧ ((∀ error, verdict ≠ .failed error) → Standing s (items ++ more)) ∧
      (∀ request error, verdict = .failed error →
        .rejected request ∉ packagesOf (items ++ more)) := by
  have hprogress : r.decoder.Progresses r.trial :=
    Decoder.attempt_progresses h.phased hready.next _
  have hcourse := (h.course.pass hready hpass).2
  have hrefused : ∀ request error, verdict = .failed error →
      .rejected request ∉ packagesOf items := by
    rintro request error rfl hmem
    exact pass_ne_failed_of_rejected hready (h.course.phase_of_rejected hmem) hpass
  obtain ⟨_, _, heq⟩ | ⟨_, _, _, heq⟩ | ⟨hwaits, _, heq⟩ | ⟨package, hresult, _, _, heq⟩ :=
    pass_cases Decoder.resumable hready <;> rw [hpass] at heq <;> cases heq
  · refine ⟨allWhole_replies _, fun hok => absurd rfl (hok _), fun request error hfailed => ?_⟩
    rw [packagesOf_append, packagesOf_map_reply, List.append_nil]
    exact hrefused request error hfailed
  · refine ⟨allWhole_replies _, fun hok => absurd rfl (hok _), fun request error hfailed => ?_⟩
    rw [packagesOf_append, packagesOf_map_reply, List.append_nil]
    exact hrefused request error hfailed
  · refine ⟨allWhole_replies [], fun hok => ?_, fun _ _ hfailed => by cases hfailed⟩
    obtain ⟨hphased, hdepth⟩ := hprogress.behind hwaits.1
    obtain ⟨_, hnone, _⟩ := (Decoder.resumable.resumableAt hready).wait hwaits
    change PackageDecoder.next? r.trial.state = none at hnone
    have hbehind : r.trial.behind = r.trial.state := by
      simp [Attempt.behind, hnone, hwaits.1]
    rw [hbehind] at hphased hdepth
    rw [hnone] at hdepth
    exact ⟨hcourse hok, hphased, h.switches.trans hdepth.symm⟩
  · refine ⟨?_, fun hok => ?_, fun _ _ hfailed => by cases hfailed⟩
    · intro message hmem
      rw [packagesOf_handedOut, Option.mem_toList] at hmem
      obtain rfl := hmem
      cases hprogress with
      | fails herror => cases hresult.symm.trans herror
      | stays _ _ _ hwhole => exact hwhole message hresult
      | goes _ _ _ hquiet => exact absurd hresult (hquiet message)
    · obtain ⟨hphased, hdepth⟩ := hprogress.behind hresult
      refine ⟨hcourse hok, hphased, ?_⟩
      show r.switches + _ = _
      rw [h.switches]
      exact hdepth.symm

/-- What decoding comes to: whole messages, and the invariant unless it failed.  A connection that
was turned down does not fail. -/
structure Comes (items : List (Item Package)) (verdict : Verdict) (r : Reassembly Decoder) :
    Prop where
  whole : AllWhole items
  standing : verdict = .waiting → Standing r items
  refused : ∀ request, .rejected request ∈ packagesOf items → verdict = .waiting

/-- Passes keep the invariant until one is the last. -/
theorem Standing.runs (h : Standing r items) (hwhole : AllWhole items)
    (hready : Decoder.Ready r.decoder r.pending.bytes) (hrun : Runs r more verdict s) :
    Comes (items ++ more) verdict s := by
  induction hrun generalizing items with
  | @last _ _ _ verdict hpass hlast =>
    obtain ⟨hmore, hstanding, hrefused⟩ := h.pass hready hpass
    refine ⟨hwhole.append hmore, fun hwaiting => ?_, fun request hmem => ?_⟩
    · exact hstanding fun _ hfailed => by cases hwaiting.symm.trans hfailed
    · cases verdict with
      | again => exact absurd rfl hlast
      | waiting => rfl
      | failed error => exact absurd hmem (hrefused request error rfl)
  | more hpass _ ih =>
    obtain ⟨hmore, hstanding, _⟩ := h.pass hready hpass
    rw [← List.append_assoc]
    exact ih (hstanding (by simp)) (hwhole.append hmore)
      (ready_of_pass_eq_again Decoder.resumable hready hpass).1

theorem Standing.feed (h : Standing r items) (hwhole : AllWhole items)
    (hready : Decoder.Ready r.decoder r.pending.bytes) (segments : List Bytes) :
    Comes (items ++ (r.feed segments).1) (r.feed segments).2.1 (r.feed segments).2.2 := by
  induction segments generalizing r items with
  | nil =>
    rw [Reassembly.feed, List.append_nil]
    exact ⟨hwhole, fun _ => h, fun _ _ => rfl⟩
  | cons segment rest ih =>
    have hready' := ready_extend Decoder.resumable hready segment
    have hrun := runs_decode Decoder.resumable hready'
    have hextend : Standing (r.extend segment) items := ⟨h.course, h.phased, h.switches⟩
    have hcomes := hextend.runs hwhole hready' hrun
    rw [Reassembly.feed]
    split
    · rename_i hdecode
      rw [hdecode] at hcomes hrun
      have hrest := ih (hcomes.standing rfl) hcomes.whole (hrun.ready Decoder.resumable hready')
      rwa [List.append_assoc] at hrest
    · exact hcomes

theorem standing_fresh (options : WebSocketOptions) (limit : Nat) :
    Standing (fresh options limit) [] := by
  refine ⟨.opening rfl, ⟨?_, ?_, rfl⟩, rfl⟩
  · intro op hop
    cases hop
  · intro hphase
    cases hphase

/-! ## Connections that were turned down -/

/-- A connection that was turned down throws away whatever it reads, and hands out nothing. -/
theorem feed_of_refused (hready : Decoder.Ready r.decoder r.pending.bytes)
    (hphase : r.decoder.phase = .rejected) (hempty : r.pending.bytes = [])
    (segments : List Bytes) :
    ∃ s, r.feed segments = ([], .waiting, s) ∧ s.pending.bytes = [] ∧ s.decoder = r.decoder ∧
      s.switches = r.switches := by
  induction segments generalizing r with
  | nil => exact ⟨r, rfl, hempty, rfl, rfl⟩
  | cons segment rest ih =>
    have hready' := ready_extend Decoder.resumable hready segment
    obtain ⟨s, hruns, hnone, hdecoder, _, hswitches, _⟩ :=
      runs_of_discarding (Decoder.resumable.discard hready' (Decoder.discards_eq_true hphase))
    have hsame : s.decoder = r.decoder := hdecoder
    obtain ⟨t, hfeed, hnone', hdecoder', hswitches'⟩ :=
      ih (hruns.ready Decoder.resumable hready') (by rw [hsame, hphase]) hnone
    refine ⟨t, ?_, hnone', hdecoder'.trans hsame, hswitches'.trans hswitches⟩
    rw [Reassembly.feed, decode_eq_of_runs Decoder.resumable hready' hruns]
    simp only [hfeed, List.append_nil]

/-- It has nothing left to throw away between two segments. -/
theorem pending_of_refused (hready : Decoder.Ready r.decoder r.pending.bytes)
    (hsettled : Settled r) (hphase : r.decoder.phase = .rejected) : r.pending.bytes = [] := by
  obtain ⟨s, hruns, hnone, _⟩ :=
    runs_of_discarding (Decoder.resumable.discard hready (Decoder.discards_eq_true hphase))
  have hlast : Runs r [] .waiting r.pass.2.2 :=
    .last (Prod.ext hsettled.items (Prod.ext hsettled.verdict rfl)) (by simp)
  obtain ⟨_, _, rfl⟩ := hruns.unique hlast
  rw [hsettled.behind.bytes, hnone]

/-! ## Connections from their beginning -/

/-- The state of a connection that waits for bytes, with the packages that it handed out, the number
of times it went over to another phase and the version. -/
inductive Stands (r : Reassembly Decoder) : List Package → Prop where
  | asked {head : Terminated} (hphase : r.decoder.phase = .handshake head)
      (hswitches : r.switches = 0) (hversion : r.decoder.context.version = none) : Stands r []
  /-- The nonce of a draft-00 request has not come yet. -/
  | challenged {info : HandshakeInfo} (hphase : r.decoder.phase = .nonce (some info))
      (hdraft : info.version = .hybi00) (hswitches : r.switches = 1)
      (hversion : r.decoder.context.version = none) : Stands r []
  | refused (request : Request) (hphase : r.decoder.phase = .rejected)
      (hswitches : r.switches = 1) (hversion : r.decoder.context.version = none) :
      Stands r [.rejected request]
  | framed {info : HandshakeInfo} {part : FramePart} (hphase : r.decoder.phase = .frames part)
      (hframed : info.version.isFramed = true) (hswitches : r.switches = 1)
      (hversion : r.decoder.context.version = some info.version) (messages : List Message) :
      Stands r (.handshake info :: messages.map .message)
  | draft {info : HandshakeInfo} {part : DraftPart} (hphase : r.decoder.phase = .draftFrames part)
      (hdraft : info.version = .hybi00) (hswitches : r.switches = 2)
      (hversion : r.decoder.context.version = some info.version) (messages : List Message) :
      Stands r (.handshake info :: messages.map .message)

theorem Standing.stands (h : Standing r items) : Stands r (packagesOf items) := by
  obtain ⟨hcourse, ⟨_, _, hnegotiated⟩, hswitches⟩ := h
  cases hcourse with
  | opening hpart =>
    cases hphase : r.decoder.phase <;> rw [hphase] at hpart hnegotiated hswitches
    case handshake => exact .asked hphase hswitches hnegotiated
    case nonce =>
      obtain ⟨hnone, known, rfl, hdraft⟩ := hnegotiated
      exact .challenged hphase hdraft hswitches hnone
    all_goals cases hpart
  | @talking info reply hpart hversion _ messages =>
    show Stands r (.handshake info :: packagesOf (spoken messages))
    rw [packagesOf_spoken]
    cases hphase : r.decoder.phase <;> rw [hphase] at hpart hnegotiated hswitches
    case frames =>
      obtain ⟨known, hsome, hframed⟩ := hnegotiated
      cases hsome.symm.trans hversion
      exact .framed hphase hframed hswitches hversion messages
    case draftFrames =>
      have hdraft : info.version = .hybi00 := Option.some.inj (hversion.symm.trans hnegotiated)
      exact .draft hphase hdraft hswitches hversion messages
    all_goals cases hpart
  | refused hpart request =>
    cases hphase : r.decoder.phase <;> rw [hphase] at hpart hnegotiated hswitches
    case rejected => exact .refused request hphase hswitches hnegotiated
    all_goals cases hpart

/-- Only a connection that was turned down handed a refusal out. -/
theorem Stands.phase_of_rejected {packages : List Package} {request : Request}
    (h : Stands r packages) (hmem : .rejected request ∈ packages) :
    r.decoder.phase = .rejected := by
  cases h with
  | refused _ hphase _ _ => exact hphase
  | asked | challenged => cases hmem
  | framed | draft => simp at hmem

/-- The packages that a connection may hand out, in their order. -/
def Grammar (packages : List Package) : Prop :=
  packages = [] ∨ (∃ request, packages = [.rejected request]) ∨
    ∃ info, ∃ messages : List Message, packages = .handshake info :: messages.map .message

theorem Talk.grammar {version : Option Version} (h : Talk version items) :
    Grammar (packagesOf items) ∧ (repliesOf items).length ≤ 1 := by
  cases h with
  | nothing => exact ⟨.inl rfl, Nat.zero_le _⟩
  | keptBack _ => exact ⟨.inl rfl, Nat.le_refl _⟩
  | refused request => exact ⟨.inr (.inl ⟨request, rfl⟩), Nat.le_refl _⟩
  | @upgraded info reply _ _ messages =>
    refine ⟨.inr (.inr ⟨info, messages, ?_⟩), ?_⟩
    · show .handshake info :: packagesOf (spoken messages) = _
      rw [packagesOf_spoken]
    · show (reply :: repliesOf (spoken messages)).length ≤ 1
      rw [repliesOf_spoken]
      exact Nat.le_refl _

/-- A connection hands out nothing but replies, or one refusal, or one upgrade and whole messages
behind it, with one reply at most.  As long as decoding does not fail, its packages and its phase
tell how often it went over to another phase and what its version is.  Behind a refusal decoding
does not fail: all bytes are thrown away, and nothing is handed out. -/
theorem feed_phases (options : WebSocketOptions) (limit : Nat) (segments : List Bytes) :
    let result := (fresh options limit).feed segments
    let packages := packagesOf result.1
    let r := result.2.2
    Grammar packages ∧ (∀ message, .message message ∈ packages → message.Whole) ∧
      (repliesOf result.1).length ≤ 1 ∧ (result.2.1 = .waiting → Stands r packages) ∧
      ∀ request, .rejected request ∈ packages →
        result.2.1 = .waiting ∧ r.pending.bytes = [] ∧
          ∀ later, ∃ s, r.feed later = ([], .waiting, s) ∧ s.pending.bytes = [] ∧
            s.decoder = r.decoder ∧ s.switches = r.switches := by
  intro result packages r
  have hcomes : Comes result.1 result.2.1 r :=
    (standing_fresh options limit).feed (fun _ hmem => by cases hmem) (ready_fresh options limit)
      segments
  obtain ⟨hgrammar, hreplies⟩ := (talk_of_feed options limit segments).grammar
  refine ⟨hgrammar, hcomes.whole, hreplies, fun hwaiting => (hcomes.standing hwaiting).stands,
    fun request hmem => ?_⟩
  have hwaiting : result.2.1 = .waiting := hcomes.refused request hmem
  have hfeed : (fresh options limit).feed segments = (result.1, .waiting, r) := by
    rw [← hwaiting]
  obtain ⟨hready, _, hsettled⟩ := reached_of_feed hfeed
  have hphase := (hcomes.standing hwaiting).stands.phase_of_rejected hmem
  have hempty := pending_of_refused hready hsettled hphase
  exact ⟨hwaiting, hempty, feed_of_refused hready hphase hempty⟩

/-- A request that asks for no version, and more bytes behind it than the limit allows. -/
def unversionedRequest : Bytes :=
  Utf8.encode "GET / HTTP/1.1\r\n\r\n" ++ List.replicate 64 0x2A

theorem feed_phases_of_unversionedRequest :
    let result := (fresh {} 20).feed [unversionedRequest]
    packagesOf result.1 = [.rejected ⟨"GET", "/", []⟩] ∧ result.2.1 = .waiting ∧
      result.2.2.pending.bytes = [] ∧
      ∀ later, ∃ s, result.2.2.feed later = ([], .waiting, s) ∧ s.pending.bytes = [] ∧
        s.decoder = result.2.2.decoder ∧ s.switches = result.2.2.switches := by
  intro result
  have hpackages : packagesOf result.1 = [.rejected ⟨"GET", "/", []⟩] := by decide +kernel
  obtain ⟨_, _, _, _, hrefused⟩ := feed_phases {} 20 [unversionedRequest]
  exact ⟨hpackages, hrefused ⟨"GET", "/", []⟩ (by simp [result, hpackages])⟩

end FramedChannel.WebSocket
