import FramedChannel.Proofs.WebSocket.Replies

/-!
# What a connection comes to

From its first byte on, a WebSocket decodes one of three things: nothing, a
reply with the refusal that it belongs to, or a reply with the upgrade that it
belongs to and messages behind them.

* `Phase.part` says how far the opening is, and `Decoder.Advances` what one
  attempt does there.
* `Course` is the invariant between two passes.
* `Talk` are the items of a connection, whether or not decoding failed, with the
  version in its context.  It is closed under prefixes, and `talk_of_feed` says
  that every connection keeps to it.
-/

namespace FramedChannel.WebSocket

open Reassembly

/-- How far the opening of a connection is. -/
inductive Part where
  | opening
  | talking
  | refused
  deriving DecidableEq, Repr

/-- The part of a connection that a phase belongs to. -/
def Phase.part : Phase → Part
  | handshake _ | nonce _ => .opening
  | frames _ | draftFrames _ => .talking
  | rejected => .refused

@[simp] theorem Phase.part_restart (phase : Phase) : (Decoder.restart phase).part = phase.part := by
  cases phase <;> rfl

/-! ## One attempt -/

namespace Decoder

/-- What an attempt does to the opening of a connection. -/
inductive Advances (d : Decoder) (a : Attempt Decoder Package) : Prop where
  /-- It comes to no package, and stays in its part. -/
  | silent (hreplies : a.replies = []) (hresult : ∀ package, a.result ≠ .ok (some package))
      (hphase : a.state.phase.part = d.phase.part)
      (hnext : ∀ phase, a.state.next = some phase → phase.part = d.phase.part)
      (hversion : a.state.context.version = d.context.version)
  | speaks (message : Message) (hpart : d.phase.part = .talking) (hreplies : a.replies = [])
      (hresult : a.result = .ok (some (.message message)))
      (hphase : a.state.phase.part = d.phase.part) (hnext : a.state.next = none)
      (hversion : a.state.context.version = d.context.version)
  | refuses (request : Request) (hpart : d.phase.part = .opening)
      (hreplies : a.replies = [rejectReply])
      (hresult : a.result = .ok (some (.rejected request)))
      (hnext : a.state.next = some .rejected)
  | accepts {info : HandshakeInfo} {reply : Bytes} {phase : Phase} (hpart : d.phase.part = .opening)
      (hreplies : a.replies = [reply]) (hresult : a.result = .ok (some (.handshake info)))
      (hanswers : AnsweredBy (.handshake info) reply) (hnext : a.state.next = some phase)
      (hphase : phase.part = .talking) (hversion : a.state.context.version = some info.version)

variable {d d' : Decoder} {used : Nat} {bytes : Bytes} {error : Error} {message : Message}

section Silent

variable (hphase : d'.phase.part = d.phase.part) (hversion : d'.context.version = d.context.version)

include hphase hversion

theorem advances_needMore (hnext : d'.next = none) : d.Advances (.needMore d') :=
  .silent rfl (fun _ h => by cases h) hphase (fun _ h => by cases hnext.symm.trans h) hversion

theorem advances_progress (hnext : ∀ phase, d'.next = some phase → phase.part = d.phase.part) :
    d.Advances (.progress d' used) :=
  .silent rfl (fun _ h => by cases h) hphase hnext hversion

theorem advances_fail (hnext : d'.next = none) :
    d.Advances (.fail d' used error) :=
  .silent rfl (fun _ h => by cases h) hphase (fun _ h => by cases hnext.symm.trans h) hversion

theorem advances_complete (hpart : d.phase.part = .talking)
    (hnext : d'.next = none) : d.Advances (.complete d' used (.message message)) :=
  .speaks message hpart rfl rfl hphase hnext hversion

end Silent

variable (hnext : d.next = none)

include hnext

theorem readRequest_advances {search : Terminated} (head : Bytes)
    (hphase : d.phase.part = .opening) :
    d.Advances (readRequest { d with phase := .handshake search } head used) := by
  have hpart : (Phase.handshake search).part = d.phase.part := hphase.symm
  unfold readRequest
  split
  · exact advances_fail hpart rfl hnext
  · rename_i request _
    split
    · exact .refuses request hphase rfl rfl rfl
    · rename_i version _
      dsimp only
      split
      · refine advances_progress hpart rfl ?_
        intro phase hsome
        cases hsome
        exact hphase.symm
      · split
        · exact advances_fail hpart rfl hnext
        · rename_i key hkey
          exact .accepts hphase rfl rfl (.accepted hkey) rfl rfl rfl

theorem readNonce_advances {info : Option HandshakeInfo} (hphase : d.phase.part = .opening) :
    d.Advances (d.readNonce info bytes) := by
  have hpart : (Phase.nonce none).part = d.phase.part := hphase.symm
  unfold readNonce
  split
  · exact advances_needMore rfl rfl hnext
  · dsimp only
    split
    · exact advances_fail hpart rfl hnext
    · split
      · exact advances_fail hpart rfl hnext
      · rename_i hanswer
        exact .accepts hphase rfl rfl (.challenged hanswer) rfl rfl rfl

omit hnext in
theorem version_of_beginFrame {context after : Context} {first second : UInt8} {length : Nat}
    {mask : Option MaskKey} (h : context.beginFrame first second length mask = .ok after) :
    after.version = context.version := by
  unfold Context.beginFrame at h
  dsimp only at h
  repeat' split at h
  all_goals cases h
  all_goals rfl

omit hnext in
theorem version_resolve (context : Context) (payload : Bytes) :
    (context.resolve payload).1.version = context.version := by
  unfold Context.resolve
  dsimp only
  repeat' split
  all_goals rfl

omit hnext in
/-- A finished frame is a message, if it is anything. -/
theorem advances_resolve {context : Context} {payload : Bytes} {phase : Phase}
    (hpart : d.phase.part = .talking) (hphase : phase.part = .talking)
    (hversion : context.version = d.context.version) (hnext : d'.next = none) :
    d.Advances ⟨{ d' with phase, context := (context.resolve payload).1 }, used, [],
      (context.resolve payload).2⟩ := by
  have hversion' := (version_resolve context payload).trans hversion
  by_cases hsome : ∃ package, (context.resolve payload).2 = .ok (some package)
  · obtain ⟨package, hpackage⟩ := hsome
    obtain ⟨message, rfl⟩ := message_of_resolve hpackage
    exact .speaks message hpart rfl hpackage (hphase.trans hpart.symm) hnext hversion'
  · refine .silent rfl ?_ (hphase.trans hpart.symm) ?_ hversion'
    · exact fun package hpackage => hsome ⟨package, hpackage⟩
    · exact fun _ h => by cases hnext.symm.trans h

theorem readHeader_advances (hphase : d.phase = .frames .header) :
    d.Advances (d.readHeader bytes) := by
  have hpart : d.phase.part = .talking := by rw [hphase]; rfl
  unfold readHeader
  split
  · dsimp only
    split
    · exact advances_needMore rfl rfl hnext
    · split
      · exact advances_fail rfl rfl hnext
      · rename_i hbegin
        have hversion := version_of_beginFrame hbegin
        split
        · exact advances_resolve hpart hpart hversion hnext
        · refine advances_progress hpart.symm hversion ?_
          exact fun _ h => by cases hnext.symm.trans h
  · exact advances_needMore rfl rfl hnext

theorem readPayload_advances (hphase : d.phase = .frames .payload) :
    d.Advances (d.readPayload bytes) := by
  have hpart : d.phase.part = .talking := by rw [hphase]; rfl
  unfold readPayload
  dsimp only
  split
  · exact advances_needMore rfl rfl hnext
  · exact advances_resolve hpart rfl rfl hnext

theorem readMark_advances (hphase : d.phase.part = .talking) : d.Advances (d.readMark bytes) := by
  have hnone : ∀ phase : Phase, d.next = some phase → phase.part = d.phase.part :=
    fun _ h => by cases hnext.symm.trans h
  unfold readMark
  split
  · exact advances_needMore rfl rfl hnext
  · split
    · exact advances_progress hphase.symm rfl hnone
    · split
      · exact advances_progress hphase.symm rfl hnone
      · exact advances_fail rfl rfl hnext

theorem readDraftText_advances (hphase : d.phase.part = .talking) (search : Terminated) :
    d.Advances (d.readDraftText search bytes) := by
  unfold readDraftText
  split
  · exact advances_needMore hphase.symm rfl hnext
  · split
    · exact advances_complete hphase.symm rfl hphase hnext
    · exact advances_fail hphase.symm rfl hnext

theorem readDraftClose_advances (hphase : d.phase.part = .talking) (search : Terminated) :
    d.Advances (d.readDraftClose search bytes) := by
  unfold readDraftClose
  split
  · exact advances_needMore hphase.symm rfl hnext
  · exact advances_complete hphase.symm rfl hphase hnext

theorem attempt_advances (bytes : Bytes) : d.Advances (d.attempt bytes) := by
  unfold attempt
  split
  · rename_i head hphase
    have hpart : d.phase.part = .opening := by rw [hphase]; rfl
    split
    · exact advances_needMore hpart.symm rfl hnext
    · exact readRequest_advances hnext _ hpart
  · rename_i hphase
    exact readNonce_advances hnext (by rw [hphase]; rfl)
  · rename_i hphase
    exact readHeader_advances hnext hphase
  · rename_i hphase
    exact readPayload_advances hnext hphase
  · rename_i hphase
    exact readMark_advances hnext (by rw [hphase]; rfl)
  · rename_i hphase
    exact readDraftText_advances hnext (by rw [hphase]; rfl) _
  · rename_i hphase
    exact readDraftClose_advances hnext (by rw [hphase]; rfl) _
  · exact advances_progress rfl rfl fun _ h => by cases hnext.symm.trans h

end Decoder

/-! ## The invariant -/

/-- The messages as items. -/
def spoken (messages : List Message) : List (Item Package) :=
  messages.map fun message => .package (.message message)

theorem packagesOf_spoken (messages : List Message) :
    packagesOf (spoken messages) = messages.map .message := by
  induction messages with
  | nil => rfl
  | cons message rest ih => exact congrArg (.message message :: ·) ih

theorem repliesOf_spoken (messages : List Message) : repliesOf (spoken messages) = [] := by
  induction messages with
  | nil => rfl
  | cons message rest ih => exact ih

/-- What a connection has decoded between two passes. -/
inductive Course (d : Decoder) : List (Item Package) → Prop where
  | opening (hpart : d.phase.part = .opening) : Course d []
  | talking {info : HandshakeInfo} {reply : Bytes} (hpart : d.phase.part = .talking)
      (hversion : d.context.version = some info.version)
      (hanswers : AnsweredBy (.handshake info) reply) (messages : List Message) :
      Course d (.reply reply :: .package (.handshake info) :: spoken messages)
  | refused (hpart : d.phase.part = .refused) (request : Request) :
      Course d [.reply rejectReply, .package (.rejected request)]

/-- The items of a connection whose context has the given version.  Decoding may have failed behind
a reply whose package was kept back. -/
inductive Talk (version : Option Version) : List (Item Package) → Prop where
  | nothing : Talk version []
  | keptBack {package : Package} {reply : Bytes} (hanswers : AnsweredBy package reply) :
      Talk version [.reply reply]
  | refused (request : Request) : Talk version [.reply rejectReply, .package (.rejected request)]
  | upgraded {info : HandshakeInfo} {reply : Bytes} (hversion : version = some info.version)
      (hanswers : AnsweredBy (.handshake info) reply) (messages : List Message) :
      Talk version (.reply reply :: .package (.handshake info) :: spoken messages)

section Course

variable {d d' : Decoder} {a : Attempt Decoder Package} {items : List (Item Package)}

theorem Course.talk (h : Course d items) : Talk d.context.version items := by
  cases h with
  | opening _ => exact .nothing
  | talking _ hversion hanswers messages => exact .upgraded hversion hanswers messages
  | refused _ request => exact .refused request

/-- A decoder in the same part with the same version goes on where the other one stands. -/
theorem Course.of_same (h : Course d items) (hpart : d'.phase.part = d.phase.part)
    (hversion : d'.context.version = d.context.version) : Course d' items := by
  cases h with
  | opening hopening => exact .opening (hpart.trans hopening)
  | talking htalking hsome hanswers messages =>
    exact .talking (hpart.trans htalking) (hversion.trans hsome) hanswers messages
  | refused hrefused request => exact .refused (hpart.trans hrefused) request

theorem Course.eq_nil (h : Course d items) (hpart : d.phase.part = .opening) : items = [] := by
  cases h with
  | opening _ => rfl
  | talking hpart' _ _ _ | refused hpart' _ => cases hpart.symm.trans hpart'

theorem Course.speak (h : Course d items) (hpart : d.phase.part = .talking) (message : Message) :
    Course d (items ++ [.package (.message message)]) := by
  cases h with
  | opening hpart' | refused hpart' _ => cases hpart.symm.trans hpart'
  | talking _ hversion hanswers messages =>
    have hmore := Course.talking hpart hversion hanswers (messages ++ [message])
    rwa [spoken, List.map_append] at hmore

theorem behind_of_next {phase : Phase} (h : a.state.next = some phase) :
    a.behind = { a.state with phase, next := none } := by
  have hnext : PackageDecoder.next? a.state = some { a.state with phase, next := none } := by
    show a.state.next.map _ = _
    rw [h]
    rfl
  unfold Attempt.behind
  rw [hnext]

/-- Behind an attempt that comes to nothing, the decoder is in the state that it left. -/
theorem behind_of_nothing (h : a.state.next = none) (hresult : a.result = .ok none) :
    a.behind = a.state := by
  have hnext : PackageDecoder.next? a.state = none := by
    show a.state.next.map _ = none
    rw [h]
    rfl
  simp [Attempt.behind, hnext, hresult]

/-- Behind a package the phase begins anew. -/
theorem behind_of_package {package : Package} (h : a.state.next = none)
    (hresult : a.result = .ok (some package)) :
    a.behind = { a.state with phase := Decoder.restart a.state.phase } := by
  have hnext : PackageDecoder.next? a.state = none := by
    show a.state.next.map _ = none
    rw [h]
    rfl
  simp only [Attempt.behind, hnext, hresult]
  rfl

/-- Behind an attempt that leads to no other phase, the decoder is in the same part. -/
theorem behind_of_none (h : a.state.next = none) :
    a.behind.phase.part = a.state.phase.part ∧ a.behind.context = a.state.context := by
  have hnext : PackageDecoder.next? a.state = none := by
    show a.state.next.map _ = _
    rw [h]
    rfl
  rcases hresult : a.result with error | _ | package
  · simp [Attempt.behind, hnext, hresult]
  · simp [Attempt.behind, hnext, hresult]
  · simp only [Attempt.behind, hnext, hresult]
    exact ⟨Phase.part_restart _, rfl⟩

/-- An attempt that goes well goes on with what the connection decodes. -/
theorem Course.behind (h : Course d items) (hadvances : d.Advances a) {package : Option Package}
    (hresult : a.result = .ok package) : Course a.behind (items ++ handedOut a package) := by
  cases hadvances with
  | silent hreplies hnone hphase hnext hversion =>
    have hitems : handedOut a package = [] := by
      cases package with
      | none => rw [handedOut, hreplies]; rfl
      | some package => exact absurd hresult (hnone package)
    rw [hitems, List.append_nil]
    cases hnext' : a.state.next with
    | none =>
      obtain ⟨hstays, hcontext⟩ := behind_of_none hnext'
      exact h.of_same (hstays.trans hphase) (by rw [hcontext, hversion])
    | some phase =>
      rw [behind_of_next hnext']
      exact h.of_same (hnext phase hnext') hversion
  | speaks message hpart hreplies hresult' hphase hnext hversion =>
    cases hresult'.symm.trans hresult
    have hitems : handedOut a (some (.message message)) = [.package (.message message)] := by
      rw [handedOut, hreplies]
      rfl
    obtain ⟨hstays, hcontext⟩ := behind_of_none hnext
    have hpart' := hstays.trans hphase
    rw [hitems]
    exact (h.of_same hpart' (by rw [hcontext, hversion])).speak (hpart'.trans hpart) message
  | refuses request hpart hreplies hresult' hnext =>
    cases hresult'.symm.trans hresult
    rw [h.eq_nil hpart, handedOut, hreplies, behind_of_next hnext]
    exact .refused rfl request
  | accepts hpart hreplies hresult' hanswers hnext hphase hversion =>
    cases hresult'.symm.trans hresult
    rw [h.eq_nil hpart, handedOut, hreplies, behind_of_next hnext]
    exact .talking (d := { a.state with phase := _, next := none }) hphase hversion hanswers []

/-- An attempt that fails, or whose package is kept back, leaves at most a reply. -/
theorem Course.failed (h : Course d items) (hadvances : d.Advances a) :
    Talk a.state.context.version (items ++ a.replies.map .reply) := by
  cases hadvances with
  | silent hreplies _ hphase _ hversion =>
    rw [hreplies, List.map_nil, List.append_nil]
    exact (h.of_same hphase hversion).talk
  | speaks _ _ hreplies _ hphase _ hversion =>
    rw [hreplies, List.map_nil, List.append_nil]
    exact (h.of_same hphase hversion).talk
  | refuses request hpart hreplies _ _ =>
    rw [h.eq_nil hpart, hreplies]
    exact .keptBack (.refused request)
  | accepts hpart hreplies _ hanswers _ _ _ =>
    rw [h.eq_nil hpart, hreplies]
    exact .keptBack hanswers

end Course

/-! ## Connections from their beginning -/

variable {r s : Reassembly Decoder} {items more : List (Item Package)} {verdict : Verdict}

/-- One pass goes on with what the connection decodes, unless it fails. -/
theorem Course.pass (h : Course r.decoder items)
    (hready : Decoder.Ready r.decoder r.pending.bytes) (hpass : r.pass = (more, verdict, s)) :
    Talk s.decoder.context.version (items ++ more) ∧
      ((∀ error, verdict ≠ .failed error) → Course s.decoder (items ++ more)) := by
  have hadvances : r.decoder.Advances r.trial := Decoder.attempt_advances hready.next _
  obtain ⟨_, _, heq⟩ | ⟨_, _, _, heq⟩ | ⟨hwaits, _, heq⟩ | ⟨_, hresult, _, _, heq⟩ :=
    pass_cases Decoder.resumable hready <;> rw [hpass] at heq <;> cases heq
  · exact ⟨h.failed hadvances, fun hok => absurd rfl (hok _)⟩
  · exact ⟨h.failed hadvances, fun hok => absurd rfl (hok _)⟩
  · have hcourse : Course r.trial.state (items ++ []) := by
      rw [List.append_nil]
      cases hadvances with
      | silent _ _ hphase _ hversion => exact h.of_same hphase hversion
      | speaks _ _ _ hresult _ _ _ | refuses _ _ _ hresult _ | accepts _ _ hresult _ _ _ _ =>
        cases hwaits.1.symm.trans hresult
    exact ⟨hcourse.talk, fun _ => hcourse⟩
  · have hcourse := h.behind hadvances hresult
    exact ⟨hcourse.talk, fun _ => hcourse⟩

/-- Passes do so until one is the last. -/
theorem Course.runs (h : Course r.decoder items)
    (hready : Decoder.Ready r.decoder r.pending.bytes) (hrun : Runs r more verdict s) :
    Talk s.decoder.context.version (items ++ more) ∧
      (verdict = .waiting → Course s.decoder (items ++ more)) := by
  induction hrun generalizing items with
  | last hpass _ =>
    obtain ⟨htalk, hcourse⟩ := h.pass hready hpass
    exact ⟨htalk, fun hwaiting => hcourse fun _ hfailed => by cases hwaiting.symm.trans hfailed⟩
  | more hpass _ ih =>
    have hcourse := (h.pass hready hpass).2 (by simp)
    rw [← List.append_assoc]
    exact ih hcourse (ready_of_pass_eq_again Decoder.resumable hready hpass).1

theorem Course.feed (h : Course r.decoder items)
    (hready : Decoder.Ready r.decoder r.pending.bytes) (segments : List Bytes) :
    Talk (r.feed segments).2.2.decoder.context.version (items ++ (r.feed segments).1) := by
  induction segments generalizing r items with
  | nil =>
    rw [Reassembly.feed, List.append_nil]
    exact h.talk
  | cons segment rest ih =>
    have hready' := ready_extend Decoder.resumable hready segment
    have hrun := runs_decode Decoder.resumable hready'
    obtain ⟨htalk, hcourse⟩ := Course.runs (r := r.extend segment) h hready' hrun
    rw [Reassembly.feed]
    split
    · rename_i hdecode
      rw [hdecode] at hcourse hrun
      have hrest := ih (hcourse rfl) (hrun.ready Decoder.resumable hready')
      rwa [List.append_assoc] at hrest
    · exact htalk

/-- Whatever bytes a connection reads, and however they are cut, it keeps to `Talk`. -/
theorem talk_of_feed (options : WebSocketOptions) (limit : Nat) (segments : List Bytes) :
    Talk ((fresh options limit).feed segments).2.2.decoder.context.version
      ((fresh options limit).feed segments).1 := by
  have hcourse : Course (fresh options limit).decoder [] := .opening rfl
  exact hcourse.feed (ready_fresh options limit) segments

/-! ## What follows -/

variable {version : Option Version}

/-- A connection has one reply at most. -/
theorem Talk.replies (h : Talk version items) :
    repliesOf items = [] ∨
      ∃ package reply, AnsweredBy package reply ∧ repliesOf items = [reply] := by
  cases h with
  | nothing => exact .inl rfl
  | keptBack hanswers => exact .inr ⟨_, _, hanswers, rfl⟩
  | refused request => exact .inr ⟨_, _, .refused request, rfl⟩
  | @upgraded _ reply _ hanswers messages =>
    exact .inr ⟨_, _, hanswers, congrArg (reply :: ·) (repliesOf_spoken messages)⟩

/-- What was decoded first is such a conversation as well. -/
theorem Talk.of_prefix (h : Talk version items) (hbelow : more <+: items) : Talk version more := by
  cases h with
  | nothing =>
    rw [List.prefix_nil.1 hbelow]
    exact .nothing
  | keptBack hanswers =>
    rcases List.prefix_cons_iff.1 hbelow with rfl | ⟨rest, rfl, hrest⟩
    · exact .nothing
    · rw [List.prefix_nil.1 hrest]
      exact .keptBack hanswers
  | refused request =>
    rcases List.prefix_cons_iff.1 hbelow with rfl | ⟨rest, rfl, hrest⟩
    · exact .nothing
    · rcases List.prefix_cons_iff.1 hrest with rfl | ⟨others, rfl, hothers⟩
      · exact .keptBack (.refused request)
      · rw [List.prefix_nil.1 hothers]
        exact .refused request
  | upgraded hversion hanswers messages =>
    rcases List.prefix_cons_iff.1 hbelow with rfl | ⟨rest, rfl, hrest⟩
    · exact .nothing
    · rcases List.prefix_cons_iff.1 hrest with rfl | ⟨others, rfl, ⟨last, hothers⟩⟩
      · exact .keptBack hanswers
      · obtain ⟨begun, _, _, rfl, _⟩ := List.map_eq_append_iff.1 hothers.symm
        exact .upgraded hversion hanswers begun

end FramedChannel.WebSocket
