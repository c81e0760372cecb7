import FramedChannel.Proofs.Package.Bounded
import FramedChannel.Proofs.WebSocket.Reached

/-!
# Limits of a WebSocket

What a WebSocket keeps for its peer is bounded by the limit, and so is what it
hands out.  Single attempts are held to the limit where they use bytes, and
messages of several frames where their headers are read.

* `Context.Bounded` is the invariant of the collected fragments, and
  `Phase.Bounded` what a phase needs to keep it.
* There is one lemma for each phase, which says that an attempt keeps the
  invariant and fits the limit.  `Decoder.bounding` puts them together.
* `memory_bounded` is the result, for all decoders of the library.
-/

namespace FramedChannel.WebSocket

open Reassembly

variable {options : WebSocketOptions} {limit : Nat}

/-- What a package needs of the limit.  Only messages count. -/
def packageSize : Package → Nat
  | .message message => message.data.length
  | _ => 0

/-! ## The context -/

/-- The operation codes that begin a message of frames. -/
theorem isText_or_isBinary {op : OpCode} (hdata : op.isControl = false)
    (hfirst : op ≠ .continuation) :
    op = .text ∨ op = .binary := by
  revert hdata hfirst
  cases op <;> decide

namespace Context

variable {context after : Context} {first second : UInt8} {length : Nat} {mask : Option MaskKey}
  {payload : Bytes}

/-- The fragments belong to a text or binary message, are counted, and leave the limit alone. -/
structure Bounded (options : WebSocketOptions) (limit : Nat) (context : Context) : Prop where
  sound : context.Sound options limit
  opened : ∀ op, context.messageOp = some op →
    (op = .text ∨ op = .binary) ∧ context.fragments ≠ []
  room : context.fragmentsLength ≤ limit

/-- There is room for the current frame. -/
structure Admits (limit : Nat) (context : Context) (length : Nat) : Prop where
  placed : context.Placed
  room : context.op.isControl = false → context.fragmentsLength + length ≤ limit

theorem Bounded.negotiated (h : context.Bounded options limit) (version : Version)
    (subProtocol : Option String) :
    (context.negotiated version subProtocol).Bounded options limit :=
  ⟨h.sound.negotiated version subProtocol, h.opened, h.room⟩

theorem Bounded.of_beginFrame (h : context.Bounded options limit)
    (hbegin : context.beginFrame first second length mask = .ok after) :
    after.Bounded options limit := by
  refine ⟨h.sound.of_beginFrame hbegin, ?_, ?_⟩ <;>
    obtain ⟨_, _, _, op, _, _, rfl⟩ := beginFrame_eq_ok_iff.1 hbegin
  · exact h.opened
  · exact h.room

/-- A frame is let in where its message has room for it. -/
theorem Bounded.admits_of_beginFrame (h : context.Bounded options limit) (hlimit : 0 < limit)
    (hbegin : context.beginFrame first second length mask = .ok after) :
    after.Admits limit length := by
  refine ⟨placed_of_beginFrame hbegin, ?_⟩
  obtain ⟨_, _, _, op, _, hfault, rfl⟩ := beginFrame_eq_ok_iff.1 hbegin
  intro hdata
  change op.isControl = false at hdata
  rw [frameFault, hdata, if_neg (by decide)] at hfault
  unfold dataFault at hfault
  simp only [h.sound.limit_eq] at hfault
  split_ifs at hfault with _ _ hlong
  exact Nat.not_lt.1 fun hlt => hlong ⟨hlimit, hlt⟩

/-- Behind a finished frame the fragments are bounded still. -/
theorem Bounded.resolve (h : context.Bounded options limit)
    (hadmits : context.Admits limit payload.length) :
    (context.resolve payload).1.Bounded options limit := by
  refine ⟨h.sound.resolve hadmits.placed payload, ?_, ?_⟩ <;> unfold Context.resolve
  · intro op hop
    split at hop
    · rename_i hcontrol
      rw [if_pos hcontrol]
      exact h.opened op hop
    · rename_i hdata
      rw [if_neg hdata]
      split at hop
      · rename_i hmore
        rw [if_pos hmore]
        refine ⟨?_, by simp⟩
        dsimp only at hop
        split at hop
        · exact (h.opened op hop).1
        · rename_i hfirst
          cases hop
          exact isText_or_isBinary (by simpa using hdata) hfirst
      · -- The last frame leaves no message open.
        exfalso
        cases hopen : context.messageOp <;> rw [hopen] at hop <;> dsimp only at hop <;>
          split at hop <;> simp_all
  · split
    · exact h.room
    · rename_i hdata
      split
      · have hroom := hadmits.room (by simpa using hdata)
        exact hroom
      · cases hopen : context.messageOp <;> dsimp only <;> split
        · exact h.room
        · exact h.room
        · exact Nat.zero_le _
        · exact Nat.zero_le _

/-- A message is no longer than the limit, if control frames are not. -/
theorem Bounded.size_le_of_resolve (h : context.Bounded options limit)
    (hadmits : context.Admits limit payload.length) {package : Package}
    (hcontrol : context.op.isControl = true → payload.length ≤ limit)
    (hresolve : (context.resolve payload).2 = .ok (some package)) :
    packageSize package ≤ limit := by
  unfold Context.resolve at hresolve
  split at hresolve
  · rename_i hop
    cases hresolve
    exact hcontrol hop
  · rename_i hdata
    have hroom := hadmits.room (by simpa using hdata)
    split at hresolve
    · cases hresolve
    · cases hopen : context.messageOp with
      | none =>
        rw [hopen] at hresolve
        dsimp only at hresolve
        split at hresolve <;> cases hresolve
        exact Nat.le_trans (Nat.le_add_left _ _) hroom
      | some op =>
        rw [hopen] at hresolve
        dsimp only at hresolve
        split at hresolve <;> cases hresolve
        rw [h.sound.count] at hroom
        simpa [packageSize] using hroom

end Context

/-! ## The decoder -/

/-- What a phase needs. -/
def Phase.Bounded (limit : Nat) (context : Context) : Phase → Prop
  | .handshake head => head.terminator ≠ []
  | .frames .payload => 0 < context.payloadLength ∧ context.Admits limit context.payloadLength
  | .draftFrames (.text packages) => packages.terminator ≠ []
  | .draftFrames (.close packages) => packages.terminator ≠ []
  | _ => True

namespace Decoder

variable {d : Decoder} {bytes : Bytes}

/-- The invariant of a decoder under a limit.  It holds of decoders that failed as well. -/
structure Bounded (options : WebSocketOptions) (limit : Nat) (d : Decoder) : Prop where
  context : d.context.Bounded options limit
  phase : d.phase.Bounded limit d.context
  next : ∀ phase, d.next = some phase → ∀ context, phase.Bounded limit context

/-- An attempt from `d` keeps the invariant, and fits the limit. -/
def Holds (options : WebSocketOptions) (limit : Nat) (d : Decoder) (bytes : Bytes)
    (a : Attempt Decoder Package) : Prop :=
  a.state.Bounded options limit ∧ a.Fits packageSize limit d bytes

theorem holds_needMore {after : Decoder} (h : after.Bounded options limit)
    (hnext : after.next = d.next) (hphase : after.phase ≠ .rejected) :
    Holds options limit d bytes (.needMore after) := by
  refine ⟨h, fits_needMore ?_ (discards_eq_false hphase)⟩
  simp [PackageDecoder.next?, hnext]

theorem holds_fail {after : Decoder} {used : Nat} {error : Error}
    (h : after.Bounded options limit) (hphase : after.phase ≠ .rejected) :
    Holds options limit d bytes (.fail after used error) :=
  ⟨h, fits_fail (discards_eq_false hphase)⟩

/-- An attempt that completes no message fits in any case. -/
theorem holds_of_moves {a : Attempt Decoder Package} (h : a.state.Bounded options limit)
    (hphase : a.state.phase ≠ .rejected) (hpos : 0 < a.consumed) (hle : a.consumed ≤ bytes.length)
    (hpackage : ∀ package, a.result = .ok (some package) → a.consumed ≤ limit →
      packageSize package ≤ limit) :
    Holds options limit d bytes a :=
  ⟨h, fits_of_moves hpos hle (discards_eq_false hphase) hpackage⟩

theorem readRequest_holds {head : Bytes} {used : Nat} {start : Decoder}
    (h : start.Bounded options limit) (hsearch : ∀ context, start.phase.Bounded limit context)
    (hphase : start.phase ≠ .rejected) (hpos : 0 < used) (hle : used ≤ bytes.length) :
    Holds options limit d bytes (start.readRequest head used) := by
  unfold readRequest
  split
  · exact holds_fail h hphase
  · split
    · refine holds_of_moves ⟨h.context, h.phase, ?_⟩ hphase hpos hle ?_
      · rintro _ ⟨⟩ _
        trivial
      · rintro _ ⟨⟩ _
        exact Nat.zero_le _
    · dsimp only
      split
      · refine holds_of_moves ⟨h.context, h.phase, ?_⟩ hphase hpos hle ?_
        · rintro _ ⟨⟩ _
          trivial
        · rintro _ ⟨⟩
      · split
        · exact holds_fail h hphase
        · refine holds_of_moves ⟨h.context.negotiated _ _, hsearch _, ?_⟩ hphase hpos hle ?_
          · rintro _ ⟨⟩ _
            trivial
          · rintro _ ⟨⟩ _
            exact Nat.zero_le _

theorem readNonce_holds {info : Option HandshakeInfo} (h : d.Bounded options limit)
    (hphase : d.phase = .nonce info) :
    Holds options limit d bytes (d.readNonce info bytes) := by
  have htried : ∀ next, d.next = next →
      ({ d with phase := .nonce none } : Decoder).Bounded options limit := by
    rintro next rfl
    exact ⟨h.context, trivial, h.next⟩
  unfold readNonce
  split
  · exact holds_needMore h rfl (by simp [hphase])
  · rename_i hlong
    have hpos : 0 < nonceLength := by decide
    have hle : nonceLength ≤ bytes.length := Nat.not_lt.1 hlong
    dsimp only
    split
    · exact holds_fail (htried _ rfl) Phase.noConfusion
    · split
      · exact holds_fail (htried _ rfl) Phase.noConfusion
      · refine holds_of_moves ⟨h.context.negotiated _ _, trivial, ?_⟩ Phase.noConfusion
          hpos hle ?_
        · rintro _ ⟨⟩ _
          trivial
        · rintro _ ⟨⟩ _
          exact Nat.zero_le _

theorem readHeader_holds (h : d.Bounded options limit) (hlimit : 0 < limit)
    (hphase : d.phase = .frames .header) :
    Holds options limit d bytes (d.readHeader bytes) := by
  have hkeeps : d.phase ≠ .rejected := by simp [hphase]
  have hheader : ∀ context, d.phase.Bounded limit context := by
    intro context
    rw [hphase]
    trivial
  unfold readHeader
  split
  · rename_i first second rest
    have hpos : 0 < headerLength second :=
      Nat.lt_of_lt_of_le Nat.two_pos (two_le_headerNeeds (first :: second :: rest))
    dsimp only
    split
    · exact holds_needMore h rfl hkeeps
    · rename_i hlong
      have hle := Nat.not_lt.1 hlong
      split
      · exact holds_fail h hkeeps
      · rename_i context hbegin
        have hcontext := h.context.of_beginFrame hbegin
        have hadmits := h.context.admits_of_beginFrame hlimit hbegin
        have hlength := Context.payloadLength_of_beginFrame hbegin
        split
        · rename_i hempty
          have hadmits : context.Admits limit ([] : Bytes).length := by rwa [hempty] at hadmits
          refine holds_of_moves ⟨hcontext.resolve hadmits, hheader _, h.next⟩ hkeeps hpos hle ?_
          intro package hresult _
          exact hcontext.size_le_of_resolve hadmits (fun _ => Nat.zero_le _) hresult
        · rename_i hsome
          have hpayload : 0 < context.payloadLength := by omega
          rw [← hlength] at hadmits
          refine holds_of_moves ⟨hcontext, ⟨hpayload, hadmits⟩, h.next⟩ Phase.noConfusion hpos hle
            ?_
          rintro _ ⟨⟩
  · exact holds_needMore h rfl hkeeps

theorem readPayload_holds (h : d.Bounded options limit) (hphase : d.phase = .frames .payload) :
    Holds options limit d bytes (d.readPayload bytes) := by
  have hplaced := h.phase
  rw [hphase] at hplaced
  obtain ⟨hpos, hadmits⟩ := hplaced
  unfold readPayload
  dsimp only
  split
  · exact holds_needMore h rfl (by simp [hphase])
  · rename_i hlong
    have hle := Nat.not_lt.1 hlong
    have hlength : (masked d.context.mask (bytes.take d.context.payloadLength)).length =
        d.context.payloadLength := by
      cases hmask : d.context.mask <;> simp [masked, hle]
    have hroom : d.context.Admits limit
        (masked d.context.mask (bytes.take d.context.payloadLength)).length := by rwa [hlength]
    refine holds_of_moves ⟨h.context.resolve hroom, trivial, h.next⟩ Phase.noConfusion hpos hle ?_
    intro package hresult hshort
    exact h.context.size_le_of_resolve hroom
      (fun _ => Nat.le_trans (Nat.le_of_eq hlength) hshort) hresult

theorem readMark_holds (h : d.Bounded options limit) (hphase : d.phase = .draftFrames .start) :
    Holds options limit d bytes (d.readMark bytes) := by
  have hkeeps : d.phase ≠ .rejected := by simp [hphase]
  unfold readMark
  split
  · exact holds_needMore h rfl hkeeps
  · have hle : ∀ (first : UInt8) (rest : Bytes), 1 ≤ (first :: rest).length :=
      fun _ _ => Nat.succ_pos _
    split
    · refine holds_of_moves ⟨h.context, ?_, h.next⟩ Phase.noConfusion Nat.one_pos (hle _ _) ?_
      · exact List.cons_ne_nil _ _
      · rintro _ ⟨⟩
    · split
      · refine holds_of_moves ⟨h.context, ?_, h.next⟩ Phase.noConfusion Nat.one_pos (hle _ _) ?_
        · exact List.cons_ne_nil _ _
        · rintro _ ⟨⟩
      · exact holds_fail h hkeeps

theorem readDraftText_holds (h : d.Bounded options limit) {packages : Terminated}
    (hne : packages.terminator ≠ []) :
    Holds options limit d bytes (d.readDraftText packages bytes) := by
  unfold readDraftText
  rcases hsplit : packages.split bytes with ⟨after, _ | ⟨block, used⟩⟩
  · have hafter : after.terminator = packages.terminator :=
      Terminated.terminator_split (by rw [hsplit])
    refine holds_needMore ⟨h.context, ?_, h.next⟩ rfl Phase.noConfusion
    exact fun hempty => hne (hafter ▸ hempty)
  · have hafter : after.terminator = packages.terminator :=
      Terminated.terminator_split (by rw [hsplit])
    obtain ⟨hlength, hpos, hle⟩ := Terminated.length_of_split_eq_some hne hsplit
    dsimp only
    split
    · refine holds_of_moves ⟨h.context, trivial, h.next⟩ Phase.noConfusion hpos hle ?_
      rintro _ ⟨⟩ hshort
      change used ≤ limit at hshort
      change block.length ≤ limit
      omega
    · refine holds_fail ⟨h.context, ?_, h.next⟩ Phase.noConfusion
      exact fun hempty => hne (hafter ▸ hempty)

theorem readDraftClose_holds (h : d.Bounded options limit) {packages : Terminated}
    (hne : packages.terminator ≠ []) :
    Holds options limit d bytes (d.readDraftClose packages bytes) := by
  unfold readDraftClose
  rcases hsplit : packages.split bytes with ⟨after, _ | ⟨block, used⟩⟩
  · have hafter : after.terminator = packages.terminator :=
      Terminated.terminator_split (by rw [hsplit])
    refine holds_needMore ⟨h.context, ?_, h.next⟩ rfl Phase.noConfusion
    exact fun hempty => hne (hafter ▸ hempty)
  · obtain ⟨_, hpos, hle⟩ := Terminated.length_of_split_eq_some hne hsplit
    refine holds_of_moves ⟨h.context, trivial, h.next⟩ Phase.noConfusion hpos hle ?_
    rintro _ ⟨⟩ _
    exact Nat.zero_le _

/-- An attempt that only uses up what is there fits, even if it throws that away. -/
theorem holds_progress (h : d.Bounded options limit) :
    Holds options limit d bytes (.progress d bytes.length) := by
  refine ⟨h, fun _ => Nat.le_refl _, ?_, ?_, fun _ => rfl⟩
  · rintro _ ⟨⟩ _
    exact ⟨rfl, id⟩
  · rintro _ ⟨⟩

theorem attempt_holds (h : d.Bounded options limit) (hlimit : 0 < limit) (bytes : Bytes) :
    Holds options limit d bytes (d.attempt bytes) := by
  have hsearch := h.phase
  unfold attempt
  cases hphase : d.phase with
  | handshake head =>
    rw [hphase] at hsearch
    rcases hsplit : head.split bytes with ⟨after, _ | ⟨block, used⟩⟩
    all_goals
      have hafter : after.terminator = head.terminator :=
        Terminated.terminator_split (by rw [hsplit])
      have hne : after.terminator ≠ [] := fun hempty => hsearch (hafter ▸ hempty)
    · simp only [hsplit]
      exact holds_needMore ⟨h.context, hne, h.next⟩ rfl Phase.noConfusion
    · obtain ⟨_, hpos, hle⟩ := Terminated.length_of_split_eq_some hsearch hsplit
      simp only [hsplit]
      exact readRequest_holds ⟨h.context, hne, h.next⟩ (fun _ => hne) Phase.noConfusion hpos hle
  | nonce info => exact readNonce_holds h hphase
  | frames part =>
    cases part with
    | header => exact readHeader_holds h hlimit hphase
    | payload => exact readPayload_holds h hphase
  | draftFrames part =>
    rw [hphase] at hsearch
    cases part with
    | start => exact readMark_holds h hphase
    | text packages => exact readDraftText_holds h hsearch
    | close packages => exact readDraftClose_holds h hsearch
  | rejected => exact holds_progress h

/-- A WebSocket keeps to its limit. -/
theorem bounding (hlimit : 0 < limit) :
    Bounding packageSize limit (Decoder.Bounded options limit) := by
  refine ⟨fun h bytes => attempt_holds h hlimit bytes, ?_, ?_⟩
  · intro d after h hnext
    simp only [PackageDecoder.next?, Option.map_eq_some_iff] at hnext
    obtain ⟨phase, hphase, rfl⟩ := hnext
    refine ⟨⟨h.context, h.next phase hphase d.context, ?_⟩, rfl⟩
    rintro _ ⟨⟩
  · intro d h hnext
    refine ⟨⟨h.context, ?_, h.next⟩, hnext⟩
    have hphase := h.phase
    change (restart d.phase).Bounded limit d.context
    cases hcase : d.phase with
    | handshake head =>
      rw [hcase] at hphase
      exact hphase
    | _ => trivial

end Decoder

/-! ## All decoders -/

theorem held_fresh (options : WebSocketOptions) (limit : Nat) :
    Reassembly.Held limit (Decoder.Bounded options limit) (fresh options limit) := by
  refine ⟨rfl, ⟨⟨rfl, rfl, fun _ => rfl, rfl⟩, ?_, Nat.zero_le _⟩, ?_, ?_⟩
  · rintro _ ⟨⟩
  · exact List.cons_ne_nil _ _
  · rintro _ ⟨⟩

/-- What the collected fragments of a message are, in figures. -/
structure Context.Stashed (limit : Nat) (context : Context) : Prop where
  count : context.fragmentsLength = Bytes.total context.fragments
  room : context.fragmentsLength ≤ limit
  opened : context.messageOp.isSome ↔ context.fragments ≠ []
  op : ∀ op, context.messageOp = some op → op = .text ∨ op = .binary
  closed : context.messageOp = none → context.fragments = [] ∧ context.fragmentsLength = 0

theorem Context.Bounded.stashed {context : Context} (h : context.Bounded options limit) :
    context.Stashed limit := by
  refine ⟨h.sound.count.trans (Bytes.length_flatten _), h.room, ⟨?_, ?_⟩,
    fun op hop => (h.opened op hop).1, fun hnone => ⟨h.sound.closed hnone, ?_⟩⟩
  · intro hsome
    obtain ⟨op, hop⟩ := Option.isSome_iff_exists.1 hsome
    exact (h.opened op hop).2
  · intro hne
    exact Option.isSome_iff_ne_none.2 fun hnone => hne (h.sound.closed hnone)
  · rw [h.sound.count, h.sound.closed hnone]
    rfl

/-- Under a limit, and whatever calls were made before on whatever segments, a call of `decode`
hands out no package that needs more than the limit: a line and a terminated package with what ends
them, a package of fixed size, the data of a message.  If it does not fail, it leaves no more bytes
than the limit, and the fragments that a WebSocket collects are in order and within the limit
too. -/
theorem memory_bounded (hlimit : 0 < limit) :
    (∀ r, Later (.of ({} : LineDecoder) limit) r → Within lineSize limit r) ∧
      (∀ terminator t, Terminated.of terminator = .ok t → ∀ r, Later (.of t limit) r →
        Within (fun package => package.length + terminator.length) limit r) ∧
      (∀ size d, FixedSize.of size = .ok d → ∀ r, Later (.of d limit) r →
        Within List.length limit r) ∧
      ∀ options r, Later (fresh options limit) r →
        Within packageSize limit r ∧ r.decode.2.2.decoder.context.Stashed limit := by
  refine ⟨fun r => LineDecoder.within hlimit,
    fun terminator t hof r => Terminated.within hlimit hof,
    fun size d hof r => FixedSize.within hlimit hof, fun options r h => ⟨?_, ?_⟩⟩
  · exact h.within (Decoder.bounding hlimit) (held_fresh options limit) hlimit
  · have hheld := h.decode.held (Decoder.bounding hlimit) (held_fresh options limit) hlimit
    exact hheld.decoder.context.stashed

/-- The first fragment of a text, and a byte of the next header. -/
def brokenOffText : Bytes :=
  [0x01, 0x82, 0, 0, 0, 0, 0x68, 0x69, 0x80]

/-- A text of which a fragment came is kept with the byte that waits, and both are within the
limit. -/
theorem memory_bounded_of_brokenOffText :
    0 < 80 ∧
      (((fresh {} 80).extend acceptedRequest).decode.2.2.extend brokenOffText).decode.2.1 =
        .waiting ∧
      (((fresh {} 80).extend acceptedRequest).decode.2.2.extend brokenOffText).decode.2.2.pending.length
        ≤ 80 ∧
      ((((fresh {} 80).extend acceptedRequest).decode.2.2.extend
        brokenOffText).decode.2.2.decoder.context).Stashed 80 := by
  have hlater : Later (fresh {} 80)
      (((fresh {} 80).extend acceptedRequest).decode.2.2.extend brokenOffText) :=
    ((Later.refl.extend acceptedRequest).decode).extend brokenOffText
  have hwaiting : (((fresh {} 80).extend acceptedRequest).decode.2.2.extend
      brokenOffText).decode.2.1 = .waiting := by decide +kernel
  obtain ⟨_, _, _, hsocket⟩ := memory_bounded (show 0 < 80 by decide)
  obtain ⟨⟨_, hpending⟩, hstashed⟩ := hsocket {} _ hlater
  refine ⟨by decide, hwaiting, hpending ?_, hstashed⟩
  rw [hwaiting]
  exact fun error => Verdict.noConfusion

end FramedChannel.WebSocket
