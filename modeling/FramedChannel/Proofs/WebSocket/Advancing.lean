import FramedChannel.Proofs.Package.Advancing
import FramedChannel.Proofs.WebSocket.Final

/-!
# A WebSocket comes to an end

A WebSocket that failed can be left with a phase that is over: the upgrade was
read, and the limit refused it.  The next call of `decode` finds it so.

* `Phase.Decided` says that a phase has all the bytes that it asks for.
  `Decoder.Kept` is the invariant: only such a phase can be over.
* `ready_of_attempt` is an attempt in any other phase, and `decided_attempt` is
  one in such a phase.
* `decoding_ends` is the result, for all decoders of the library.
-/

namespace FramedChannel.WebSocket

open Reassembly

/-- The phase has all the bytes that it needs to be over. -/
def Phase.Decided : Phase → Bytes → Prop
  | .handshake head, bytes => (head.split bytes).2.isSome
  | .nonce _, bytes => Decoder.nonceLength ≤ bytes.length
  | _, _ => False

namespace Decoder

variable {d : Decoder} {bytes : Bytes}

/-- The phase can go on with the bytes that wait, and is over only with all the bytes that it needs.
Failures keep this. -/
structure Kept (d : Decoder) (bytes : Bytes) : Prop where
  phase : d.phase.Ready d.context.payloadLength bytes
  next : d.next ≠ none → d.phase.Decided bytes

theorem kept_of_ready (h : Ready d bytes) : Kept d bytes :=
  ⟨h.phase, fun hnext => absurd h.next hnext⟩

/-- A phase that does not have its bytes is not over. -/
theorem Kept.ready (h : Kept d bytes) (hopen : ¬ d.phase.Decided bytes) : Ready d bytes :=
  ⟨by_contra fun hnext => hopen (h.next hnext), h.phase⟩

/-! ## Phases that are not over -/

theorem readHeader_ready (h : Ready d bytes) (hphase : d.phase = .frames .header) :
    Ready (d.readHeader bytes).state bytes := by
  have hheader : ∀ context : Context, d.phase.Ready context.payloadLength bytes := by
    intro context
    rw [hphase]
    trivial
  unfold readHeader
  split
  · dsimp only
    split
    · exact h
    · split
      · exact h
      · rename_i context hbegin
        have hlength := Context.payloadLength_of_beginFrame hbegin
        split
        · exact ⟨h.next, hheader _⟩
        · exact ⟨h.next, show 0 < context.payloadLength by omega⟩
  · exact h

theorem readPayload_ready (h : Ready d bytes) : Ready (d.readPayload bytes).state bytes := by
  unfold readPayload
  dsimp only
  split
  · exact h
  · exact ⟨h.next, trivial⟩

theorem readMark_ready (h : Ready d bytes) : Ready (d.readMark bytes).state bytes := by
  unfold readMark
  split
  · exact h
  · split
    · exact ⟨h.next, Terminated.ready_of_scanned_eq_zero (List.cons_ne_nil _ _) rfl⟩
    · split
      · exact ⟨h.next, Terminated.ready_of_scanned_eq_zero (List.cons_ne_nil _ _) rfl⟩
      · exact h

theorem readDraftText_ready (h : Ready d bytes) {packages : Terminated}
    (hready : packages.Ready bytes) : Ready (d.readDraftText packages bytes).state bytes := by
  unfold readDraftText
  rcases hsplit : packages.split bytes with ⟨after, _ | ⟨block, used⟩⟩ <;>
    have hafter := (Terminated.split_again hready hsplit).1
  · exact ⟨h.next, hafter⟩
  · dsimp only
    split
    · exact ⟨h.next, trivial⟩
    · exact ⟨h.next, hafter⟩

theorem readDraftClose_ready (h : Ready d bytes) {packages : Terminated}
    (hready : packages.Ready bytes) : Ready (d.readDraftClose packages bytes).state bytes := by
  unfold readDraftClose
  rcases hsplit : packages.split bytes with ⟨after, _ | ⟨block, used⟩⟩
  · exact ⟨h.next, (Terminated.split_again hready hsplit).1⟩
  · exact ⟨h.next, trivial⟩

/-- Whatever comes of an attempt, the decoder can go on with the same bytes. -/
theorem ready_of_attempt (h : Ready d bytes) (hopen : ¬ d.phase.Decided bytes) :
    Ready (d.attempt bytes).state bytes := by
  have hphase := h.phase
  cases hcase : d.phase with
  | handshake head =>
    rw [hcase] at hphase hopen
    rcases hsplit : head.split bytes with ⟨after, _ | found⟩
    · rw [attempt, hcase]
      simp only [hsplit]
      exact ⟨h.next, (Terminated.split_again hphase hsplit).1⟩
    · exact absurd (by rw [Phase.Decided, hsplit]; rfl) hopen
  | nonce info =>
    rw [hcase] at hopen
    rw [attempt_nonce hcase, readNonce, if_pos (Nat.not_le.1 hopen)]
    exact h
  | frames part =>
    cases part with
    | header =>
      rw [attempt_header hcase]
      exact readHeader_ready h hcase
    | payload =>
      rw [attempt_payload hcase]
      exact readPayload_ready h
  | draftFrames part =>
    rw [hcase] at hphase
    cases part with
    | start =>
      rw [attempt_mark hcase]
      exact readMark_ready h
    | text packages =>
      rw [attempt_draftText hcase]
      exact readDraftText_ready h hphase
    | close packages =>
      rw [attempt_draftClose hcase]
      exact readDraftClose_ready h hphase
  | rejected =>
    rw [attempt_rejected hcase]
    exact h

/-! ## Phases that are over -/

/-- With all its bytes, a phase uses them, and has them still if it fails. -/
theorem decided_attempt (h : Kept d bytes) (hdecided : d.phase.Decided bytes) :
    (∃ used, used ≤ bytes.length ∧ Moves (d.attempt bytes) used) ∧
      Kept (d.attempt bytes).state bytes := by
  have hphase := h.phase
  cases hcase : d.phase with
  | handshake head =>
    rw [hcase] at hphase hdecided
    rcases hsplit : head.split bytes with ⟨after, _ | ⟨block, used⟩⟩
    · rw [Phase.Decided, hsplit] at hdecided
      cases hdecided
    · obtain ⟨_, hpos, hle, _⟩ := Terminated.split_eq_some hphase hsplit
      obtain ⟨hafter, hsame⟩ := Terminated.split_again hphase hsplit
      -- The search finds the same end of the request again.
      have hagain := hsame []
      rw [List.append_nil, hsplit] at hagain
      obtain ⟨_, hstate⟩ := readRequest_stays { d with phase := .handshake after } block used
      rw [attempt, hcase]
      simp only [hsplit]
      refine ⟨⟨used, hle, readRequest_moves Phase.noConfusion block hpos⟩, ?_, fun _ => ?_⟩
      · rw [hstate]
        exact hafter
      · rw [hstate, Phase.Decided, hagain]
        rfl
  | nonce info =>
    rw [hcase] at hdecided
    have hstate : (d.attempt bytes).state.phase = .nonce none := by
      rw [attempt_nonce hcase, readNonce, if_neg (Nat.not_lt.2 hdecided)]
      cases info with
      | none => rfl
      | some info =>
        dsimp only
        split <;> rfl
    refine ⟨⟨nonceLength, hdecided, (counts_nonce hcase).moves bytes hdecided⟩, ?_, fun _ => ?_⟩
    · rw [hstate]
      trivial
    · rw [hstate]
      exact hdecided
  | _ =>
    rw [hcase] at hdecided
    exact hdecided.elim

/-! ## All phases -/

theorem Kept.append (h : Kept d bytes) (more : Bytes) : Kept d (bytes ++ more) := by
  have hready : Ready { d with next := none } bytes := ⟨rfl, h.phase⟩
  refine ⟨(hready.append more).phase, fun hnext => ?_⟩
  have hphase := h.phase
  have hdecided := h.next hnext
  cases hcase : d.phase with
  | handshake head =>
    rw [hcase] at hphase hdecided
    rcases hsplit : head.split bytes with ⟨after, _ | ⟨block, used⟩⟩
    · rw [Phase.Decided, hsplit] at hdecided
      cases hdecided
    · obtain ⟨_, _, _, _, hsame⟩ := Terminated.split_eq_some hphase hsplit
      rw [Phase.Decided, hsame more]
      exact hdecided
  | nonce info =>
    rw [hcase] at hdecided
    rw [Phase.Decided, List.length_append]
    exact Nat.le_add_right_of_le hdecided
  | _ =>
    rw [hcase] at hdecided
    exact hdecided.elim

theorem advancing : Advancing Kept where
  extend := Kept.append
  failed {d bytes} h := by
    by_cases hdecided : d.phase.Decided bytes
    · exact (decided_attempt h hdecided).2
    · exact kept_of_ready (ready_of_attempt (h.ready hdecided) hdecided)
  used {d bytes package} h hresult := by
    by_cases hdecided : d.phase.Decided bytes
    · obtain ⟨⟨used, hle, hmoves⟩, _⟩ := decided_attempt h hdecided
      refine ⟨?_, kept_of_ready (hmoves.ready package hresult _)⟩
      exact Nat.le_trans (Nat.le_of_eq hmoves.consumed_eq) hle
    · obtain ⟨hle, hready⟩ := resumable.used (h.ready hdecided) hresult
      exact ⟨hle, kept_of_ready hready⟩
  idle {d bytes package} h hresult hidle := by
    by_cases hdecided : d.phase.Decided bytes
    · obtain ⟨⟨used, _, hmoves⟩, _⟩ := decided_attempt h hdecided
      have hpos := hmoves.consumed_pos
      rw [← hmoves.consumed_eq] at hpos
      exact absurd hidle (Nat.pos_iff_ne_zero.1 hpos)
    · exact resumable.idle (h.ready hdecided) hresult hidle

end Decoder

/-! ## All decoders -/

theorem kept_fresh (options : WebSocketOptions) (limit : Nat) :
    (fresh options limit).decoder.Kept (fresh options limit).pending.bytes :=
  Decoder.kept_of_ready (ready_fresh options limit)

/-- Whatever limit a reassembly has and whatever calls were made before on whatever segments, also
calls that failed, a call of `decode` ends, for every decoder of the library.  It makes at most one
attempt more than there are bytes, because each that another one follows uses a byte. -/
theorem decoding_ends (limit : Nat) :
    (∀ r, Later (.of ({} : LineDecoder) limit) r → r.Ends) ∧
      (∀ terminator t, Terminated.of terminator = .ok t → ∀ r, Later (.of t limit) r → r.Ends) ∧
      (∀ size d, FixedSize.of size = .ok d → ∀ r, Later (.of d limit) r → r.Ends) ∧
      ∀ options r, Later (fresh options limit) r → r.Ends := by
  refine ⟨fun r => LineDecoder.ends, fun terminator t hof r => Terminated.ends hof,
    fun size d hof r => FixedSize.ends hof, fun options r h => ?_⟩
  exact h.ends Decoder.advancing (kept_fresh options limit)

/-- An upgrade that the limit refuses leaves a phase that is over, and what follows ends too. -/
theorem decoding_ends_overLimit :
    ((fresh {} 40).extend acceptedRequest).decode.2.1 =
        .failed (.protocol (.packageTooLong acceptedRequest.length 40)) ∧
      ((fresh {} 40).extend acceptedRequest).decode.2.2.decoder.next =
        some (.frames .header) ∧
      (((fresh {} 40).extend acceptedRequest).decode.2.2.extend [0x80]).Ends := by
  have hlater : Later (fresh {} 40)
      (((fresh {} 40).extend acceptedRequest).decode.2.2.extend [0x80]) :=
    ((Later.refl.extend acceptedRequest).decode).extend [0x80]
  obtain ⟨_, _, _, hsocket⟩ := decoding_ends 40
  exact ⟨by decide +kernel, by decide +kernel, hsocket {} _ hlater⟩

end FramedChannel.WebSocket
