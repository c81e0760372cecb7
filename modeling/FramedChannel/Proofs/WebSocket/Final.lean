import FramedChannel.Proofs.Package.Final
import FramedChannel.Proofs.WebSocket.Reached

/-!
# What follows an error of a WebSocket

A WebSocket that failed keeps the bytes on which it failed.  Here every place at
which it can fail is looked at for what the next attempt makes of them.

* A request, a nonce, a header and the first byte of a draft-00 message fail
  again (`Doomed`), each for a reason of its own.
* In the payload of a frame, and at the end of a draft-00 message that is too
  long, the decoder has gone on already (`Astray`): it takes the same bytes for
  the beginning of something new, as those of `nestedText`.
* `ending` puts these together, and `final_of_failed` is the result for all
  decoders.
-/

namespace FramedChannel.WebSocket

open Reassembly

variable {options : WebSocketOptions} {limit : Nat} {r s : Reassembly Decoder}
  {items : List (Item Package)} {error : Error}

/-- An attempt that waits only fails if too many bytes wait. -/
theorem fails_needMore {d : Decoder} (h : r.trial = .needMore d) (hkeeps : d.phase ≠ .rejected) :
    r.Fails ↔ 0 < r.limit ∧ r.limit < r.pending.bytes.length := by
  apply fails_iff_of_waits <;> rw [h]
  · exact ⟨rfl, rfl⟩
  · exact Decoder.discards_eq_false hkeeps

/-- One that uses bytes fails if it uses too many. -/
theorem exceeds_moves {used : Nat} (h : r.trial.consumed = used) (hpos : 0 < used)
    (hkeeps : r.trial.state.phase ≠ .rejected) :
    r.exceeds r.trial = true ↔ 0 < r.limit ∧ r.limit < used := by
  subst h
  rw [Reassembly.exceeds_iff (Decoder.discards_eq_false hkeeps), measured_of_moves hpos]

/-! ## Requests -/

/-- A block of header lines that no upgrade comes of. -/
def Faulty (block : Bytes) : Prop :=
  ∀ (d : Decoder) (used : Nat), ∃ error, (d.readRequest block used).result = .error error

/-- Only the block decides whether it is read. -/
theorem faulty_of_error {d : Decoder} {block : Bytes} {used : Nat}
    (h : (d.readRequest block used).result = .error error) : Faulty block := by
  intro d' used'
  unfold Decoder.readRequest at h ⊢
  cases hparse : Request.parse block with
  | error error => exact ⟨error, rfl⟩
  | ok request =>
    simp only [hparse] at h ⊢
    cases hselect : Version.select request with
    | none => simp [hselect] at h
    | some version =>
      simp only [hselect] at h ⊢
      by_cases hdraft : version = .hybi00
      · simp [hdraft, Attempt.progress] at h
      · simp only [if_neg hdraft] at h ⊢
        cases hkey : request.header "sec-websocket-key" with
        | none => exact ⟨_, rfl⟩
        | some key => simp [hkey] at h

theorem readRequest_stays (d : Decoder) (block : Bytes) (used : Nat) :
    (d.readRequest block used).consumed = used ∧
      (d.readRequest block used).state.phase = d.phase := by
  unfold Decoder.readRequest
  split
  · exact ⟨rfl, rfl⟩
  · split
    · exact ⟨rfl, rfl⟩
    · dsimp only
      split
      · exact ⟨rfl, rfl⟩
      · split <;> exact ⟨rfl, rfl⟩

theorem seeking_handshake :
    Seeking (fun (d : Decoder) t => d.phase = .handshake t) Faulty where
  keeps h := Decoder.discards_eq_false (by simp [h])
  unfound := by
    intro d t bytes after h hsplit
    have hattempt : PackageDecoder.attempt d bytes =
        .needMore { d with phase := .handshake after } := by
      show d.attempt bytes = _
      simp [Decoder.attempt, h, hsplit]
    rw [hattempt]
    exact ⟨⟨rfl, rfl⟩, rfl⟩
  found := by
    intro d t bytes after block used h hsplit
    have hattempt : PackageDecoder.attempt d bytes =
        Decoder.readRequest { d with phase := .handshake after } block used := by
      show d.attempt bytes = _
      simp [Decoder.attempt, h, hsplit]
    rw [hattempt]
    obtain ⟨hconsumed, hphase⟩ := readRequest_stays { d with phase := .handshake after } block used
    refine ⟨hconsumed, ?_, hphase⟩
    constructor
    · rintro ⟨_, herror⟩
      exact faulty_of_error herror
    · intro hfaulty
      exact hfaulty _ _

/-! ## Nonces -/

/-- The nonce was tried, or the limit has no room for it. -/
def Tried (r : Reassembly Decoder) : Prop :=
  ∃ info, r.decoder.phase = .nonce info ∧
    (info = none ∧ Decoder.nonceLength ≤ r.pending.bytes.length ∨
      0 < r.limit ∧ r.limit < Decoder.nonceLength ∧ r.limit < r.pending.bytes.length)

theorem nonce_trial {info : Option HandshakeInfo} (h : r.decoder.phase = .nonce info) :
    r.pending.bytes.length < Decoder.nonceLength ∧ r.trial = .needMore r.decoder ∨
      Decoder.nonceLength ≤ r.pending.bytes.length ∧
        r.trial.consumed = Decoder.nonceLength ∧ r.trial.state.phase = .nonce none ∧
        (info = none → ∃ error, r.trial.result = .error error) := by
  have htrial : r.trial = r.decoder.readNonce info r.pending.bytes := Decoder.attempt_nonce h _
  rw [htrial]
  by_cases hfew : r.pending.bytes.length < Decoder.nonceLength
  · exact .inl ⟨hfew, if_pos hfew⟩
  · refine .inr ⟨Nat.not_lt.1 hfew, ?_⟩
    unfold Decoder.readNonce
    rw [if_neg hfew]
    cases info with
    | none => exact ⟨rfl, rfl, fun _ => ⟨_, rfl⟩⟩
    | some info =>
      dsimp only
      split <;> exact ⟨rfl, rfl, by simp⟩

theorem dooming_tried : Dooming Tried where
  extend := by
    rintro r ⟨info, hphase, hwhy⟩ segment
    have hmore : r.pending.bytes.length ≤ (r.extend segment).pending.bytes.length := by
      rw [bytes_extend, List.length_append]
      omega
    refine ⟨info, hphase, ?_⟩
    rcases hwhy with ⟨hnone, hall⟩ | ⟨hpositive, hsmall, hlong⟩
    · exact .inl ⟨hnone, Nat.le_trans hall hmore⟩
    · exact .inr ⟨hpositive, hsmall, Nat.lt_of_lt_of_le hlong hmore⟩
  replies h _ := h
  fails := by
    rintro r ⟨info, hphase, hwhy⟩
    rcases nonce_trial hphase with ⟨hfew, htrial⟩ | ⟨hall, hconsumed, hstate, hfails⟩
    · rw [fails_needMore htrial (by simp [hphase])]
      omega
    · rcases hwhy with ⟨hnone, _⟩ | ⟨hpositive, hsmall, _⟩
      · exact .inl (hfails hnone)
      · right
        rw [exceeds_moves hconsumed (by decide) (by simp [hstate])]
        exact ⟨hpositive, hsmall⟩
  stays := by
    rintro r ⟨info, hphase, hwhy⟩
    rcases nonce_trial hphase with ⟨_, htrial⟩ | ⟨hall, _, hstate, _⟩
    · rw [htrial]
      exact ⟨info, hphase, hwhy⟩
    · exact ⟨none, hstate, .inl ⟨rfl, hall⟩⟩

/-- A nonce that failed was tried, or has no room. -/
theorem tried_of_pass {info : Option HandshakeInfo} (h : r.decoder.phase = .nonce info)
    (hpass : r.pass = (items, .failed error, s)) : Tried s := by
  obtain ⟨hfails, rfl⟩ := fails_of_pass hpass
  rcases nonce_trial h with ⟨hfew, htrial⟩ | ⟨hall, _, hstate, _⟩
  · obtain ⟨hpositive, hlong⟩ := (fails_needMore htrial (by simp [h])).1 hfails
    refine ⟨info, ?_, .inr ⟨hpositive, Nat.lt_trans hlong hfew, hlong⟩⟩
    rw [htrial]
    exact h
  · exact ⟨none, hstate, .inl ⟨rfl, hall⟩⟩

/-! ## Headers -/

theorem headerNeeds_le (bytes : Bytes) : Decoder.headerNeeds bytes ≤ 14 := by
  unfold Decoder.headerNeeds
  split
  · rw [headerLength_eq, extendedLength, keyLength]
    split_ifs <;> decide
  · decide

/-- A frame that cannot be resolved completes a text that is none.  If the text has fragments, they
are gone behind it. -/
theorem Context.resolve_error {context : Context} {payload : Bytes}
    (h : (context.resolve payload).2 = .error error) :
    error = .protocol .messageNotText ∧ context.op.isControl = false ∧
      (context.messageOp = none ∧ Utf8.isText payload = false ∨
        context.messageOp ≠ none ∧ (context.resolve payload).1 =
          { context with messageOp := none, fragments := [], fragmentsLength := 0 }) := by
  unfold Context.resolve at h ⊢
  split at h
  · cases h
  · rename_i hdata
    split at h
    · cases h
    · rename_i hfin
      rw [if_neg hdata, if_neg hfin]
      cases hopened : context.messageOp with
      | none =>
        simp only [hopened] at h
        split at h <;> cases h
        rename_i hbroken
        exact ⟨rfl, by simpa using hdata, .inl ⟨rfl, by simpa using hbroken.2⟩⟩
      | some opened =>
        simp only [hopened] at h ⊢
        split at h <;> cases h
        rename_i hbroken
        rw [if_pos hbroken]
        exact ⟨rfl, by simpa using hdata, .inr ⟨by simp, rfl⟩⟩

/-- A frame without payload that completes a text which is none is refused when its header is read
again: it continues nothing. -/
theorem Context.beginFrame_again {context begun : Context} {first second : UInt8}
    {mask : Option MaskKey} (hbegin : context.beginFrame first second 0 mask = .ok begun)
    (hresolve : (begun.resolve []).2 = .error error) :
    (begun.resolve []).1.beginFrame first second 0 mask = .error .strayContinuation := by
  obtain ⟨_, hdata, ⟨_, hbroken⟩ | ⟨hopened, hbehind⟩⟩ := Context.resolve_error hresolve
  · simp [show Utf8.isText [] = true by decide] at hbroken
  · obtain ⟨hreserved, hmask, hlength, op, hop, hfault, rfl⟩ :=
      Context.beginFrame_eq_ok_iff.1 hbegin
    change op.isControl = false at hdata
    have hcontinues : op = .continuation := by
      by_contra hother
      have hinterleaved : context.messageOp ≠ none := hopened
      simp [Context.frameFault, hdata, Context.dataFault, hother, hinterleaved] at hfault
    subst hcontinues
    rw [hbehind]
    simp [Context.beginFrame, hreserved, hop, hmask, hdata, Context.dataFault]

/-- An attempt at a header that fails is made again, with the same bytes and to no avail. -/
theorem readHeader_again {d : Decoder} {bytes : Bytes}
    (hall : Decoder.headerNeeds bytes ≤ bytes.length)
    (herror : (d.readHeader bytes).result = .error error) :
    (d.readHeader bytes).state.phase = d.phase ∧
      ∃ used error', (d.readHeader bytes).state.readHeader bytes =
        .fail (d.readHeader bytes).state used error' := by
  match bytes, hall with
  | first :: second :: rest, hall =>
    have hlength : ¬ (first :: second :: rest).length < headerLength second := Nat.not_lt.2 hall
    let length := (Decoder.frameLength second rest).1
    let mask :=
      if second &&& maskBit ≠ 0 then MaskKey.ofBytes? (Decoder.frameLength second rest).2 else none
    have hrefused : ∀ (d : Decoder) (violation : Violation),
        d.context.beginFrame first second length mask = .error violation →
          d.readHeader (first :: second :: rest) =
            .fail d (headerLength second) (.protocol violation) := by
      intro d violation hbegin
      simp only [Decoder.readHeader, if_neg hlength]
      rw [hbegin]
    cases hbegin : d.context.beginFrame first second length mask with
    | error violation =>
      have hread := hrefused d violation hbegin
      rw [hread]
      exact ⟨rfl, _, _, hread⟩
    | ok begun =>
      have hread : d.readHeader (first :: second :: rest) =
          if length = 0 then
            ⟨{ d with context := (begun.resolve []).1 }, headerLength second, [],
              (begun.resolve []).2⟩
          else
            .progress { d with phase := .frames .payload, context := begun }
              (headerLength second) := by
        simp only [Decoder.readHeader, if_neg hlength]
        rw [hbegin]
      by_cases hzero : length = 0
      · rw [if_pos hzero] at hread
        rw [hread] at herror ⊢
        rw [hzero] at hbegin
        have hagain := Context.beginFrame_again hbegin herror
        rw [← hzero] at hagain
        exact ⟨rfl, _, _, hrefused _ _ hagain⟩
      · rw [hread, if_neg hzero] at herror
        cases herror

/-- A header that failed fails again.  The limit is not the reason: frames only come where it has
room for a header. -/
theorem stuck_of_header (h : r.decoder.phase = .frames .header) (hnext : r.decoder.next = none)
    (hroom : r.limit = 0 ∨ 14 ≤ r.limit) (hpass : r.pass = (items, .failed error, s)) :
    s.Stuck := by
  have htrial : r.trial = r.decoder.readHeader r.pending.bytes := Decoder.attempt_header h _
  have hneeds := headerNeeds_le r.pending.bytes
  obtain ⟨hfails, rfl⟩ := fails_of_pass hpass
  by_cases hall : Decoder.headerNeeds r.pending.bytes ≤ r.pending.bytes.length
  · rcases hfails with ⟨error, herror⟩ | hlimit
    · rw [htrial] at herror
      obtain ⟨hphase, used, error', hagain⟩ := readHeader_again hall herror
      refine ⟨used, error', fun more => ?_⟩
      rw [htrial]
      show Decoder.attempt _ (r.pending.bytes ++ more) = _
      rw [Decoder.attempt_header (hphase.trans h), Decoder.readHeader_append hall, hagain]
    · have hmoves := (Decoder.counts_header h hnext).moves r.pending.bytes hall
      rw [exceeds_moves hmoves.consumed_eq hmoves.consumed_pos hmoves.keeps] at hlimit
      omega
  · have hwaits : r.trial = .needMore r.decoder := by
      rw [htrial]
      exact Decoder.readHeader_of_length_lt (Nat.not_le.1 hall)
    have hlong := (fails_needMore hwaits (by simp [h])).1 hfails
    omega

/-! ## Draft-00 messages -/

/-- The first byte of a message of draft-00 fails because of what it is, and so it does again. -/
theorem stuck_of_mark (h : r.decoder.phase = .draftFrames .start)
    (hpass : r.pass = (items, .failed error, s)) : s.Stuck := by
  have htrial : r.trial = r.decoder.readMark r.pending.bytes := Decoder.attempt_mark h _
  obtain ⟨hfails, rfl⟩ := fails_of_pass hpass
  cases hbytes : r.pending.bytes with
  | nil =>
    rw [hbytes] at htrial
    have hlong := (fails_needMore htrial (by simp [h])).1 hfails
    simp [hbytes] at hlong
  | cons first rest =>
    rw [hbytes] at htrial
    have hmarked : ∀ part, r.trial ≠ .progress { r.decoder with phase := .draftFrames part } 1 := by
      intro part hprogress
      rcases hfails with ⟨error, herror⟩ | hlimit
      · rw [hprogress] at herror
        cases herror
      · have hone : r.trial.consumed = 1 := by
          rw [hprogress]
          rfl
        have hkeeps : r.trial.state.phase ≠ .rejected := by
          rw [hprogress]
          simp [Attempt.progress]
        rw [exceeds_moves hone Nat.one_pos hkeeps] at hlimit
        omega
    unfold Decoder.readMark at htrial
    dsimp only at htrial
    split_ifs at htrial with hclose htext
    · exact absurd htrial (hmarked _)
    · exact absurd htrial (hmarked _)
    · refine ⟨0, .notImplemented .lengthPrefixedFrame, fun more => ?_⟩
      rw [htrial]
      show r.decoder.attempt (r.pending.bytes ++ more) = _
      rw [Decoder.attempt_mark h, hbytes, List.cons_append, Decoder.readMark, if_neg hclose,
        if_neg htext]
      rfl

/-! ## Errors that leave the decoder astray -/

/-- A pass that failed when the decoder had gone on already: in the payload of a frame, or with all
of a draft-00 message that is too long. -/
def Astray (r : Reassembly Decoder) (error : Error) : Prop :=
  r.decoder.phase = .frames .payload ∧
      (error = .protocol .messageNotText ∨
        ∃ length, error = .protocol (.packageTooLong length r.limit)) ∨
    (∃ packages, r.decoder.phase = .draftFrames (.text packages) ∨
      r.decoder.phase = .draftFrames (.close packages)) ∧
      ∃ length, error = .protocol (.packageTooLong length r.limit)

/-- A connection on which no pass failed, or one that goes on all the same. -/
structure Alive (options : WebSocketOptions) (limit : Nat) (r : Reassembly Decoder) : Prop where
  ready : r.decoder.Ready r.pending.bytes
  sound : Sound options limit r

/-- What is alive stays so behind an attempt, if the decoder can go on with the bytes it has. -/
theorem Alive.failed (h : Alive options limit r)
    (hready : r.trial.state.Ready r.pending.bytes) :
    Alive options limit { r with decoder := r.trial.state } := by
  have hkeeps : Decoder.Keeps options limit r.decoder r.trial :=
    Decoder.attempt_keeps h.sound.decoder h.ready
  refine ⟨hready, h.sound.limit_eq, hkeeps.context, ?_, ?_⟩
  · intro hphase
    exact (hkeeps.phase _ hphase).2 rfl
  · intro part hphase
    obtain ⟨⟨before, hbefore⟩, _⟩ := hkeeps.phase part hphase
    exact h.sound.decoder.room before hbefore

theorem astray_of_payload (halive : Alive options limit r)
    (h : r.decoder.phase = .frames .payload) (hpass : r.pass = (items, .failed error, s)) :
    Alive options limit s ∧ Astray r error := by
  have htrial : r.trial = r.decoder.readPayload r.pending.bytes := Decoder.attempt_payload h _
  obtain ⟨hwhy, rfl⟩ := error_of_pass hpass
  constructor
  · apply halive.failed
    rw [htrial]
    unfold Decoder.readPayload
    dsimp only
    split
    · exact halive.ready
    · exact ⟨halive.ready.next, trivial⟩
  · refine .inl ⟨h, ?_⟩
    rcases hwhy with herror | ⟨_, herror⟩
    · left
      rw [htrial] at herror
      unfold Decoder.readPayload at herror
      dsimp only at herror
      split at herror
      · cases herror
      · exact (Context.resolve_error herror).1
    · exact .inr ⟨_, herror⟩

/-- A message of draft-00 that is not refused for its bytes is too long. -/
theorem astray_of_draft {packages : Terminated}
    (h : r.decoder.phase = .draftFrames (.text packages) ∨
      r.decoder.phase = .draftFrames (.close packages))
    (hpass : r.pass = (items, .failed error, s))
    (hok : ∀ error', r.trial.result ≠ .error error') : Astray r error := by
  obtain ⟨herror | ⟨_, herror⟩, _⟩ := error_of_pass hpass
  · exact absurd herror (hok error)
  · exact .inr ⟨⟨packages, h⟩, _, herror⟩

/-- A text of draft-00 that is none fails again.  One that is too long is cut off in front of the
check, and the decoder is back at its beginning. -/
theorem astray_or_stuck_of_text {packages : Terminated} (halive : Alive options limit r)
    (h : r.decoder.phase = .draftFrames (.text packages))
    (hpass : r.pass = (items, .failed error, s)) :
    s.Stuck ∨ Alive options limit s ∧ Astray r error := by
  have htrial : r.trial = r.decoder.readDraftText packages r.pending.bytes :=
    Decoder.attempt_draftText h _
  have hready : packages.Ready r.pending.bytes := by
    have hphase := halive.ready.phase
    rwa [h] at hphase
  have hlong := astray_of_draft (.inl h) hpass
  obtain ⟨-, rfl⟩ := error_of_pass hpass
  rcases hsplit : packages.split r.pending.bytes with ⟨after, _ | ⟨block, used⟩⟩
  · have hread : r.trial = .needMore { r.decoder with phase := .draftFrames (.text after) } := by
      rw [htrial, Decoder.readDraftText, hsplit]
    refine .inr ⟨halive.failed ?_, hlong ?_⟩ <;> rw [hread]
    · exact ⟨halive.ready.next, (Terminated.split_eq_none hready hsplit).2.1⟩
    · simp [Attempt.needMore]
  · obtain ⟨_, _, _, _, hfound⟩ := Terminated.split_eq_some hready hsplit
    obtain ⟨_, hsame⟩ := Terminated.split_again hready hsplit
    by_cases htext : Utf8.isText block = true
    · have hread : r.trial = .complete { r.decoder with phase := .draftFrames .start } used
          (.message ⟨.text, block⟩) := by
        rw [htrial, Decoder.readDraftText, hsplit]
        exact if_pos htext
      refine .inr ⟨halive.failed ?_, hlong ?_⟩ <;> rw [hread]
      · exact ⟨halive.ready.next, trivial⟩
      · simp [Attempt.complete]
    · have hread : r.trial = .fail { r.decoder with phase := .draftFrames (.text after) } used
          (.protocol .messageNotText) := by
        rw [htrial, Decoder.readDraftText, hsplit]
        exact if_neg htext
      refine .inl ⟨used, .protocol .messageNotText, fun more => ?_⟩
      rw [hread]
      show Decoder.attempt _ (r.pending.bytes ++ more) = _
      rw [Decoder.attempt_draftText rfl, Decoder.readDraftText, hsame more, hfound more, hsplit]
      exact if_neg htext

/-- A close of draft-00 fails for its length alone. -/
theorem astray_of_close {packages : Terminated} (halive : Alive options limit r)
    (h : r.decoder.phase = .draftFrames (.close packages))
    (hpass : r.pass = (items, .failed error, s)) : Alive options limit s ∧ Astray r error := by
  have htrial : r.trial = r.decoder.readDraftClose packages r.pending.bytes :=
    Decoder.attempt_draftClose h _
  have hready : packages.Ready r.pending.bytes := by
    have hphase := halive.ready.phase
    rwa [h] at hphase
  have hlong := astray_of_draft (.inr h) hpass
  obtain ⟨-, rfl⟩ := error_of_pass hpass
  rcases hsplit : packages.split r.pending.bytes with ⟨after, _ | ⟨block, used⟩⟩
  · have hread : r.trial = .needMore { r.decoder with phase := .draftFrames (.close after) } := by
      rw [htrial, Decoder.readDraftClose, hsplit]
    refine ⟨halive.failed ?_, hlong ?_⟩ <;> rw [hread]
    · exact ⟨halive.ready.next, (Terminated.split_eq_none hready hsplit).2.1⟩
    · simp [Attempt.needMore]
  · have hread : r.trial = .complete { r.decoder with phase := .draftFrames .start } used
        (.message ⟨.close, []⟩) := by
      rw [htrial, Decoder.readDraftClose, hsplit]
    refine ⟨halive.failed ?_, hlong ?_⟩ <;> rw [hread]
    · exact ⟨halive.ready.next, trivial⟩
    · simp [Attempt.complete]

/-! ## All errors -/

/-- What failed for good. -/
def Doomed (r : Reassembly Decoder) : Prop :=
  r.Stuck ∨ Seeking.Doomed (fun d t => d.phase = .handshake t) Faulty r ∨ Tried r

theorem doomed_or_astray (halive : Alive options limit r)
    (hpass : r.pass = (items, .failed error, s)) :
    Doomed s ∨ Alive options limit s ∧ Astray r error := by
  have hready := halive.ready.phase
  cases hphase : r.decoder.phase with
  | handshake head =>
    rw [hphase] at hready
    exact .inl (.inr (.inl (seeking_handshake.doomed_of_pass hphase hready hpass)))
  | nonce info => exact .inl (.inr (.inr (tried_of_pass hphase hpass)))
  | frames part =>
    cases part with
    | header =>
      have hroom : r.limit = 0 ∨ 14 ≤ r.limit := by
        rw [halive.sound.limit_eq]
        exact halive.sound.decoder.room _ hphase
      exact .inl (.inl (stuck_of_header hphase halive.ready.next hroom hpass))
    | payload => exact .inr (astray_of_payload halive hphase hpass)
  | draftFrames part =>
    cases part with
    | start => exact .inl (.inl (stuck_of_mark hphase hpass))
    | text packages => exact (astray_or_stuck_of_text halive hphase hpass).imp_left .inl
    | close packages => exact .inr (astray_of_close halive hphase hpass)
  | rejected =>
    have htrial : r.trial = .progress r.decoder r.pending.bytes.length :=
      Decoder.attempt_rejected hphase _
    obtain ⟨⟨_, herror⟩ | hlimit, _⟩ := fails_of_pass hpass
    · rw [htrial] at herror
      cases herror
    · simp [htrial, exceeds, Attempt.progress, Decoder.discards_eq_true hphase] at hlimit

/-- An error dooms a connection, or leaves it astray. -/
theorem ending (options : WebSocketOptions) (limit : Nat) :
    Reassembly.Ending (Alive options limit) Doomed Astray where
  dooming := dooming_stuck.or (seeking_handshake.dooming.or dooming_tried)
  ready := ⟨_, Decoder.resumable, fun _ h => h.ready⟩
  extend h segment := ⟨ready_extend Decoder.resumable h.ready segment, h.sound.extend segment⟩
  replies h _ := ⟨h.ready, h.sound.limit_eq, h.sound.decoder⟩
  pass := by
    intro r items verdict s h hpass hok
    refine ⟨?_, h.sound.pass h.ready hpass hok⟩
    cases verdict with
    | again => exact (ready_of_pass_eq_again Decoder.resumable h.ready hpass).1
    | waiting => exact ready_of_pass_eq_waiting Decoder.resumable h.ready hpass
    | failed error => exact absurd rfl (hok error)
  failed := doomed_or_astray

/-- Behind an error, every later call fails and hands out no package, for lines, terminated
packages and packages of a fixed size without exception.  A WebSocket is as good, unless it failed
in the payload of a frame, or over a draft-00 message that is too long. -/
theorem final_of_failed (limit : Nat) :
    (∀ terminator t r error, Terminated.of terminator = .ok t → Later (.of t limit) r →
      r.decode.2.1 = .failed error → r.decode.2.2.Final) ∧
    (∀ r error, Later (.of ({} : LineDecoder) limit) r →
      r.decode.2.1 = .failed error → r.decode.2.2.Final) ∧
    (∀ size d r error, FixedSize.of size = .ok d → Later (.of d limit) r →
      r.decode.2.1 = .failed error → r.decode.2.2.Final) ∧
    ∀ options r error, Later (fresh options limit) r → r.decode.2.1 = .failed error →
      r.decode.2.2.Final ∨
        ∃ begun last t, Leads r begun t ∧ t.pass = (last, .failed error, r.decode.2.2) ∧
          Astray t error := by
  refine ⟨?_, ?_, ?_, ?_⟩
  · intro terminator t r error hof hlater hfailed
    unfold Terminated.of at hof
    split at hof <;> cases hof
    rename_i hne
    exact searching_terminated.final making_terminated (by simpa using hne) hlater hfailed
  · intro r error hlater hfailed
    exact searching_line.final making_line (by decide) hlater hfailed
  · intro size d r error hof hlater hfailed
    unfold FixedSize.of at hof
    split at hof <;> cases hof
    rename_i hne
    exact FixedSize.final (Nat.pos_of_ne_zero hne) hlater hfailed
  · intro options r error hlater hfailed
    exact (ending options limit).final ⟨ready_fresh options limit, sound_fresh options limit⟩
      hlater hfailed

/-- Four reassemblies that failed for good: over a block without an end, a line that is no text, a
block that is longer than the limit, and a request without an end. -/
theorem final_of_failed_for_good :
    let block : Reassembly Terminated := (Reassembly.of { terminator := [0x0A] } 2).extend [1, 2, 3]
    let line : Reassembly LineDecoder := (Reassembly.of {} 2).extend [0xFF, 0x0D, 0x0A]
    let package : Reassembly FixedSize := (Reassembly.of { size := 4 } 2).extend [1, 2, 3]
    let request := (fresh {} 2).extend [0x47, 0x45, 0x54]
    Terminated.of [0x0A] = .ok { terminator := [0x0A] } ∧ FixedSize.of 4 = .ok { size := 4 } ∧
      block.decode.2.2.Final ∧ line.decode.2.2.Final ∧
      package.decode.2.2.Final ∧ request.decode.2.2.Final := by
  intro block line package request
  obtain ⟨hblock, hline, hpackage, hrequest⟩ := final_of_failed 2
  refine ⟨rfl, rfl, ?_, ?_, ?_, ?_⟩
  · exact hblock [0x0A] _ block (.protocol (.packageTooLong 3 2)) rfl (.extend .refl _)
      (by decide +kernel)
  · exact hline line (.protocol (.lineNotText (.invalid 0 1))) (.extend .refl _)
      (by decide +kernel)
  · exact hpackage 4 _ package (.protocol (.packageTooLong 3 2)) rfl (.extend .refl _)
      (by decide +kernel)
  · have hfirst : request.pass.2.1 = .failed (.protocol (.packageTooLong 3 2)) := by decide +kernel
    rcases hrequest {} request (.protocol (.packageTooLong 3 2)) (.extend .refl _)
      (by decide +kernel) with hfinal | ⟨_, _, t, hleads, _, hastray⟩
    · exact hfinal
    · cases hleads with
      | refl => rcases hastray with ⟨hphase, _⟩ | ⟨⟨_, hphase | hphase⟩, _⟩ <;> cases hphase
      | more hpass _ =>
        rw [hpass] at hfirst
        cases hfirst

/-- A text frame whose payload is no text, but a text frame itself. -/
def nestedText : Bytes :=
  [0x81, 0x87, 0, 0, 0, 0] ++ [0x81, 0x81, 0, 0, 0, 0, 0x61]

/-- The payload is refused, and the next call takes it for a frame. -/
theorem decode_nestedText :
    let r := (fresh {} 0).extend (acceptedRequest ++ nestedText)
    r.decode.2.1 = .failed (.protocol .messageNotText) ∧
      packagesOf r.decode.2.2.decode.1 = [.message ⟨.text, [0x61]⟩] ∧ ¬ r.decode.2.2.Final := by
  intro r
  have hagain : packagesOf r.decode.2.2.decode.1 = [.message ⟨.text, [0x61]⟩] := by decide +kernel
  refine ⟨by decide +kernel, hagain, ?_⟩
  intro hfinal
  obtain ⟨hnone, _⟩ := hfinal _ .refl
  rw [hagain] at hnone
  cases hnone

end FramedChannel.WebSocket
