import FramedChannel.Proofs.Package.Cuts
import FramedChannel.Proofs.Package.Terminated
import FramedChannel.Proofs.WebSocket.Header

/-!
# The WebSocket decoder can be cut anywhere

`Decoder.Ready` is the invariant of the decoder between two attempts, and
`resumable` says that the decoder keeps the rules of `Resumable` under it.

There is one lemma for each phase.  Each of them splits an attempt in two: it
waits, and then the phase remembers at most how far it searched, or it moves,
and then `Moves` says what it owes.
-/

namespace FramedChannel.WebSocket

/-! ## Errors of the upgrade -/

namespace Request

private theorem headerLines_error_aux {lines : List (List Char)} {headers : List (String × String)}
    {error : Error} (h : headerLines headers lines = .error error) :
    ∃ violation, error = .protocol violation := by
  induction lines generalizing headers with
  | nil => simp [headerLines] at h
  | cons line lines ih =>
    unfold headerLines at h
    split at h
    · exact ih h
    · split at h
      · rename_i hline
        unfold headerLine at hline
        split at hline <;> cases hline
        cases h
        exact ⟨_, rfl⟩
      · exact ih h

private theorem requestLine_error_aux {line : List Char} {error : Error}
    (h : requestLine line = .error error) : ∃ violation, error = .protocol violation := by
  unfold requestLine at h
  split at h
  · cases h
    exact ⟨_, rfl⟩
  · split at h <;> cases h
    exact ⟨_, rfl⟩

/-- A request that does not read breaks the protocol. -/
theorem protocol_of_parse_eq_error {head : Bytes} {error : Error} (h : parse head = .error error) :
    ∃ violation, error = .protocol violation := by
  unfold parse at h
  cases hdecode : Utf8.decode head with
  | error fault =>
    simp only [hdecode, Except.error.injEq] at h
    exact ⟨_, h.symm⟩
  | ok text =>
    simp only [hdecode] at h
    cases hline : requestLine ((Text.crlfLines text.toList).headD []) with
    | error error' =>
      simp only [hline, Except.error.injEq] at h
      subst h
      exact requestLine_error_aux hline
    | ok words =>
      simp only [hline] at h
      cases hlines : headerLines [] (Text.crlfLines text.toList).tail with
      | ok headers => simp [hlines, Except.map] at h
      | error error' =>
        simp only [hlines, Except.map, Except.error.injEq] at h
        subst h
        exact headerLines_error_aux hlines

end Request

theorem protocol_of_keyNumber_eq_error {key : String} {error : Error}
    (h : keyNumber key = .error error) : ∃ violation, error = .protocol violation := by
  unfold keyNumber at h
  dsimp only at h
  split at h
  · cases h
    exact ⟨_, rfl⟩
  · split at h <;> cases h
    exact ⟨_, rfl⟩

/-- A challenge that cannot be answered breaks the protocol. -/
theorem protocol_of_challenge_eq_error {key1 key2 : String} {nonce : Bytes} {error : Error}
    (h : challenge key1 key2 nonce = .error error) : ∃ violation, error = .protocol violation := by
  unfold challenge at h
  cases hfirst : keyNumber key1 with
  | error error' =>
    simp only [hfirst, bind, Except.bind, Except.error.injEq] at h
    subst h
    exact protocol_of_keyNumber_eq_error hfirst
  | ok first =>
    cases hsecond : keyNumber key2 with
    | error error' =>
      simp only [hfirst, hsecond, bind, Except.bind, Except.error.injEq] at h
      subst h
      exact protocol_of_keyNumber_eq_error hsecond
    | ok second => simp [hfirst, hsecond, bind, Except.bind] at h

/-! ## The invariant -/

/-- A phase that can go on with the waiting bytes, where `length` is the payload length of the
current frame.  Only a search remembers anything of the bytes. -/
def Phase.Ready (length : Nat) : Phase → Bytes → Prop
  | .handshake head, bytes => head.Ready bytes
  | .frames .payload, _ => 0 < length
  | .draftFrames (.text packages), bytes => packages.Ready bytes
  | .draftFrames (.close packages), bytes => packages.Ready bytes
  | _, _ => True

namespace Decoder

/-- The decoder between two attempts: no phase is over, and the current one can go on. -/
structure Ready (d : Decoder) (bytes : Bytes) : Prop where
  next : d.next = none
  phase : d.phase.Ready d.context.payloadLength bytes

/-- What an attempt owes that uses some of the bytes. -/
structure Moves (a : Attempt Decoder Package) (used : Nat) : Prop where
  consumed_eq : a.consumed = used
  consumed_pos : 0 < used
  keeps : a.state.phase ≠ .rejected
  error : ∀ error, a.result = .error error → ∃ violation, error = .protocol violation
  ready : ∀ package, a.result = .ok package → ∀ rest, Ready a.behind rest

variable {d : Decoder} {bytes : Bytes} {a : Attempt Decoder Package} {used waited : Nat}

theorem discards_eq_false (h : d.phase ≠ .rejected) :
    PackageDecoder.discards d = false := by
  simpa [PackageDecoder.discards] using h

theorem discards_eq_true (h : d.phase = .rejected) : PackageDecoder.discards d = true := by
  simpa [PackageDecoder.discards] using h

theorem Moves.late (h : Moves a used) (hwaited : waited < used) : a.Late waited := by
  unfold Attempt.Late
  split
  · rename_i hresult
    exact h.error _ hresult
  · refine ⟨discards_eq_false h.keeps, fun _ => ?_⟩
    rw [h.consumed_eq]
    exact hwaited

theorem late_of_waits (h : a.Waits) (hkeeps : a.state.phase ≠ .rejected) : a.Late waited := by
  unfold Attempt.Late
  rw [h.1]
  refine ⟨discards_eq_false hkeeps, fun hpos => ?_⟩
  rw [h.2] at hpos
  omega

theorem resumableAt_of_moves (h : Moves (d.attempt bytes) used) (hle : used ≤ bytes.length)
    (hsame : ∀ more, d.attempt (bytes ++ more) = d.attempt bytes) :
    ResumableAt Ready d bytes := by
  have hpos : 0 < (d.attempt bytes).consumed := by
    rw [h.consumed_eq]
    exact h.consumed_pos
  have hused : (d.attempt bytes).consumed ≤ bytes.length := by
    rw [h.consumed_eq]
    exact hle
  refine .of_moves ?_ hused (fun _ => hsame) ?_ ?_
  · intro hwaits
    rw [show (d.attempt bytes).consumed = 0 from hwaits.2] at hpos
    omega
  · intro package hresult
    exact ⟨hpos, h.ready package hresult _⟩
  · intro error herror
    obtain ⟨violation, rfl⟩ := h.error error herror
    trivial

/-- A phase that waits and remembers nothing. -/
theorem resumableAt_of_needMore (hready : Ready d bytes) (h : d.attempt bytes = .needMore d)
    (hlate : bytes ≠ [] → ∀ more, (d.attempt (bytes ++ more)).Late bytes.length) :
    ResumableAt Ready d bytes := by
  have hattempt : PackageDecoder.attempt d bytes = .needMore d := h
  refine .of_waits ?_ ?_ ?_ ?_ ?_ hlate <;> rw [hattempt]
  · exact ⟨rfl, rfl⟩
  · rfl
  · simp [Attempt.needMore, PackageDecoder.next?, hready.next]
  · exact hready
  · exact fun _ => rfl

theorem moves_of_fail (hphase : d.phase ≠ .rejected) (hpos : 0 < used) (violation : Violation) :
    Moves (.fail d used (.protocol violation)) used where
  consumed_eq := rfl
  consumed_pos := hpos
  keeps := hphase
  error _ herror := ⟨violation, (Except.error.inj herror).symm⟩
  ready _ hresult := by cases hresult

/-- An attempt behind which another phase begins. -/
theorem moves_of_next {phase : Phase} {package : Option Package}
    (hkeeps : a.state.phase ≠ .rejected) (hpos : 0 < a.consumed)
    (hresult : a.result = .ok package) (hnext : a.state.next = some phase)
    (hphase : ∀ rest, phase.Ready a.state.context.payloadLength rest) : Moves a a.consumed where
  consumed_eq := rfl
  consumed_pos := hpos
  keeps := hkeeps
  error error herror := by
    rw [hresult] at herror
    cases herror
  ready _ _ rest := by
    have hbehind : a.behind = { a.state with phase, next := none } := by
      simp [Attempt.behind, PackageDecoder.next?, hnext]
    rw [hbehind]
    exact ⟨rfl, hphase rest⟩

/-- An attempt behind which the phase goes on, from its beginning if a package is complete. -/
theorem moves_of_ready (hkeeps : a.state.phase ≠ .rejected) (hpos : 0 < a.consumed)
    (hnext : a.state.next = none)
    (herror : ∀ error, a.result = .error error → ∃ violation, error = .protocol violation)
    (hphase : a.result = .ok none →
      ∀ rest, a.state.phase.Ready a.state.context.payloadLength rest)
    (hrestart : ∀ rest, (restart a.state.phase).Ready a.state.context.payloadLength rest) :
    Moves a a.consumed where
  consumed_eq := rfl
  consumed_pos := hpos
  keeps := hkeeps
  error := herror
  ready package hresult rest := by
    cases package with
    | none =>
      have hbehind : a.behind = a.state := by
        simp [Attempt.behind, PackageDecoder.next?, hnext, hresult]
      rw [hbehind]
      exact ⟨hnext, hphase hresult rest⟩
    | some package =>
      have hbehind : a.behind = { a.state with phase := restart a.state.phase } := by
        simp [Attempt.behind, PackageDecoder.next?, PackageDecoder.reset, hnext, hresult]
      rw [hbehind]
      exact ⟨hnext, hrestart rest⟩

/-! ## Phases that search for a terminator -/

/-- A phase that searches for a terminator, and makes something of what is in front of it. -/
structure Searches (d : Decoder) (wrap : Terminated → Phase)
    (found : Terminated → Bytes → Nat → Attempt Decoder Package) : Prop where
  attempt : ∀ t bytes, Decoder.attempt { d with phase := wrap t } bytes =
    match t.split bytes with
    | (after, none) => .needMore { d with phase := wrap after }
    | (after, some (block, used)) => found after block used
  ready : ∀ t bytes, (wrap t).Ready d.context.payloadLength bytes ↔ t.Ready bytes
  keeps : ∀ t, wrap t ≠ .rejected
  moves : ∀ t block {used}, 0 < used → d.next = none → Moves (found t block used) used

theorem Searches.late {wrap : Terminated → Phase} {t : Terminated}
    {found : Terminated → Bytes → Nat → Attempt Decoder Package} (h : Searches d wrap found)
    (hnext : d.next = none) (hready : t.Ready bytes) (hnone : (t.split bytes).2 = none)
    (more : Bytes) :
    (Decoder.attempt { d with phase := wrap t } (bytes ++ more)).Late bytes.length := by
  rw [h.attempt]
  rcases hsplit : t.split (bytes ++ more) with ⟨after, _ | ⟨block, used⟩⟩
  · exact late_of_waits ⟨rfl, rfl⟩ (h.keeps after)
  · have hlt : bytes.length < used := by
      apply Terminated.length_lt_of_split_append hready hnone
      rw [hsplit]
    obtain ⟨rfl, hpos, _⟩ := Terminated.split_eq_some (hready.append more) hsplit
    exact (h.moves t.reset block hpos hnext).late hlt

theorem Searches.resumableAt {wrap : Terminated → Phase} {t : Terminated}
    {found : Terminated → Bytes → Nat → Attempt Decoder Package} (h : Searches d wrap found)
    (hnext : d.next = none) (hready : t.Ready bytes) :
    ResumableAt Ready { d with phase := wrap t } bytes := by
  rcases hsplit : t.split bytes with ⟨after, _ | ⟨block, used⟩⟩
  · obtain ⟨_, hafter, hsame⟩ := Terminated.split_eq_none hready hsplit
    have hattempt : PackageDecoder.attempt { d with phase := wrap t } bytes =
        .needMore { d with phase := wrap after } := by
      show Decoder.attempt { d with phase := wrap t } bytes = _
      rw [h.attempt, hsplit]
    refine .of_waits ?_ ?_ ?_ ?_ ?_ fun _ => h.late hnext hready (by rw [hsplit]) <;>
      rw [hattempt]
    · exact ⟨rfl, rfl⟩
    · rfl
    · simp [Attempt.needMore, PackageDecoder.next?, hnext]
    · exact ⟨hnext, (h.ready after bytes).2 hafter⟩
    · intro more
      show Decoder.attempt { d with phase := wrap after } (bytes ++ more) =
        Decoder.attempt { d with phase := wrap t } (bytes ++ more)
      rw [h.attempt, h.attempt, hsame more]
  · obtain ⟨rfl, hpos, hle, _, hsame⟩ := Terminated.split_eq_some hready hsplit
    have hmoves : Moves (Decoder.attempt { d with phase := wrap t } bytes) used := by
      rw [h.attempt, hsplit]
      exact h.moves t.reset block hpos hnext
    refine resumableAt_of_moves hmoves hle ?_
    intro more
    rw [h.attempt, h.attempt, hsame more]

/-! ## The handshake -/

theorem readRequest_moves (hphase : d.phase ≠ .rejected) (head : Bytes) (hpos : 0 < used) :
    Moves (d.readRequest head used) used := by
  unfold readRequest
  split
  · rename_i hparse
    obtain ⟨violation, rfl⟩ := Request.protocol_of_parse_eq_error hparse
    exact moves_of_fail hphase hpos violation
  · split
    · exact moves_of_next hphase hpos rfl rfl fun _ => trivial
    · dsimp only
      split
      · exact moves_of_next hphase hpos rfl rfl fun _ => trivial
      · split
        · exact moves_of_fail hphase hpos .missingKey
        · exact moves_of_next hphase hpos rfl rfl fun _ => trivial

theorem searches_handshake (d : Decoder) :
    Searches d .handshake fun t block used =>
      readRequest { d with phase := .handshake t } block used where
  attempt _ _ := rfl
  ready _ _ := Iff.rfl
  keeps _ := by simp
  moves _ block _ hpos _ := readRequest_moves (by simp) block hpos

/-! ## Draft-00 messages -/

theorem searches_draftText (d : Decoder) :
    Searches d (fun t => .draftFrames (.text t)) fun t block used =>
      if Utf8.isText block then
        .complete { d with phase := .draftFrames .start } used (.message ⟨.text, block⟩)
      else
        .fail { d with phase := .draftFrames (.text t) } used (.protocol .messageNotText) where
  attempt t bytes := by
    show readDraftText _ t bytes = _
    unfold readDraftText
    rcases t.split bytes with ⟨after, _ | ⟨block, used⟩⟩ <;> rfl
  ready _ _ := Iff.rfl
  keeps _ := by simp
  moves t block used hpos hnext := by
    split
    · refine moves_of_ready ?_ hpos hnext ?_ ?_ ?_
      · simp [Attempt.complete]
      · intro error herror
        cases herror
      · intro hresult
        cases hresult
      · exact fun _ => trivial
    · exact moves_of_fail (by simp) hpos .messageNotText

theorem searches_draftClose (d : Decoder) :
    Searches d (fun t => .draftFrames (.close t)) fun _ _ used =>
      .complete { d with phase := .draftFrames .start } used (.message ⟨.close, []⟩) where
  attempt t bytes := by
    show readDraftClose _ t bytes = _
    unfold readDraftClose
    rcases t.split bytes with ⟨after, _ | ⟨block, used⟩⟩ <;> rfl
  ready _ _ := Iff.rfl
  keeps _ := by simp
  moves t block used hpos hnext := by
    refine moves_of_ready ?_ hpos hnext ?_ ?_ ?_
    · simp [Attempt.complete]
    · intro error herror
      cases herror
    · intro hresult
      cases hresult
    · exact fun _ => trivial

/-- An attempt behind which another part of the same protocol begins. -/
theorem moves_of_progress {phase : Phase} (hkeeps : phase ≠ .rejected) (hpos : 0 < used)
    (hnext : d.next = none) (hphase : ∀ rest, phase.Ready d.context.payloadLength rest) :
    Moves (.progress { d with phase } used) used where
  consumed_eq := rfl
  consumed_pos := hpos
  keeps := hkeeps
  error error herror := by cases herror
  ready package hresult rest := by
    cases hresult
    have hbehind : (Attempt.progress { d with phase } used : Attempt Decoder Package).behind =
        { d with phase } := by
      simp [Attempt.behind, Attempt.progress, PackageDecoder.next?, hnext]
    rw [hbehind]
    exact ⟨hnext, hphase rest⟩

/-- The mark byte decides alone how a message of draft-00 goes on. -/
theorem resumableAt_mark (hphase : d.phase = .draftFrames .start) (hready : Ready d bytes) :
    ResumableAt Ready d bytes := by
  have hattempt : ∀ bytes, d.attempt bytes = d.readMark bytes := by
    intro bytes
    unfold attempt
    rw [hphase]
  cases bytes with
  | nil =>
    exact resumableAt_of_needMore hready (by rw [hattempt]; rfl) fun hne => absurd rfl hne
  | cons first rest =>
    have hsame : ∀ more, d.attempt (first :: rest ++ more) = d.attempt (first :: rest) := by
      intro more
      rw [hattempt, hattempt]
      rfl
    have hmarked : ∀ part, (∀ rest, (Phase.draftFrames part).Ready d.context.payloadLength rest) →
        d.attempt (first :: rest) = .progress { d with phase := .draftFrames part } 1 →
        ResumableAt Ready d (first :: rest) := by
      intro part hpart hmark
      have hmoves : Moves (d.attempt (first :: rest)) 1 := by
        rw [hmark]
        exact moves_of_progress (by simp) Nat.one_pos hready.next hpart
      exact resumableAt_of_moves hmoves (by simp) hsame
    by_cases hclose : first = 0xFF
    · refine hmarked (.close { terminator := [0x00] }) ?_ ?_
      · exact fun rest => Terminated.ready_of_scanned_eq_zero (by simp) rfl
      · rw [hattempt, readMark, if_pos hclose]
    · by_cases htext : first &&& 0x80 = 0
      · refine hmarked (.text { terminator := [0xFF] }) ?_ ?_
        · exact fun rest => Terminated.ready_of_scanned_eq_zero (by simp) rfl
        · rw [hattempt, readMark, if_neg hclose, if_pos htext]
      · have hmark : PackageDecoder.attempt d (first :: rest) =
            .fail d 0 (.notImplemented .lengthPrefixedFrame) := by
          show d.attempt (first :: rest) = _
          rw [hattempt, readMark, if_neg hclose, if_neg htext]
        refine .of_moves ?_ ?_ (fun _ => hsame) ?_ ?_ <;> rw [hmark]
        · exact fun hwaits => by cases hwaits.1
        · exact Nat.zero_le _
        · intro package hresult
          cases hresult
        · intro error herror
          cases herror
          trivial

/-! ## Phases that know how many bytes they need -/

/-- A phase that waits for a number of bytes, which the first of them may tell. -/
structure Counts (d : Decoder) (needs : Bytes → Nat) : Prop where
  wait : ∀ bytes, bytes.length < needs bytes → d.attempt bytes = .needMore d
  late : ∀ bytes more, bytes.length < needs bytes → bytes.length < needs (bytes ++ more)
  moves : ∀ bytes, needs bytes ≤ bytes.length → Moves (d.attempt bytes) (needs bytes)
  append : ∀ bytes more, needs bytes ≤ bytes.length →
    d.attempt (bytes ++ more) = d.attempt bytes

theorem Counts.resumableAt {needs : Bytes → Nat} (h : Counts d needs)
    (hphase : d.phase ≠ .rejected) (hready : Ready d bytes) : ResumableAt Ready d bytes := by
  by_cases hfew : bytes.length < needs bytes
  · refine resumableAt_of_needMore hready (h.wait bytes hfew) ?_
    intro _ more
    have hlate := h.late bytes more hfew
    by_cases hstill : (bytes ++ more).length < needs (bytes ++ more)
    · rw [h.wait _ hstill]
      exact late_of_waits ⟨rfl, rfl⟩ hphase
    · exact (h.moves _ (Nat.not_lt.1 hstill)).late hlate
  · have hall := Nat.not_lt.1 hfew
    exact resumableAt_of_moves (h.moves bytes hall) hall fun more => h.append bytes more hall

theorem counts_nonce {info : Option HandshakeInfo} (hphase : d.phase = .nonce info) :
    Counts d fun _ => nonceLength := by
  have hattempt : ∀ bytes, d.attempt bytes = d.readNonce info bytes := by
    intro bytes
    unfold attempt
    rw [hphase]
  refine ⟨?_, fun _ _ h => h, ?_, ?_⟩
  · intro bytes hfew
    rw [hattempt, readNonce, if_pos hfew]
  · intro bytes hall
    have hpos : 0 < nonceLength := by decide
    rw [hattempt, readNonce, if_neg (Nat.not_lt.2 hall)]
    cases info with
    | none => exact moves_of_fail (by simp) hpos .nonceWithoutRequest
    | some info =>
      dsimp only
      split
      · rename_i hchallenge
        obtain ⟨violation, rfl⟩ := protocol_of_challenge_eq_error hchallenge
        exact moves_of_fail (by simp) hpos violation
      · exact moves_of_next (by simp) hpos rfl rfl fun _ => trivial
  · intro bytes more hall
    have hall' : nonceLength ≤ (bytes ++ more).length := by
      rw [List.length_append]
      omega
    rw [hattempt, hattempt, readNonce, readNonce, if_neg (Nat.not_lt.2 hall),
      if_neg (Nat.not_lt.2 hall'), List.take_append_of_le_length hall]

/-- Behind a resolved frame the next header follows, whether a message is complete or not. -/
theorem moves_of_resolve {context : Context} {payload : Bytes} (hnext : d.next = none)
    (hpos : 0 < used) :
    Moves ⟨{ d with phase := .frames .header, context := (context.resolve payload).1 }, used, [],
      (context.resolve payload).2⟩ used :=
  moves_of_ready (by simp) hpos hnext (fun _ => Context.protocol_of_resolve_eq_error)
    (fun _ _ => trivial) fun _ => trivial

theorem readHeader_moves (hphase : d.phase = .frames .header) (hnext : d.next = none)
    (hall : headerNeeds bytes ≤ bytes.length) :
    Moves (d.readHeader bytes) (headerNeeds bytes) := by
  match bytes, hall with
  | first :: second :: rest, hall =>
    have hpos : 0 < headerNeeds (first :: second :: rest) :=
      Nat.lt_of_lt_of_le Nat.two_pos (two_le_headerNeeds _)
    have hneeds : headerNeeds (first :: second :: rest) = headerLength second := rfl
    rw [hneeds] at hall hpos ⊢
    unfold readHeader
    dsimp only
    rw [if_neg (Nat.not_lt.2 hall)]
    split
    · exact moves_of_fail (by simp [hphase]) hpos _
    · rename_i context hbegin
      have hlength := Context.payloadLength_of_beginFrame hbegin
      split
      · rw [hphase]
        exact moves_of_resolve hnext hpos
      · rename_i hne
        have hpayload : 0 < context.payloadLength := by omega
        have hnext' : ({ d with context } : Decoder).next = none := hnext
        exact moves_of_progress (Phase.noConfusion) hpos hnext' fun _ => hpayload

theorem counts_header (hphase : d.phase = .frames .header) (hnext : d.next = none) :
    Counts d headerNeeds := by
  have hattempt : ∀ bytes, d.attempt bytes = d.readHeader bytes := by
    intro bytes
    unfold attempt
    rw [hphase]
  refine ⟨?_, fun _ more hfew => length_lt_headerNeeds_append hfew more, ?_, ?_⟩
  · intro bytes hfew
    rw [hattempt, readHeader_of_length_lt hfew]
  · intro bytes hall
    rw [hattempt]
    exact readHeader_moves hphase hnext hall
  · intro bytes more hall
    rw [hattempt, hattempt, readHeader_append hall]

theorem counts_payload (hphase : d.phase = .frames .payload) (hnext : d.next = none)
    (hpos : 0 < d.context.payloadLength) :
    Counts d fun _ => d.context.payloadLength := by
  have hattempt : ∀ bytes, d.attempt bytes = d.readPayload bytes := by
    intro bytes
    unfold attempt
    rw [hphase]
  refine ⟨?_, fun _ _ h => h, ?_, ?_⟩
  · intro bytes hfew
    rw [hattempt, readPayload, if_pos hfew]
  · intro bytes hall
    rw [hattempt, readPayload, if_neg (Nat.not_lt.2 hall)]
    exact moves_of_resolve hnext hpos
  · intro bytes more hall
    have hall' : d.context.payloadLength ≤ (bytes ++ more).length := by
      rw [List.length_append]
      omega
    rw [hattempt, hattempt, readPayload, readPayload, if_neg (Nat.not_lt.2 hall),
      if_neg (Nat.not_lt.2 hall'), List.take_append_of_le_length hall]

/-! ## All phases -/

/-- What is rejected uses all that is there, and goes on so. -/
theorem resumableAt_rejected (hphase : d.phase = .rejected) (hready : Ready d bytes) :
    ResumableAt Ready d bytes := by
  have hattempt : ∀ bytes, d.attempt bytes = .progress d bytes.length := by
    intro bytes
    unfold attempt
    rw [hphase]
  cases bytes with
  | nil => exact resumableAt_of_needMore hready (hattempt []) fun hne => absurd rfl hne
  | cons first rest =>
    have hrest : PackageDecoder.attempt d (first :: rest) = .progress d (rest.length + 1) :=
      hattempt (first :: rest)
    have hdiscards := discards_eq_true hphase
    refine .of_moves ?_ ?_ ?_ ?_ ?_ <;> rw [hrest]
    · rintro ⟨_, hconsumed⟩
      cases hconsumed
    · exact Nat.le_refl _
    · intro hkeeps
      rw [hdiscards] at hkeeps
      cases hkeeps
    · intro package hresult
      cases hresult
      have hbehind :
          (Attempt.progress d (rest.length + 1) : Attempt Decoder Package).behind = d := by
        simp [Attempt.behind, Attempt.progress, PackageDecoder.next?, hready.next]
      rw [hbehind]
      refine ⟨Nat.succ_pos _, hready.next, ?_⟩
      rw [hphase]
      trivial
    · intro error herror
      cases herror

theorem Ready.append (h : Ready d bytes) (more : Bytes) : Ready d (bytes ++ more) := by
  refine ⟨h.next, ?_⟩
  have hphase := h.phase
  cases hcase : d.phase with
  | handshake head =>
    rw [hcase] at hphase
    exact Terminated.Ready.append hphase more
  | nonce info => trivial
  | rejected => trivial
  | frames part =>
    cases part with
    | header => trivial
    | payload =>
      rw [hcase] at hphase
      exact hphase
  | draftFrames part =>
    rw [hcase] at hphase
    cases part with
    | start => trivial
    | text packages => exact Terminated.Ready.append hphase more
    | close packages => exact Terminated.Ready.append hphase more

theorem Ready.resumableAt (h : Ready d bytes) : ResumableAt Ready d bytes := by
  have hphase := h.phase
  cases hcase : d.phase with
  | handshake head =>
    rw [hcase] at hphase
    have hd : d = { d with phase := .handshake head } := by rw [← hcase]
    rw [hd]
    exact (searches_handshake d).resumableAt h.next hphase
  | nonce info => exact (counts_nonce hcase).resumableAt (by simp [hcase]) h
  | rejected => exact resumableAt_rejected hcase h
  | frames part =>
    cases part with
    | header => exact (counts_header hcase h.next).resumableAt (by simp [hcase]) h
    | payload =>
      rw [hcase] at hphase
      exact (counts_payload hcase h.next hphase).resumableAt (by simp [hcase]) h
  | draftFrames part =>
    cases part with
    | start => exact resumableAt_mark hcase h
    | text packages =>
      rw [hcase] at hphase
      have hd : d = { d with phase := .draftFrames (.text packages) } := by rw [← hcase]
      rw [hd]
      exact (searches_draftText d).resumableAt h.next hphase
    | close packages =>
      rw [hcase] at hphase
      have hd : d = { d with phase := .draftFrames (.close packages) } := by rw [← hcase]
      rw [hd]
      exact (searches_draftClose d).resumableAt h.next hphase

/-- The decoder can be cut anywhere. -/
theorem resumable : Resumable Ready where
  extend := Ready.append
  resumableAt := Ready.resumableAt
  discard := by
    intro d bytes hready hdiscards
    have hphase : d.phase = .rejected := by simpa [PackageDecoder.discards] using hdiscards
    refine ⟨hdiscards, ?_, fun bytes => ?_⟩
    · simp [PackageDecoder.next?, hready.next]
    · show d.attempt bytes = _
      unfold attempt
      rw [hphase]

end Decoder

end FramedChannel.WebSocket
