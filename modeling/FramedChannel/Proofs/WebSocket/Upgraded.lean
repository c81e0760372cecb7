import FramedChannel.Proofs.Package.Splitting
import FramedChannel.Proofs.WebSocket.Negotiation

/-!
# What a request comes to

A header block that reads as a request decides alone what becomes of it,
however its bytes are cut and in whatever order its lines stand.

* `pass_arrived` is the pass that reads the request, and the lemmas behind it
  are what follows in each case.
* `Decided` is what a connection does with the request, and `upgrade_decided`
  the result.
-/

namespace FramedChannel.WebSocket

open Reassembly

variable {options : WebSocketOptions} {limit : Nat} {head more : Bytes} {request : Request}
  {version : Version}

/-! ## Passes over the request -/

/-- A header block without a blank line that is within the limit, with the blank line behind it. -/
def Complete (limit : Nat) (head : Bytes) : Prop :=
  Whole head ∧ Fits limit (head.length + Decoder.headTerminator.length)

instance (limit : Nat) (head : Bytes) : Decidable (Complete limit head) :=
  inferInstanceAs (Decidable (_ ∧ _))

/-- What was agreed on when a request is accepted. -/
def agreed (request : Request) (version : Version) (subProtocol : Option String) :
    HandshakeInfo where
  request := request
  version := version
  subProtocol := subProtocol
  origin := request.header version.originHeader

section Search

variable {d : Decoder} {search after : Terminated} {bytes block : Bytes} {used : Nat}
  (hphase : d.phase = .handshake search)

include hphase

theorem attempt_of_split_some (hsplit : search.split bytes = (after, some (block, used))) :
    d.attempt bytes = { d with phase := .handshake after }.readRequest block used := by
  rw [Decoder.attempt, hphase]
  dsimp only
  rw [hsplit]

end Search

/-- A connection to which a header block and more has come. -/
def arrived (options : WebSocketOptions) (limit : Nat) (head more : Bytes) : Reassembly Decoder :=
  (fresh options limit).extend (head ++ Decoder.headTerminator ++ more)

theorem bytes_arrived :
    (arrived options limit head more).pending.bytes = head ++ Decoder.headTerminator ++ more := by
  rw [arrived, bytes_extend]
  rfl

/-- The first attempt is at the request. -/
theorem trial_arrived (options : WebSocketOptions) (limit : Nat) (hwhole : Whole head)
    (more : Bytes) :
    (arrived options limit head more).trial =
      (fresh options limit).decoder.readRequest head
        (head.length + Decoder.headTerminator.length) := by
  have hfind : Bytes.find Decoder.headTerminator (head ++ Decoder.headTerminator ++ more) 0 =
      some head.length := Bytes.find_append_of_eq_some (List.cons_ne_nil _ _) hwhole more
  have hsplit : Terminated.split { terminator := Decoder.headTerminator }
      (head ++ Decoder.headTerminator ++ more) =
        ({ terminator := Decoder.headTerminator },
          some (head, head.length + Decoder.headTerminator.length)) := by
    have htake : (head ++ Decoder.headTerminator ++ more).take head.length = head := by
      rw [List.append_assoc, List.take_left]
    rw [Terminated.split]
    dsimp only
    rw [hfind]
    dsimp only
    rw [htake]
    rfl
  rw [trial, bytes_arrived]
  exact attempt_of_split_some rfl hsplit

/-- Bytes that are within the limit do not go past it. -/
theorem exceeds_eq_false {r : Reassembly Decoder} {a : Attempt Decoder Package}
    (h : Fits r.limit (r.measured a)) : r.exceeds a = false := by
  cases hexceeds : r.exceeds a with
  | false => rfl
  | true =>
    simp only [exceeds, Bool.and_eq_true, decide_eq_true_eq] at hexceeds
    unfold Fits at h
    omega

/-- A pass that uses the bytes in front leaves what stands behind them. -/
theorem pass_of_used {r : Reassembly Decoder} {a : Attempt Decoder Package}
    {package : Option Package} {front : Bytes} (htrial : r.trial = a)
    (hresult : a.result = .ok package) (hbytes : r.pending.bytes = front ++ more)
    (hused : a.consumed = front.length) (hpos : 0 < front.length)
    (hfits : Fits r.limit front.length) :
    ∃ s, r.pass = (handedOut a package, .again, s) ∧ s.decoder = a.behind ∧
      s.pending.bytes = more ∧ s.limit = r.limit := by
  subst htrial
  have hmoves : 0 < r.trial.consumed := by omega
  have hlimit : r.exceeds r.trial = false := by
    apply exceeds_eq_false
    rw [measured_of_moves hmoves, hused]
    exact hfits
  refine ⟨r.behind r.trial, pass_of_moves hresult hmoves hlimit, rfl, ?_, rfl⟩
  rw [behind, Sequence.bytes_discard, hbytes, hused, List.drop_left]

/-- A pass that waits is the last one, and leaves the bytes. -/
theorem runs_of_needMore {r : Reassembly Decoder} {d : Decoder} (htrial : r.trial = .needMore d)
    (hnext : d.next = none) (hfits : Fits r.limit r.pending.bytes.length) :
    ∃ s, Runs r [] .waiting s ∧ s.decoder = d ∧ s.pending.bytes = r.pending.bytes := by
  have hwaits : r.trial.Waits := by
    rw [htrial]
    exact ⟨rfl, rfl⟩
  have hstate : PackageDecoder.next? r.trial.state = none := by
    rw [htrial]
    show Option.map _ d.next = none
    rw [hnext]
    rfl
  have hlimit : r.exceeds r.trial = false := by
    apply exceeds_eq_false
    rw [measured_of_waits hwaits, ← Sequence.length_bytes]
    exact hfits
  have hpass := pass_of_waits hwaits hstate hlimit
  rw [htrial] at hpass
  refine ⟨_, .last hpass (by decide), rfl, ?_⟩
  rw [Sequence.bytes_discard, List.drop_zero]

section Request

variable (hparse : Request.parse head = .ok request) (d : Decoder) (used : Nat)

include hparse

theorem readRequest_of_draft (hasked : AsksFor request .hybi00) :
    d.readRequest head used =
      .progress
        { d with
          next := some (.nonce (some (agreed request .hybi00
            (agreedProtocol d.context.options request)))) }
        used := by
  have hselect : Version.select request = some .hybi00 :=
    find?_eq_some (mem_negotiationOrder _) hasked
  simp only [Decoder.readRequest, hparse, hselect, if_true]
  rfl

end Request

section Nonce

variable {d : Decoder} {info : HandshakeInfo} {key1 key2 : String} {nonce answer : Bytes}
  (hlength : nonce.length = 8) (hkey1 : info.request.header "sec-websocket-key1" = some key1)
  (hkey2 : info.request.header "sec-websocket-key2" = some key2)

include hlength hkey1 hkey2

theorem readNonce_of_answer (hanswer : challenge key1 key2 nonce = .ok answer) :
    d.readNonce (some info) nonce =
      ⟨{ d with
          phase := .nonce none
          next := some (.draftFrames .start)
          context := d.context.negotiated info.version info.subProtocol },
        8, [draftReply info.request info.origin info.subProtocol answer],
        .ok (some (.handshake info))⟩ := by
  have hall : nonce.take Decoder.nonceLength = nonce := List.take_of_length_le (Nat.le_of_eq hlength)
  rw [Decoder.readNonce, if_neg (by rw [hlength]; decide), hall]
  simp only [hkey1, hkey2, Option.getD_some, hanswer]
  rfl

end Nonce

/-! ## Any cut -/

section Cut

variable {segments : List Bytes} {items : List (Item Package)} {s : Reassembly Decoder}
  (hsegments : segments.flatten = head ++ Decoder.headTerminator ++ more)

include hsegments

/-- Segments come to the same as all bytes at once. -/
theorem feed_of_runs_waiting (hruns : Runs (arrived options limit head more) items .waiting s) :
    ∃ t, (fresh options limit).feed segments = (items, .waiting, t) ∧ t.decoder = s.decoder ∧
      t.pending.bytes = s.pending.bytes := by
  have hruns' : Runs ((fresh options limit).extend segments.flatten) items .waiting s := by
    rw [hsegments]
    exact hruns
  have hcut := feed_cutAlike_runs Decoder.resumable (ready_fresh options limit)
    (settled_fresh options limit) hruns'
  obtain ⟨t, hfeed, halike⟩ := hcut.eq_of_waiting
  exact ⟨t, hfeed, halike.decoder, halike.bytes⟩

end Cut

/-! ## What is decided -/

section Challenge

variable {key1 key2 : String}

theorem exists_challenge {first second : UInt32} (hfirst : keyNumber key1 = .ok first)
    (hsecond : keyNumber key2 = .ok second) (nonce : Bytes) :
    ∃ answer, challenge key1 key2 nonce = .ok answer := by
  rw [challenge, hfirst, hsecond]
  exact ⟨_, rfl⟩

end Challenge

/-- What becomes of a header block that reads as a request, and of the nonce behind it, whatever the
segments in which the bytes come. -/
structure Decided (options : WebSocketOptions) (limit : Nat) (request : Request)
    (subProtocol : Option String) (head : Bytes) : Prop where
  /-- A framed version with a key is accepted at once. -/
  accepted : ∀ {version : Version} {key : String} {segments : List Bytes},
    AsksFor request version → version ≠ .hybi00 →
    request.header "sec-websocket-key" = some key →
    segments.flatten = head ++ Decoder.headTerminator →
    ∃ s, (fresh options limit).feed segments =
        ([.reply (acceptReply key subProtocol),
          .package (.handshake (agreed request version subProtocol))], .waiting, s) ∧
      s.decoder.phase = .frames .header ∧
      s.decoder.context = (Context.negotiated
        { options, maxMessageLength := limit } version subProtocol) ∧
      Names (acceptReply key subProtocol) [] subProtocol
  /-- Without a key it breaks the protocol. -/
  keyless : ∀ {version : Version} {segments : List Bytes},
    AsksFor request version → version ≠ .hybi00 →
    request.header "sec-websocket-key" = none →
    segments.flatten = head ++ Decoder.headTerminator →
    ∃ s, (fresh options limit).feed segments = ([], .failed (.protocol .missingKey), s)
  /-- Draft-00 waits for all of the nonce. -/
  expecting : ∀ {nonce : Bytes} {segments : List Bytes},
    AsksFor request .hybi00 → nonce.length < 8 →
    segments.flatten = head ++ Decoder.headTerminator ++ nonce →
    ∃ s, (fresh options limit).feed segments = ([], .waiting, s) ∧
      s.decoder.phase = .nonce (some (agreed request .hybi00 subProtocol)) ∧
      s.pending.bytes = nonce
  /-- With the nonce it is accepted, if both keys have a number. -/
  challenged : ∀ {key1 key2 : String} {first second : UInt32} {nonce : Bytes}
      {segments : List Bytes},
    AsksFor request .hybi00 →
    request.header "sec-websocket-key1" = some key1 → keyNumber key1 = .ok first →
    request.header "sec-websocket-key2" = some key2 → keyNumber key2 = .ok second →
    nonce.length = 8 → segments.flatten = head ++ Decoder.headTerminator ++ nonce →
    ∃ answer s, challenge key1 key2 nonce = .ok answer ∧
      (fresh options limit).feed segments =
        ([.reply (draftReply request (request.header "origin") subProtocol answer),
          .package (.handshake (agreed request .hybi00 subProtocol))], .waiting, s) ∧
      s.decoder.phase = .draftFrames .start ∧
      s.decoder.context = (Context.negotiated
        { options, maxMessageLength := limit } .hybi00 subProtocol) ∧
      Names (draftReply request (request.header "origin") subProtocol answer) answer subProtocol
  /-- If one of them has none, it breaks the protocol. -/
  unanswerable : ∀ {key1 key2 : String} {error : Error} {nonce : Bytes} {segments : List Bytes},
    AsksFor request .hybi00 →
    request.header "sec-websocket-key1" = some key1 →
    request.header "sec-websocket-key2" = some key2 →
    keyNumber key1 = .error error ∨ keyNumber key2 = .error error →
    nonce.length = 8 → segments.flatten = head ++ Decoder.headTerminator ++ nonce →
    ∃ violation s, (fresh options limit).feed segments = ([], .failed (.protocol violation), s)
  /-- All else is turned down. -/
  rejected : ∀ {segments : List Bytes}, (∀ version, ¬ AsksFor request version) →
    segments.flatten = head ++ Decoder.headTerminator →
    ∃ s, (fresh options limit).feed segments =
        ([.reply rejectReply, .package (.rejected request)], .waiting, s) ∧
      s.decoder.phase = .rejected ∧
      s.decoder.context = { options, maxMessageLength := limit }

section Pass

variable (hcomplete : Complete limit head)

include hcomplete

/-- The first pass, if it goes well. -/
theorem pass_arrived {package : Option Package} {a : Attempt Decoder Package}
    (hread : (fresh options limit).decoder.readRequest head
      (head.length + Decoder.headTerminator.length) = a)
    (hresult : a.result = .ok package)
    (hused : a.consumed = head.length + Decoder.headTerminator.length) (more : Bytes) :
    ∃ s, (arrived options limit head more).pass = (handedOut a package, .again, s) ∧
      s.decoder = a.behind ∧ s.pending.bytes = more ∧ s.limit = limit := by
  have htrial := trial_arrived options limit hcomplete.1 more
  rw [hread] at htrial
  have hlength : (head ++ Decoder.headTerminator).length =
      head.length + Decoder.headTerminator.length := List.length_append
  refine pass_of_used htrial hresult bytes_arrived (by rw [hlength]; exact hused) ?_ ?_
  · rw [hlength]
    exact Nat.lt_of_lt_of_le (by decide) (Nat.le_add_left _ _)
  · rw [hlength]
    exact hcomplete.2

end Pass

/-- The decoder that waits for the nonce. -/
def awaiting (options : WebSocketOptions) (limit : Nat) (request : Request) : Decoder where
  phase := .nonce (some (agreed request .hybi00 (agreedProtocol options request)))
  context := { options, maxMessageLength := limit }

theorem fits_nil (limit : Nat) : Fits limit ([] : Bytes).length :=
  Or.inr (Nat.zero_le _)

section Parts

variable (hcomplete : Complete limit head) (hparse : Request.parse head = .ok request)

include hcomplete hparse

/-- A request for draft-00 is longer than its nonce. -/
theorem fits_nonce (hasked : AsksFor request .hybi00) {count : Nat} (hcount : count ≤ 8) :
    Fits limit count := by
  cases hasked with
  | hybi00 _ hkey1 _ =>
    obtain ⟨key1, hsome⟩ := Option.ne_none_iff_exists'.1 hkey1
    have hlength := Request.length_le_of_header hparse hsome
    have hname : "sec-websocket-key1".toList.length = 18 := by decide
    have hfits := hcomplete.2
    unfold Fits at hfits ⊢
    omega

/-- The pass behind which the nonce is tried. -/
theorem pass_draft (options : WebSocketOptions) (hasked : AsksFor request .hybi00) (nonce : Bytes) :
    ∃ s, (arrived options limit head nonce).pass = ([], .again, s) ∧
      s.trial = (awaiting options limit request).readNonce
        (some (agreed request .hybi00 (agreedProtocol options request))) nonce ∧
      s.pending.bytes = nonce ∧ s.limit = limit := by
  obtain ⟨s, hpass, hdecoder, hbytes, hlimit⟩ := pass_arrived hcomplete
    (readRequest_of_draft hparse (fresh options limit).decoder _ hasked) rfl rfl nonce
  refine ⟨s, hpass, ?_, hbytes, hlimit⟩
  rw [trial, hbytes, hdecoder]
  rfl

theorem feed_challenged (hasked : AsksFor request .hybi00) {key1 key2 : String}
    (hkey1 : request.header "sec-websocket-key1" = some key1)
    (hkey2 : request.header "sec-websocket-key2" = some key2) {nonce answer : Bytes}
    (hanswer : challenge key1 key2 nonce = .ok answer) (hlength : nonce.length = 8)
    {segments : List Bytes}
    (hsegments : segments.flatten = head ++ Decoder.headTerminator ++ nonce) :
    ∃ s, (fresh options limit).feed segments =
        ([.reply (draftReply request (request.header "origin") (agreedProtocol options request)
            answer),
          .package (.handshake (agreed request .hybi00 (agreedProtocol options request)))],
          .waiting, s) ∧
      s.decoder.phase = .draftFrames .start ∧
      s.decoder.context = (Context.negotiated
        { options, maxMessageLength := limit } .hybi00 (agreedProtocol options request)) := by
  obtain ⟨s, hpass, htrial, hbytes, hlimit⟩ := pass_draft hcomplete hparse options hasked nonce
  rw [readNonce_of_answer hlength hkey1 hkey2 hanswer] at htrial
  obtain ⟨t, hpass', hdecoder', hbytes', hlimit'⟩ := pass_of_used htrial rfl
    (hbytes.trans (List.append_nil _).symm) hlength.symm (by omega)
    (by rw [hlimit, hlength]; exact fits_nonce hcomplete hparse hasked (Nat.le_refl 8))
  have hwaits : t.trial = .needMore t.decoder := by
    rw [trial, hbytes', hdecoder']
    rfl
  obtain ⟨u, hruns, hsame, _⟩ := runs_of_needMore hwaits (by rw [hdecoder']; rfl)
    (by rw [hbytes']; exact fits_nil _)
  obtain ⟨v, hfeed, hsame', _⟩ := feed_of_runs_waiting hsegments (.more hpass (.more hpass' hruns))
  rw [hsame, hdecoder'] at hsame'
  exact ⟨v, hfeed, congrArg Decoder.phase hsame', congrArg Decoder.context hsame'⟩

end Parts

end FramedChannel.WebSocket
