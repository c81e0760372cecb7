import FramedChannel.Proofs.WebSocket.Upgraded
import FramedChannel.Proofs.WebSocket.Dialogue
import FramedChannel.Proofs.WebSocket.Verbatim

/-!
# What a client gets into a reply

A reply repeats what the client has sent: its host, its path, its origin and one
of its sub-protocols.  It is still made of the lines that the server means, and
of nothing else.

* `Asked` are the bytes that a client has sent up to an upgrade, and `Granted` is
  a reply to them with all that a reader finds in it.
* `Opens` is the invariant of the opening, which keeps the request together with
  the bytes that it was read from, and `attempt_treats` is one attempt.
* `replies_intended` is the result, and `origin_cut_short` the one value that a
  reader finds changed.
-/

namespace FramedChannel.WebSocket

open Reassembly

/-! ## Requests and their replies -/

/-- The received bytes begin with a request that led to an upgrade, and `rest` stands behind it. -/
structure Asked (options : WebSocketOptions) (received : Bytes) (info : HandshakeInfo)
    (rest : Bytes) : Prop where
  request : ∃ head, received = head ++ Decoder.headTerminator ++ rest ∧ Whole head ∧
    Request.parse head = .ok info.request
  version : AsksFor info.request info.version
  info_eq : info = agreed info.request info.version (agreedProtocol options info.request)

/-- A reply to what was asked for.  A reader finds the headers that were meant, and behind them the
answer to the challenge of draft-00 and otherwise nothing. -/
inductive Granted (options : WebSocketOptions) (received : Bytes) (info : HandshakeInfo)
    (reply : Bytes) : Prop where
  | framed {rest : Bytes} {key : String} (hasked : Asked options received info rest)
      (hversion : info.version ≠ .hybi00)
      (hkey : info.request.header "sec-websocket-key" = some key)
      (hreads : ReadsAs reply (acceptMeant key info.subProtocol) [])
  | draft {rest answer : Bytes} {key1 key2 : String} (hasked : Asked options received info rest)
      (hversion : info.version = .hybi00)
      (hkey1 : info.request.header "sec-websocket-key1" = some key1)
      (hkey2 : info.request.header "sec-websocket-key2" = some key2)
      (hnonce : 8 ≤ rest.length) (hanswer : challenge key1 key2 (rest.take 8) = .ok answer)
      (hlength : answer.length = 16)
      (hreads : ReadsAs reply
        (draftMeant info.request (info.origin.map readBack) info.subProtocol) answer)

variable {options : WebSocketOptions} {limit : Nat} {received rest more : Bytes}
  {info : HandshakeInfo} {reply : Bytes}

theorem Asked.append (h : Asked options received info rest) (more : Bytes) :
    Asked options (received ++ more) info (rest ++ more) where
  request := by
    obtain ⟨head, rfl, hwhole, hparse⟩ := h.request
    exact ⟨head, List.append_assoc .., hwhole, hparse⟩
  version := h.version
  info_eq := h.info_eq

theorem Granted.append (h : Granted options received info reply) (more : Bytes) :
    Granted options (received ++ more) info reply := by
  cases h with
  | framed hasked hversion hkey hreads =>
    exact .framed (hasked.append more) hversion hkey hreads
  | draft hasked hversion hkey1 hkey2 hnonce hanswer hlength hreads =>
    refine .draft (hasked.append more) hversion hkey1 hkey2 ?_ ?_ hlength hreads
    · rw [List.length_append]
      omega
    · rw [List.take_append_of_le_length hnonce]
      exact hanswer

theorem Asked.subProtocol (h : Asked options received info rest) :
    info.subProtocol = agreedProtocol options info.request := by
  rw [h.info_eq]
  rfl

theorem Asked.accepted (h : Asked options received info rest) (hversion : info.version ≠ .hybi00)
    {key : String} (hkey : info.request.header "sec-websocket-key" = some key) :
    Granted options received info (acceptReply key info.subProtocol) := by
  obtain ⟨_, _, _, hparse⟩ := h.request
  refine .framed h hversion hkey ?_
  rw [h.subProtocol]
  exact readsAs_acceptMeant options hparse key

theorem length_of_challenge {key1 key2 : String} {nonce answer : Bytes}
    (h : challenge key1 key2 nonce = .ok answer) : answer.length = 16 := by
  cases hfirst : keyNumber key1 with
  | error error =>
    rw [challenge, hfirst] at h
    cases h
  | ok first =>
    cases hsecond : keyNumber key2 with
    | error error =>
      rw [challenge, hfirst, hsecond] at h
      cases h
    | ok second =>
      rw [challenge, hfirst, hsecond] at h
      cases h
      exact Digest.Md5.length_digest _

theorem Asked.challenged (h : Asked options received info rest) (hversion : info.version = .hybi00)
    (hnonce : 8 ≤ rest.length) {answer : Bytes}
    (hanswer : challenge ((info.request.header "sec-websocket-key1").getD "")
      ((info.request.header "sec-websocket-key2").getD "") (rest.take 8) = .ok answer) :
    Granted options received info
      (draftReply info.request info.origin info.subProtocol answer) := by
  obtain ⟨_, _, _, hparse⟩ := h.request
  have hasks := h.version
  rw [hversion] at hasks
  cases hasks with
  | hybi00 _ hkey1 hkey2 =>
    obtain ⟨key1, hkey1⟩ := Option.ne_none_iff_exists'.1 hkey1
    obtain ⟨key2, hkey2⟩ := Option.ne_none_iff_exists'.1 hkey2
    rw [hkey1, hkey2] at hanswer
    have horigin : info.origin = info.request.header "origin" := by
      rw [h.info_eq, agreed, hversion]
      rfl
    refine .draft h hversion hkey1 hkey2 hnonce hanswer (length_of_challenge hanswer) ?_
    rw [horigin, h.subProtocol]
    exact readsAs_draftMeant options hparse answer

/-! ## The opening -/

/-- Where a connection stands while it is opened, and which bytes it has received. -/
inductive Opens (options : WebSocketOptions) (received : Bytes) (d : Decoder) (bytes : Bytes) :
    Prop where
  | asking {search : Terminated} (hphase : d.phase = .handshake search)
      (hoptions : d.context.options = options)
      (hsearch : search.terminator = Decoder.headTerminator) (hbytes : bytes = received)
  | asked {info : HandshakeInfo} (hphase : d.phase = .nonce (some info))
      (hversion : info.version = .hybi00) (hasked : Asked options received info bytes)
  | passed (hpart : d.phase.part ≠ .opening)

/-- What an attempt owes: replies that were granted, and a handshake only with its reply. -/
structure Decoder.Treats (options : WebSocketOptions) (received bytes : Bytes)
    (a : Attempt Decoder Package) : Prop where
  accepts : ∀ info, a.result = .ok (some (.handshake info)) →
    ∃ reply, a.replies = [reply] ∧ Granted options received info reply
  replies : ∀ reply ∈ a.replies,
    reply = rejectReply ∨ ∃ info, Granted options received info reply
  opens : ∀ package, a.result = .ok package →
    Opens options received a.behind (bytes.drop a.consumed)

theorem Opens.append {d : Decoder} {bytes : Bytes} (h : Opens options received d bytes)
    (more : Bytes) :
    Opens options (received ++ more) d (bytes ++ more) := by
  cases h with
  | asking hphase hoptions hsearch hbytes =>
    exact .asking hphase hoptions hsearch (by rw [hbytes])
  | asked hphase hversion hasked => exact .asked hphase hversion (hasked.append more)
  | passed hpart => exact .passed hpart

namespace Decoder

variable {d : Decoder} {bytes block : Bytes} {search after : Terminated} {used : Nat}

theorem treats_fail (error : Error) : Treats options received bytes (.fail d used error) where
  accepts _ h := by cases h
  replies _ h := by cases h
  opens _ h := by cases h

theorem treats_needMore (hnext : d.next = none) (h : Opens options received d bytes) :
    Treats options received bytes (.needMore d) where
  accepts _ h := by cases h
  replies _ h := by cases h
  opens _ _ := by
    rw [behind_of_nothing hnext rfl]
    exact h

/-- A request that is read stands in front of the first blank line. -/
theorem split_request (hready : search.Ready bytes)
    (hsearch : search.terminator = headTerminator)
    (hsplit : search.split bytes = (after, some (block, used))) :
    bytes = block ++ headTerminator ++ bytes.drop used ∧ Whole block := by
  have hne : headTerminator ≠ [] := List.cons_ne_nil _ _
  have hfrom := hready.find_eq []
  rw [List.append_nil, hsearch] at hfrom
  rw [Terminated.split, hsearch, hfrom] at hsplit
  cases hfind : Bytes.find headTerminator bytes 0 with
  | none =>
    rw [hfind] at hsplit
    cases hsplit
  | some position =>
    rw [hfind] at hsplit
    cases hsplit
    obtain ⟨_, hat, hearlier⟩ := (Bytes.find_eq_some_iff hne).1 hfind
    have hin := Bytes.add_length_le_of_prefix_drop hat hne
    have hblock : (bytes.take position).length = position := by
      rw [List.length_take]
      omega
    obtain ⟨behind, hbehind⟩ := hat
    have hbytes : bytes = bytes.take position ++ headTerminator ++ behind := by
      rw [List.append_assoc, hbehind, List.take_append_drop]
    refine ⟨?_, ?_⟩
    · rw [← List.drop_drop, ← hbehind, List.drop_left]
      exact hbytes
    · rw [Whole, Bytes.find_eq_some_iff hne]
      refine ⟨Nat.zero_le _, ?_, ?_⟩
      · simp only [List.drop_left, List.prefix_rfl]
      · intro i hzero hlt hprefix
        rw [hblock] at hlt
        refine hearlier i hzero hlt ?_
        rw [hbytes, List.drop_append_of_le_length (by simp only [List.length_append]; omega)]
        exact hprefix.trans (List.prefix_append _ _)

/-- An attempt that leads to another phase leaves what it did not use. -/
theorem opens_next {a : Attempt Decoder Package} {phase : Phase} (h : a.state.next = some phase)
    (hopens : Opens options received { a.state with phase, next := none } rest) :
    Opens options received a.behind rest := by
  rw [behind_of_next h]
  exact hopens

/-- An upgrade ends the opening. -/
theorem treats_granted {a : Attempt Decoder Package} {phase : Phase} (hreplies : a.replies = [reply])
    (hresult : a.result = .ok (some (.handshake info)))
    (hgranted : Granted options received info reply) (hnext : a.state.next = some phase)
    (hpart : phase.part ≠ .opening) : Treats options received bytes a where
  accepts other h := by
    cases hresult.symm.trans h
    exact ⟨reply, hreplies, hgranted⟩
  replies other h := by
    rw [hreplies, List.mem_singleton] at h
    rw [h]
    exact .inr ⟨info, hgranted⟩
  opens _ _ := opens_next hnext (.passed hpart)

theorem readRequest_treats (hoptions : d.context.options = options)
    (hbytes : received = block ++ headTerminator ++ bytes.drop used) (hwhole : Whole block) :
    Treats options received bytes (d.readRequest block used) := by
  unfold readRequest
  split
  · exact treats_fail _
  · rename_i request hparse
    split
    · exact
        { accepts := fun _ h => by cases h
          replies := fun reply hreply => .inl (List.mem_singleton.1 hreply)
          opens := fun _ _ => opens_next rfl (.passed (by simp [Phase.part])) }
    · rename_i version hselect
      have hasks : AsksFor request version :=
        isRequestedBy_iff.1
          (List.find?_some (p := fun version : Version => version.isRequestedBy request) hselect)
      have hasked : Asked options received
          (agreed request version (agreedProtocol options request)) (bytes.drop used) :=
        ⟨⟨block, hbytes, hwhole, hparse⟩, hasks, rfl⟩
      subst hoptions
      dsimp only
      split
      · rename_i hversion
        exact
          { accepts := fun _ h => by cases h
            replies := fun _ h => by cases h
            opens := fun _ _ => opens_next rfl (.asked rfl hversion hasked) }
      · rename_i hversion
        split
        · exact treats_fail _
        · rename_i key hkey
          exact treats_granted rfl rfl (hasked.accepted hversion hkey) rfl (by simp [Phase.part])

theorem readNonce_treats (hnext : d.next = none) (hphase : d.phase = .nonce (some info))
    (hversion : info.version = .hybi00) (hasked : Asked options received info bytes) :
    Treats options received bytes (d.readNonce (some info) bytes) := by
  unfold readNonce
  split
  · exact treats_needMore hnext (.asked hphase hversion hasked)
  · rename_i hlength
    dsimp only
    split
    · exact treats_fail _
    · rename_i answer hanswer
      have hgranted := hasked.challenged hversion (Nat.not_lt.1 hlength) hanswer
      exact treats_granted rfl rfl hgranted rfl (by simp [Phase.part])

/-- Behind the opening there are no replies, and it does not come back. -/
theorem treats_of_passed {a : Attempt Decoder Package} (hpart : d.phase.part ≠ .opening)
    (hadvances : d.Advances a) : Treats options received bytes a := by
  have hsilent : a.replies = [] ∧ (∀ info, a.result ≠ .ok (some (.handshake info))) ∧
      a.behind.phase.part = d.phase.part := by
    cases hadvances with
    | silent hreplies hresult hphase hnext _ =>
      refine ⟨hreplies, fun info => hresult _, ?_⟩
      cases hsome : a.state.next with
      | none => exact (behind_of_none hsome).1.trans hphase
      | some phase =>
        rw [behind_of_next hsome]
        exact hnext phase hsome
    | speaks message _ hreplies hresult hphase hnext _ =>
      refine ⟨hreplies, fun info h => ?_, (behind_of_none hnext).1.trans hphase⟩
      cases hresult.symm.trans h
    | refuses _ hopening _ _ _ | accepts hopening _ _ _ _ _ _ => exact absurd hopening hpart
  obtain ⟨hreplies, hresult, hbehind⟩ := hsilent
  exact
    { accepts := fun info h => absurd h (hresult info)
      replies := fun reply hreply => by
        rw [hreplies] at hreply
        cases hreply
      opens := fun _ _ => .passed (by rwa [hbehind]) }

/-- Every attempt owes as much. -/
theorem attempt_treats (h : Opens options received d bytes) (hready : Ready d bytes) :
    Treats options received bytes (d.attempt bytes) := by
  have hnext := hready.next
  have hkept := hready.phase
  cases h with
  | @asking search hphase hoptions hsearch hbytes =>
    rw [hphase] at hkept
    rw [attempt, hphase]
    dsimp only
    split
    · rename_i after hsplit
      have hafter := (Terminated.split_eq_none hkept hsplit).1.trans hsearch
      exact treats_needMore hnext (.asking rfl hoptions hafter hbytes)
    · rename_i after block used hsplit
      obtain ⟨hblock, hwhole⟩ := split_request hkept hsearch hsplit
      exact readRequest_treats hoptions (hbytes.symm.trans hblock) hwhole
  | asked hphase hversion hasked =>
    rw [attempt_nonce hphase]
    exact readNonce_treats hnext hphase hversion hasked
  | passed hpart => exact treats_of_passed hpart (attempt_advances hnext bytes)

end Decoder

/-! ## Connections from their beginning -/

/-- Items in which every reply was granted, and every handshake has its reply. -/
structure Fair (options : WebSocketOptions) (received : Bytes) (items : List (Item Package)) :
    Prop where
  accepts : ∀ info, .package (.handshake info) ∈ items →
    ∃ reply, .reply reply ∈ items ∧ Granted options received info reply
  replies : ∀ reply, .reply reply ∈ items →
    reply = rejectReply ∨ ∃ info, Granted options received info reply

variable {items others : List (Item Package)} {r s : Reassembly Decoder} {verdict : Verdict}

theorem fair_nil (options : WebSocketOptions) (received : Bytes) : Fair options received [] where
  accepts _ h := by cases h
  replies _ h := by cases h

theorem Fair.join (h : Fair options received items) (h' : Fair options received others) :
    Fair options received (items ++ others) where
  accepts info hmem := by
    rcases List.mem_append.1 hmem with hitems | hothers
    · obtain ⟨reply, hreply, hgranted⟩ := h.accepts info hitems
      exact ⟨reply, List.mem_append_left _ hreply, hgranted⟩
    · obtain ⟨reply, hreply, hgranted⟩ := h'.accepts info hothers
      exact ⟨reply, List.mem_append_right _ hreply, hgranted⟩
  replies reply hmem := by
    rcases List.mem_append.1 hmem with hitems | hothers
    · exact h.replies reply hitems
    · exact h'.replies reply hothers

theorem Fair.append (h : Fair options received items) (more : Bytes) :
    Fair options (received ++ more) items where
  accepts info hmem := by
    obtain ⟨reply, hreply, hgranted⟩ := h.accepts info hmem
    exact ⟨reply, hreply, hgranted.append more⟩
  replies reply hmem := by
    refine (h.replies reply hmem).imp_right ?_
    rintro ⟨info, hgranted⟩
    exact ⟨info, hgranted.append more⟩

section Attempt

variable {a : Attempt Decoder Package} {bytes : Bytes}

theorem fair_replies (h : Decoder.Treats options received bytes a) :
    Fair options received (a.replies.map .reply) where
  accepts info hmem := by
    obtain ⟨_, _, heq⟩ := List.mem_map.1 hmem
    cases heq
  replies reply hmem := by
    obtain ⟨_, hreply, heq⟩ := List.mem_map.1 hmem
    cases heq
    exact h.replies reply hreply

theorem fair_handedOut (h : Decoder.Treats options received bytes a) {package : Option Package}
    (hresult : a.result = .ok package) : Fair options received (handedOut a package) where
  accepts info hmem := by
    rcases List.mem_append.1 hmem with hreplies | hpackage
    · obtain ⟨_, _, heq⟩ := List.mem_map.1 hreplies
      cases heq
    · obtain ⟨_, hsome, heq⟩ := List.mem_map.1 hpackage
      cases heq
      rw [Option.mem_toList.1 hsome] at hresult
      obtain ⟨reply, hreply, hgranted⟩ := h.accepts info hresult
      refine ⟨reply, List.mem_append_left _ ?_, hgranted⟩
      rw [hreply]
      exact List.mem_cons_self
  replies reply hmem := by
    rcases List.mem_append.1 hmem with hreplies | hpackage
    · exact (fair_replies h).replies reply hreplies
    · obtain ⟨_, _, heq⟩ := List.mem_map.1 hpackage
      cases heq

end Attempt

/-- A pass hands out what its attempt owes. -/
theorem Opens.pass (h : Opens options received r.decoder r.pending.bytes)
    (hready : Decoder.Ready r.decoder r.pending.bytes) (hpass : r.pass = (items, verdict, s)) :
    Fair options received items ∧
      ((∀ error, verdict ≠ .failed error) → Opens options received s.decoder s.pending.bytes) := by
  have htreats : Decoder.Treats options received r.pending.bytes r.trial :=
    Decoder.attempt_treats h hready
  obtain ⟨_, _, heq⟩ | ⟨_, _, _, heq⟩ | ⟨hwaits, _, heq⟩ | ⟨package, hresult, _, _, heq⟩ :=
    pass_cases Decoder.resumable hready <;> rw [hpass] at heq <;> cases heq
  · exact ⟨fair_replies htreats, fun hok => absurd rfl (hok _)⟩
  · exact ⟨fair_replies htreats, fun hok => absurd rfl (hok _)⟩
  · refine ⟨fair_nil _ _, fun _ => ?_⟩
    have hkept := (Decoder.resumable.resumableAt hready).wait hwaits
    have hnext : r.trial.state.next = none := Option.map_eq_none_iff.1 hkept.2.1
    have hbehind := behind_of_nothing hnext hwaits.1
    have hopens := htreats.opens _ hwaits.1
    rw [hbehind, hwaits.2] at hopens
    rw [Sequence.bytes_discard]
    exact hopens
  · refine ⟨fair_handedOut htreats hresult, fun _ => ?_⟩
    rw [behind, Sequence.bytes_discard]
    exact htreats.opens _ hresult

theorem Opens.runs (h : Opens options received r.decoder r.pending.bytes)
    (hready : Decoder.Ready r.decoder r.pending.bytes) (hrun : Runs r items verdict s) :
    Fair options received items ∧
      (verdict = .waiting → Opens options received s.decoder s.pending.bytes) := by
  induction hrun with
  | last hpass _ =>
    obtain ⟨hfair, hopens⟩ := h.pass hready hpass
    exact ⟨hfair, fun hwaiting => hopens fun _ hfailed => by cases hwaiting.symm.trans hfailed⟩
  | more hpass _ ih =>
    obtain ⟨hfair, hopens⟩ := h.pass hready hpass
    obtain ⟨hrest, hwaits⟩ :=
      ih (hopens (by simp)) (ready_of_pass_eq_again Decoder.resumable hready hpass).1
    exact ⟨hfair.join hrest, hwaits⟩

theorem Opens.feed (h : Opens options received r.decoder r.pending.bytes)
    (hready : Decoder.Ready r.decoder r.pending.bytes) (segments : List Bytes) :
    Fair options (received ++ segments.flatten) (r.feed segments).1 := by
  induction segments generalizing r received with
  | nil => exact fair_nil _ _
  | cons segment rest ih =>
    have hready' := ready_extend Decoder.resumable hready segment
    have hrun := runs_decode Decoder.resumable hready'
    have hmore : Opens options (received ++ segment) (r.extend segment).decoder
        (r.extend segment).pending.bytes := by
      rw [bytes_extend]
      exact h.append segment
    obtain ⟨hfair, hopens⟩ := hmore.runs hready' hrun
    have hall := hfair.append rest.flatten
    rw [Reassembly.feed, List.flatten_cons, ← List.append_assoc]
    split
    · rename_i hdecode
      rw [hdecode] at hopens hrun hall
      exact hall.join (ih (hopens rfl) (hrun.ready Decoder.resumable hready'))
    · exact hall

theorem mem_repliesOf : reply ∈ repliesOf items ↔ .reply reply ∈ items := by
  rw [repliesOf, List.mem_filterMap]
  constructor
  · rintro ⟨item, hmem, hsome⟩
    cases item with
    | reply bytes =>
      cases hsome
      exact hmem
    | package package => cases hsome
  · intro hmem
    exact ⟨_, hmem, rfl⟩

/-- Whatever a client sends, and however it is cut, a reply is the refusal, or it was granted for
what the client has sent.  A handshake has one reply, and that was granted for it. -/
theorem replies_intended (options : WebSocketOptions) (limit : Nat) (segments : List Bytes) :
    let items := ((fresh options limit).feed segments).1
    (∀ info, .package (.handshake info) ∈ items →
      ∃ reply, repliesOf items = [reply] ∧ Granted options segments.flatten info reply) ∧
    ∀ reply ∈ repliesOf items,
      reply = rejectReply ∨ ∃ info, Granted options segments.flatten info reply := by
  intro items
  have hopens : Opens options [] (fresh options limit).decoder (fresh options limit).pending.bytes :=
    .asking rfl rfl rfl rfl
  have hfair := hopens.feed (ready_fresh options limit) segments
  rw [List.nil_append] at hfair
  refine ⟨fun info hmem => ?_, fun reply hmem => hfair.replies reply (mem_repliesOf.1 hmem)⟩
  obtain ⟨reply, hreply, hgranted⟩ := hfair.accepts info hmem
  have hreply' := mem_repliesOf.2 hreply
  obtain hnone | ⟨_, other, _, hone⟩ := (talk_of_feed options limit segments).replies
  · rw [hnone] at hreply'
    cases hreply'
  · rw [hone, List.mem_singleton] at hreply'
    rw [← hreply'] at hone
    exact ⟨reply, hone, hgranted⟩

/-! ### An origin that is cut short -/

/-- A reader finds no second request in the same bytes. -/
theorem ReadsAs.unique {read read' : Request} {tail tail' : Bytes} (h : ReadsAs reply read tail)
    (h' : ReadsAs reply read' tail') : read = read' := by
  obtain ⟨head, hreply, hfind, hparse⟩ := h
  obtain ⟨head', hreply', hfind', hparse'⟩ := h'
  have hlength : head.length = head'.length := Option.some.inj (hfind.symm.trans hfind')
  have hsame := hreply.symm.trans hreply'
  rw [List.append_assoc, List.append_assoc] at hsame
  rw [(List.append_inj hsame hlength).1] at hparse
  cases hparse.symm.trans hparse'
  rfl

/-- A request for draft-00 with two origins, of which the second one is empty. -/
def emptyOriginHead : Bytes :=
  Utf8.encode ("GET / HTTP/1.1\r\nHost: h\r\nSec-WebSocket-Key1: 1 2\r\n" ++
    "Sec-WebSocket-Key2: 3 4\r\nOrigin: a\r\nOrigin:")

/-- What the request says. -/
def emptyOriginRequest : Request where
  method := "GET"
  path := "/"
  headers :=
    [("host", "h"), ("origin", "a, "), ("sec-websocket-key1", "1 2"), ("sec-websocket-key2", "3 4")]

/-- The request, the blank line, and a nonce. -/
def emptyOriginSegments : List Bytes :=
  [emptyOriginHead, Decoder.headTerminator, [0, 1, 2, 3, 4, 5, 6, 7]]

theorem parse_emptyOrigin : Request.parse emptyOriginHead = .ok emptyOriginRequest := by
  decide +kernel

theorem origin_emptyOrigin :
    emptyOriginRequest.header "origin" = some "a, " ∧
      agreedProtocol {} emptyOriginRequest = none := by
  decide +kernel

theorem feed_emptyOrigin :
    ∃ answer, ((fresh {} 0).feed emptyOriginSegments).1 =
      [.reply (draftReply emptyOriginRequest (some "a, ") none answer),
        .package (.handshake (agreed emptyOriginRequest .hybi00 none))] := by
  have hcomplete : Complete 0 emptyOriginHead := by decide +kernel
  have hasked : AsksFor emptyOriginRequest .hybi00 :=
    .hybi00 (by decide +kernel) (by decide +kernel) (by decide +kernel)
  have hkey1 : emptyOriginRequest.header "sec-websocket-key1" = some "1 2" := by decide +kernel
  have hkey2 : emptyOriginRequest.header "sec-websocket-key2" = some "3 4" := by decide +kernel
  have hfirst : keyNumber "1 2" = .ok 12 := by decide +kernel
  have hsecond : keyNumber "3 4" = .ok 34 := by decide +kernel
  obtain ⟨answer, hanswer⟩ := exists_challenge hfirst hsecond [0, 1, 2, 3, 4, 5, 6, 7]
  have hsegments : emptyOriginSegments.flatten =
      emptyOriginHead ++ Decoder.headTerminator ++ [0, 1, 2, 3, 4, 5, 6, 7] := by
    rw [emptyOriginSegments, List.flatten_cons, List.flatten_cons, List.flatten_singleton,
      List.append_assoc]
  obtain ⟨s, hfeed, _⟩ :=
    feed_challenged hcomplete parse_emptyOrigin hasked hkey1 hkey2 hanswer rfl hsegments
  rw [origin_emptyOrigin.1, origin_emptyOrigin.2] at hfeed
  exact ⟨answer, congrArg Prod.fst hfeed⟩

/-- The space at the end of the origin is the only thing that is lost. -/
theorem replies_intended_emptyOrigin :
    ∃ reply answer, repliesOf ((fresh {} 0).feed emptyOriginSegments).1 = [reply] ∧
      ReadsAs reply (draftMeant emptyOriginRequest (some "a,") none) answer := by
  obtain ⟨_, hitems⟩ := feed_emptyOrigin
  obtain ⟨haccepts, _⟩ := replies_intended {} 0 emptyOriginSegments
  rw [hitems] at haccepts
  obtain ⟨reply, hreply, hgranted⟩ := haccepts _ (List.mem_cons_of_mem _ List.mem_cons_self)
  rw [hitems]
  cases hgranted with
  | framed _ hversion _ _ => exact absurd rfl hversion
  | draft _ _ _ _ _ _ _ hreads =>
    have horigin : (agreed emptyOriginRequest .hybi00 none).origin.map readBack = some "a," := by
      decide +kernel
    rw [horigin] at hreads
    exact ⟨reply, _, hreply, hreads⟩

/-- A reader of the reply does not find the origin of the request. -/
theorem origin_cut_short :
    ∃ info reply, ((fresh {} 0).feed emptyOriginSegments).1 =
        [.reply reply, .package (.handshake info)] ∧
      info.version = .hybi00 ∧ info.origin = some "a, " ∧
      ∀ read tail, ReadsAs reply read tail →
        read.header "sec-websocket-origin" = some "a," ∧
        read.header "sec-websocket-origin" ≠ info.origin := by
  obtain ⟨answer, hitems⟩ := feed_emptyOrigin
  have hmeant := readsAs_draftMeant {} parse_emptyOrigin answer
  rw [origin_emptyOrigin.1, origin_emptyOrigin.2] at hmeant
  refine ⟨_, _, hitems, rfl, origin_emptyOrigin.1, fun read tail hreads => ?_⟩
  rw [hreads.unique hmeant]
  decide +kernel

end FramedChannel.WebSocket
