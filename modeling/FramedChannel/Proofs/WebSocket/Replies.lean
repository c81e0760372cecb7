import FramedChannel.Channel.Move
import FramedChannel.Proofs.Channel.Effect
import FramedChannel.Proofs.WebSocket.Reached

/-!
# Replies and their packages

The decoder of a WebSocket answers a request with a reply and hands out the
upgrade, or the refusal, right behind it.  Only the length limit can part the
two: it is checked when the reply is out already, and then the package is kept
back and decoding fails.

* `AnsweredBy` says which reply belongs to which package.
* `Replies` is what one attempt owes, and `Decoder.attempt_replies` says that
  every attempt keeps it.
* `Answered` are the items in which each reply is followed by its package, and
  `Outcome` is what decoding comes to.
* `decode_reply_followed` is the result, and `decode_keptBack` a request that
  is answered and then refused.
-/

namespace FramedChannel.WebSocket

open Reassembly

/-- The package that a reply belongs to, and the reply. -/
inductive AnsweredBy : Package → Bytes → Prop where
  | refused (request : Request) : AnsweredBy (.rejected request) rejectReply
  | accepted {info : HandshakeInfo} {key : String}
      (hkey : info.request.header "sec-websocket-key" = some key) :
      AnsweredBy (.handshake info) (acceptReply key info.subProtocol)
  | challenged {info : HandshakeInfo} {nonce answer : Bytes}
      (hanswer : challenge ((info.request.header "sec-websocket-key1").getD "")
        ((info.request.header "sec-websocket-key2").getD "") nonce = .ok answer) :
      AnsweredBy (.handshake info) (draftReply info.request info.origin info.subProtocol answer)

/-! ## One attempt -/

/-- What an attempt owes for replies: there is one if and only if it comes to an upgrade or to a
refusal, and it belongs there. -/
inductive Replies : Attempt Decoder Package → Prop where
  | silent {a : Attempt Decoder Package} (hreplies : a.replies = [])
      (hpackage : ∀ package, a.result = .ok (some package) →
        ∃ message, package = .message message) :
      Replies a
  | answers {a : Attempt Decoder Package} {reply : Bytes} {package : Package}
      (hreplies : a.replies = [reply]) (hresult : a.result = .ok (some package))
      (h : AnsweredBy package reply) : Replies a

namespace Decoder

variable (d : Decoder) (used : Nat) (bytes : Bytes)

theorem replies_needMore : Replies (.needMore d) :=
  .silent rfl fun _ h => by cases h

theorem replies_progress : Replies (.progress d used) :=
  .silent rfl fun _ h => by cases h

theorem replies_fail (error : Error) : Replies (.fail d used error) :=
  .silent rfl fun _ h => by cases h

theorem readRequest_replies (head : Bytes) : Replies (d.readRequest head used) := by
  unfold readRequest
  split
  · exact replies_fail ..
  · rename_i request _
    split
    · exact .answers rfl rfl (.refused request)
    · rename_i version _
      dsimp only
      split
      · exact replies_progress ..
      · split
        · exact replies_fail ..
        · rename_i key hkey
          exact .answers rfl rfl (.accepted hkey)

theorem readNonce_replies (info : Option HandshakeInfo) : Replies (d.readNonce info bytes) := by
  unfold readNonce
  split
  · exact replies_needMore _
  · dsimp only
    split
    · exact replies_fail ..
    · split
      · exact replies_fail ..
      · rename_i answer hanswer
        exact .answers rfl rfl (.challenged hanswer)

/-- A finished frame is a message, if it is anything. -/
theorem message_of_resolve {context : Context} {payload : Bytes} {package : Package}
    (h : (context.resolve payload).2 = .ok (some package)) :
    ∃ message, package = .message message := by
  unfold Context.resolve at h
  dsimp only at h
  repeat' split at h
  all_goals cases h
  all_goals exact ⟨_, rfl⟩

theorem readHeader_replies : Replies (d.readHeader bytes) := by
  unfold readHeader
  split
  · dsimp only
    split
    · exact replies_needMore _
    · split
      · exact replies_fail ..
      · split
        · exact .silent rfl fun _ h => message_of_resolve h
        · exact replies_progress ..
  · exact replies_needMore _

theorem readPayload_replies : Replies (d.readPayload bytes) := by
  unfold readPayload
  dsimp only
  split
  · exact replies_needMore _
  · exact .silent rfl fun _ h => message_of_resolve h

theorem readMark_replies : Replies (d.readMark bytes) := by
  unfold readMark
  split
  · exact replies_needMore _
  · split
    · exact replies_progress ..
    · split
      · exact replies_progress ..
      · exact replies_fail ..

theorem replies_complete (message : Message) : Replies (.complete d used (.message message)) :=
  .silent rfl fun package h => ⟨message, by cases h; rfl⟩

theorem readDraftText_replies (search : Terminated) : Replies (d.readDraftText search bytes) := by
  unfold readDraftText
  split
  · exact replies_needMore _
  · split
    · exact replies_complete ..
    · exact replies_fail ..

theorem readDraftClose_replies (search : Terminated) :
    Replies (d.readDraftClose search bytes) := by
  unfold readDraftClose
  split
  · exact replies_needMore _
  · exact replies_complete ..

/-- Every attempt owes as much as `Replies` says, in every state of the decoder. -/
theorem attempt_replies : Replies (d.attempt bytes) := by
  unfold attempt
  split
  · split
    · exact replies_needMore _
    · exact readRequest_replies ..
  · exact readNonce_replies ..
  · exact readHeader_replies ..
  · exact readPayload_replies ..
  · exact readMark_replies ..
  · exact readDraftText_replies ..
  · exact readDraftClose_replies ..
  · exact replies_progress ..

end Decoder

/-! ## Decoding -/

/-- Items in which each reply is followed at once by the package that it belongs to. -/
inductive Answered : List (Item Package) → Prop where
  | nil : Answered []
  | message (message : Message) {rest : List (Item Package)} (hrest : Answered rest) :
      Answered (.package (.message message) :: rest)
  | reply {reply : Bytes} {package : Package} {rest : List (Item Package)}
      (h : AnsweredBy package reply) (hrest : Answered rest) :
      Answered (.reply reply :: .package package :: rest)

variable {items others : List (Item Package)}

theorem Answered.append (h : Answered items) (h' : Answered others) :
    Answered (items ++ others) := by
  induction h with
  | nil => exact h'
  | message message _ ih => exact .message message ih
  | reply hanswers _ ih => exact .reply hanswers ih

/-- What stands behind a reply. -/
theorem Answered.behind {reply : Bytes} {before after : List (Item Package)}
    (h : Answered (before ++ .reply reply :: after)) :
    ∃ package rest, after = .package package :: rest ∧ AnsweredBy package reply := by
  generalize hitems : before ++ .reply reply :: after = items at h
  induction h generalizing before with
  | nil => simp at hitems
  | message message hrest ih =>
    cases before with
    | nil => cases hitems
    | cons first before =>
      cases hitems
      exact ih rfl
  | reply hanswers hrest ih =>
    cases before with
    | nil =>
      cases hitems
      exact ⟨_, _, rfl, hanswers⟩
    | cons first before =>
      cases before with
      | nil => cases hitems
      | cons second before =>
        cases hitems
        exact ih rfl

/-- What decoding comes to under a limit. -/
inductive Outcome (limit : Nat) : List (Item Package) → Verdict → Prop where
  | answered {items : List (Item Package)} {verdict : Verdict} (h : Answered items) :
      Outcome limit items verdict
  /-- The package of the last reply is too long, and was kept back. -/
  | keptBack {body : List (Item Package)} {reply : Bytes} {package : Package} {length : Nat}
      (hbody : Answered body) (h : AnsweredBy package reply) (hlimit : 0 < limit)
      (hlong : limit < length) :
      Outcome limit (body ++ [.reply reply])
        (.failed (.protocol (.packageTooLong length limit)))

theorem Outcome.prepend {limit : Nat} {verdict : Verdict} (hitems : Answered items)
    (h : Outcome limit others verdict) : Outcome limit (items ++ others) verdict := by
  cases h with
  | answered hothers => exact .answered (hitems.append hothers)
  | keptBack hbody hanswers hlimit hlong =>
    rw [← List.append_assoc]
    exact .keptBack (hitems.append hbody) hanswers hlimit hlong

/-- An attempt that goes well hands out its reply with its package. -/
theorem Replies.handedOut {a : Attempt Decoder Package} {package : Option Package}
    (h : Replies a) (hresult : a.result = .ok package) : Answered (handedOut a package) := by
  unfold Reassembly.handedOut
  cases h with
  | silent hreplies hpackage =>
    rw [hreplies]
    cases package with
    | none => exact .nil
    | some package =>
      obtain ⟨message, rfl⟩ := hpackage package hresult
      exact .message message .nil
  | answers hreplies hresult' hanswers =>
    rw [hresult'] at hresult
    cases hresult
    rw [hreplies]
    exact .reply hanswers .nil

variable (r : Reassembly Decoder)

/-- One pass comes to as much, and one that another pass follows owes no package. -/
theorem pass_outcome :
    Outcome r.limit r.pass.1 r.pass.2.1 ∧ (r.pass.2.1 = .again → Answered r.pass.1) := by
  have hreplies : Replies r.trial := Decoder.attempt_replies ..
  cases hresult : r.trial.result with
  | error error =>
    rw [pass_of_error hresult]
    cases hreplies with
    | silent hnone =>
      rw [hnone]
      exact ⟨.answered .nil, fun _ => .nil⟩
    | answers _ hsome =>
      rw [hresult] at hsome
      cases hsome
  | ok package =>
    cases hlimit : r.exceeds r.trial with
    | false =>
      rw [items_pass_of_ok hresult hlimit]
      have hanswered := hreplies.handedOut hresult
      exact ⟨.answered hanswered, fun _ => hanswered⟩
    | true =>
      rw [pass_of_exceeds hresult hlimit]
      simp only [exceeds, Bool.and_eq_true, decide_eq_true_eq] at hlimit
      cases hreplies with
      | silent hnone =>
        rw [hnone]
        exact ⟨.answered .nil, fun _ => .nil⟩
      | answers hone _ hanswers =>
        rw [hone]
        refine ⟨.keptBack .nil hanswers hlimit.1.1 hlimit.1.2, ?_⟩
        intro hagain
        cases hagain

theorem passes_outcome (count : Nat) :
    Outcome r.limit (r.passes count).1 (r.passes count).2.1 := by
  induction count generalizing r with
  | zero => exact .answered .nil
  | succ count ih =>
    obtain ⟨houtcome, hagain⟩ := pass_outcome r
    have hlimit := limit_pass r
    rw [passes]
    split
    · rename_i items s hpass
      rw [hpass] at hagain hlimit
      have hrest := ih s
      rw [hlimit] at hrest
      exact hrest.prepend (hagain rfl)
    · exact houtcome

/-- Whatever a connection has read, each reply is followed by its package in what one call of
decoding hands out.  The one exception is the last reply of a call that fails because a package is
longer than the limit. -/
theorem decode_reply_followed {reply : Bytes} {before after : List (Item Package)}
    (h : r.decode.1 = before ++ .reply reply :: after) :
    (∃ package rest, after = .package package :: rest ∧ AnsweredBy package reply) ∨
      after = [] ∧ 0 < r.limit ∧ ∃ package length, AnsweredBy package reply ∧ r.limit < length ∧
        r.decode.2.1 = .failed (.protocol (.packageTooLong length r.limit)) := by
  have houtcome : Outcome r.limit r.decode.1 r.decode.2.1 := passes_outcome r _
  rw [h] at houtcome
  generalize hitems : before ++ .reply reply :: after = items at houtcome
  generalize r.decode.2.1 = verdict at houtcome ⊢
  cases houtcome with
  | answered hanswered =>
    rw [← hitems] at hanswered
    exact .inl hanswered.behind
  | @keptBack body last package length hbody hanswers hlimit hlong =>
    -- The reply is the last item, or it belongs to what was handed out in front of that.
    obtain rfl | ⟨rest, final, rfl⟩ := List.eq_nil_or_concat after
    · obtain ⟨-, hsame⟩ := List.append_inj' hitems rfl
      cases hsame
      exact .inr ⟨rfl, hlimit, package, length, hanswers, hlong, rfl⟩
    · left
      rw [List.concat_eq_append, ← List.cons_append, ← List.append_assoc] at hitems
      obtain ⟨hbefore, hfinal⟩ := List.append_inj' hitems rfl
      rw [← hbefore] at hbody
      obtain ⟨package, others, rfl, hanswers'⟩ := hbody.behind
      exact ⟨package, _, rfl, hanswers'⟩

/-- What the upgrade of `acceptedRequest` comes to. -/
def acceptedInfo : HandshakeInfo where
  request :=
    { method := "GET", path := "/",
      headers := [("sec-websocket-key", "k"), ("sec-websocket-version", "13")] }
  version := .rfc6455
  subProtocol := none
  origin := none

/-- A request that is accepted, and its reply with the upgrade behind it. -/
theorem decode_accepted :
    (((fresh {} 0).extend acceptedRequest).decode).1 =
        [] ++ .reply (acceptReply "k" none) :: [.package (.handshake acceptedInfo)] ∧
      AnsweredBy (.handshake acceptedInfo) (acceptReply "k" none) := by
  have hitems : (((fresh {} 0).extend acceptedRequest).decode).1 =
      [] ++ .reply (acceptReply "k" none) :: [.package (.handshake acceptedInfo)] := by
    decide +kernel
  refine ⟨hitems, ?_⟩
  obtain ⟨package, rest, hafter, hanswers⟩ | ⟨habsurd, _⟩ := decode_reply_followed _ hitems
  · cases hafter
    exact hanswers
  · cases habsurd

/-- A channel that gets this request, and a transport that takes all of the reply. -/
def refusedUpgrade : List Move :=
  [.act .start, .act (.fill (.read acceptedRequest)), .act (.fill .reply), .act .proceed,
    .act .proceed, .act .proceed, .act (.drain .take),
    .act (.drain (.write (acceptReply "k" none).length))]

/-- The same request under a limit that it exceeds.  It is answered, there is no package behind the
reply, and decoding fails.  A channel sends the reply, and closes for a protocol error. -/
theorem decode_keptBack :
    (((fresh {} 40).extend acceptedRequest).decode).1 = [.reply (acceptReply "k" none)] ∧
      (((fresh {} 40).extend acceptedRequest).decode).2.1 =
        .failed (.protocol (.packageTooLong acceptedRequest.length 40)) ∧
      ((Channel.assemble (Decoder.of {}) { maxPackageLength := 40 } none).toOption.bind
          (·.moves refusedUpgrade)).map (fun result => (writtenOf result.1, result.2.fill)) =
        some (acceptReply "k" none, .ended (some .protocolError)) := by
  decide +kernel

end FramedChannel.WebSocket
