import Mathlib.Data.List.Forall2
import FramedChannel.Proofs.Channel.Accepted
import FramedChannel.Proofs.Session.Forward

/-!
# What a session sends

A session sends nothing, or the refusal of a request, or the reply that belongs
to an upgrade and messages behind it, of which a close message is the last but
for pongs.

* `Session.Action.isPolite` are the actions of an application that leaves the
  bytes and the close messages to the session.
* `Posted` is the invariant of the sends that the channel let in, from their
  state checks on, and `posted_of_turns` says that every session keeps it.
* `Outbound` is what a session may put in the queue of its channel, and
  `chunks_of_posts` says how the messages in it come from those that were let in.
* `steps_outbound` is the result.
-/

namespace FramedChannel.WebSocket

/-- An application sends nothing past the session, and closes it by the calls for that. -/
def Session.Action.isPolite : Session.Action → Prop
  | .sendRaw .. => False
  | .send _ message => message.op ≠ .close
  | _ => True

variable {asked : Session.Action → Prop} {c after : Core} {move : Option Move} {moves : List Move}
  {events more : List SessionEvent}

/-! ## The sends that are let in -/

/-- The send of a reply by the fill loop. -/
def replying (reply : Bytes) : Send :=
  ⟨.reply, .chunk reply⟩

/-- The sends that the channel lets in: the replies of the fill loop, and then the messages of the
session. -/
structure Posted (c : Core) (admitted : List Send) (replies : List Bytes)
    (said : List (Nat × Message)) : Prop where
  unheard : c.version = none → said = [] ∧ admitted = replies.map replying
  posts : ∀ version, c.version = some version →
    admitted = replies.map replying ++ said.map fun post => c.sending post.1 version post.2
  order : (said.map Prod.snd).Pairwise fun earlier later => earlier.op = .close → later.op = .pong
  closing : ∀ post ∈ said, post.2.op = .close → c.stored ≠ .opened

section Posted

variable {admitted : List Send} {replies : List Bytes} {said : List (Nat × Message)}

/-- A core with the same version goes on with what was posted. -/
theorem Posted.of_same (h : Posted c admitted replies said) (hoptions : after.options = c.options)
    (hversion : after.version = c.version) (hstored : after.stored = .opened → c.stored = .opened) :
    Posted after admitted replies said := by
  refine ⟨?_, ?_, h.order, fun post hmem hclose hopened =>
    h.closing post hmem hclose (hstored hopened)⟩
  · rw [hversion]
    exact h.unheard
  · intro version hsome
    rw [h.posts version (hversion.symm.trans hsome)]
    simp only [Core.sending, hoptions]

/-- A reply is let in, as long as no version is known. -/
theorem Posted.reply (h : Posted c admitted replies said) (hnone : c.version = none)
    (reply : Bytes) :
    Posted c (admitted ++ [replying reply]) (replies ++ [reply]) said := by
  obtain ⟨hsaid, hadmitted⟩ := h.unheard hnone
  refine ⟨fun _ => ⟨hsaid, ?_⟩, ?_, h.order, h.closing⟩
  · rw [hadmitted, List.map_append]
    rfl
  · intro version hsome
    cases hnone.symm.trans hsome

/-- A message is posted behind the others. -/
theorem Posted.post (h : Posted c admitted replies said) {version : Version}
    (hversion : c.version = some version) {call : Nat} {message : Message}
    (hoptions : after.options = c.options) (hsame : after.version = c.version)
    (hstored : after.stored = .opened → c.stored = .opened ∧ message.op ≠ .close)
    (hallowed : message.op = .pong ∨ c.stored = .opened) :
    Posted after (admitted ++ [c.sending call version message]) replies
      (said ++ [(call, message)]) := by
  refine ⟨?_, ?_, ?_, ?_⟩
  · rw [hsame, hversion]
    intro habsurd
    cases habsurd
  · intro version' hsome
    cases hversion.symm.trans (hsame.symm.trans hsome)
    rw [h.posts version hversion]
    simp [Core.sending, hoptions]
  · rw [List.map_append, List.pairwise_append]
    refine ⟨h.order, List.pairwise_singleton _ _, ?_⟩
    intro earlier hearlier later hlater hclose
    obtain ⟨post, hmem, rfl⟩ := List.mem_map.1 hearlier
    obtain rfl := List.mem_singleton.1 hlater
    rcases hallowed with hpong | hopened
    · exact hpong
    · exact absurd hopened (h.closing post hmem hclose)
  · intro post hmem hclose hopened
    obtain ⟨hopened', hother⟩ := hstored hopened
    rcases List.mem_append.1 hmem with hmem | hmem
    · exact h.closing post hmem hclose hopened'
    · obtain rfl := List.mem_singleton.1 hmem
      exact hother hclose

/-- The replies are those of the fill loop. -/
theorem Posted.reply? (h : Posted c admitted replies said) :
    admitted.filterMap Send.reply? = replies := by
  have hreplies : (replies.map replying).filterMap Send.reply? = replies := by
    rw [List.filterMap_map]
    exact List.filterMap_some
  cases hversion : c.version with
  | none => rw [(h.unheard hversion).2, hreplies]
  | some version =>
    rw [h.posts version hversion, List.filterMap_append, hreplies]
    simp [Send.reply?, Core.sending]

/-- Beside the calls of the application, only replies are let in. -/
theorem letsIn_aside {channel : Channel Decoder Package} {move : Move}
    (haside : asideMove move = true) :
    channel.letsIn move = [] ∨ ∃ bytes, channel.letsIn move = [replying bytes] := by
  unfold Channel.letsIn Channel.admits
  split
  · split
    · cases haside
    · split
      · split
        · exact .inl rfl
        · exact .inr ⟨_, rfl⟩
      · exact .inl rfl
    · exact .inl rfl
  · exact .inl rfl

theorem mem_letsIn_aside {channel : Channel Decoder Package} {move : Move}
    (haside : asideMove move = true) {send : Send} (hmem : send ∈ channel.letsIn move) :
    ∃ bytes, send = replying bytes := by
  rcases letsIn_aside haside with hnone | ⟨bytes, hone⟩
  · rw [hnone] at hmem
    cases hmem
  · rw [hone] at hmem
    exact ⟨bytes, List.mem_singleton.1 hmem⟩

/-- The sends that a turn lets in. -/
def letIn (c : Core) (move : Option Move) : List Send :=
  move.toList.flatMap c.channel.letsIn

theorem letIn_some (c : Core) (move : Move) : letIn c (some move) = c.channel.letsIn move :=
  List.append_nil _

theorem letIn_send (c : Core) (send : Send) :
    letIn c (some (.act (.send send))) = [] ∨ letIn c (some (.act (.send send))) = [send] := by
  have hsend : letIn c (some (.act (.send send))) = if c.channel.isClosing then [] else [send] :=
    List.append_nil _
  rw [hsend]
  split
  · exact .inl rfl
  · exact .inr rfl

/-- A turn that sends something lets nothing else in. -/
theorem mem_letIn_send {send other : Send} (hmem : other ∈ letIn c (some (.act (.send send)))) :
    other = send := by
  rcases letIn_send c send with hnone | hone
  · rw [hnone] at hmem
    cases hmem
  · rw [hone] at hmem
    exact List.mem_singleton.1 hmem

/-- Every turn of a session keeps the order of what is sent. -/
theorem Posted.turn (h : Posted c admitted replies said)
    (hturn : Turn Session.Action.isPolite c move more after)
    (hfirst : ∀ info, .handshake info ∈ receivedOf (channelEvents more) → c.version = none)
    (hreply : ∀ reply, replying reply ∈ letIn c move → c.version = none) :
    ∃ replies said, Posted after (admitted ++ letIn c move) replies said := by
  have hnothing : ∀ {after : Core}, letIn c move = [] → after.options = c.options →
      after.version = c.version → (after.stored = .opened → c.stored = .opened) →
      ∃ replies said, Posted after (admitted ++ letIn c move) replies said := by
    intro after hnone hoptions hversion hstored
    rw [hnone, List.append_nil]
    exact ⟨replies, said, h.of_same hoptions hversion hstored⟩
  cases hturn with
  | returns | asks | waits | pongs | answers => exact hnothing rfl rfl rfl id
  | @aside move _ channel haside hmove =>
    rcases letsIn_aside haside with hnone | ⟨bytes, hone⟩
    · exact hnothing ((letIn_some c move).trans hnone) rfl rfl id
    · rw [letIn_some, hone] at hreply ⊢
      exact ⟨_, said, (h.reply (hreply bytes List.mem_cons_self) bytes).of_same rfl rfl id⟩
  | starts =>
    refine hnothing rfl rfl rfl ?_
    dsimp only
    split
    · intro habsurd
      cases habsurd
    · exact id
  | @meets call package channel hmove =>
    rw [Core.channelEvents_received] at hfirst
    rcases package with _ | info | request | message
    · exact hnothing rfl rfl rfl id
    · -- Behind the upgrade nothing has been said yet.
      obtain ⟨rfl, hadmitted⟩ := h.unheard (hfirst info List.mem_cons_self)
      refine ⟨replies, [], ?_, ?_, .nil, ?_⟩
      · intro habsurd
        cases habsurd
      · intro version _
        rw [hadmitted]
        rfl
      · intro post hmem
        cases hmem
    · exact hnothing rfl rfl rfl id
    · unfold Core.meet
      dsimp only
      split <;> exact hnothing rfl rfl rfl id
  | @posts call version message _ channel hallowed hversion hmove =>
    rcases letIn_send c (c.sending call version message) with hnone | hone
    · exact hnothing hnone rfl rfl id
    · rw [hone]
      refine ⟨replies, _, h.post hversion rfl rfl ?_ ?_⟩
      · intro hopened
        refine ⟨hopened, ?_⟩
        rcases hallowed with ⟨hpolite, _⟩ | ⟨hpong, _⟩
        · exact hpolite
        · rw [hpong]
          exact OpCode.noConfusion
      · rcases hallowed with ⟨_, hopened⟩ | ⟨hpong, _⟩
        · exact .inr hopened
        · exact .inl hpong
  | @closes call version message stored _ channel hopened _ _ hstored hversion hmove =>
    have hclosed : stored ≠ .opened := by
      rcases hstored with rfl | rfl <;> exact SessionState.noConfusion
    rcases letIn_send c (c.sending call version message) with hnone | hone
    · exact hnothing hnone rfl rfl fun habsurd => absurd habsurd hclosed
    · rw [hone]
      exact ⟨replies, _, h.post hversion rfl rfl (fun habsurd => absurd habsurd hclosed)
        (.inr hopened)⟩
  | bypasses hasked => exact hasked.elim

end Posted

/-! ## Replies -/

section Sessions

variable {pipeline options : WebSocketOptions} {connection : ConnectionOptions}
  {remote : Option Socket} {channel : Channel Decoder Package}
  (hassemble : Channel.assemble (Decoder.of pipeline) connection remote = .ok channel)

/-- The sends behind one turn more. -/
theorem admitted_turn (hturns : Turns asked (Session.of channel options).core moves events c)
    (hturn : Turn asked c move more after) :
    channel.admitted (moves ++ move.toList) = channel.admitted moves ++ letIn c move := by
  cases move with
  | none =>
    rw [Option.toList_none, List.append_nil]
    exact (List.append_nil _).symm
  | some move =>
    have hmoves : channel.moves moves = some (channelEvents events, c.channel) := hturns.channel
    rw [Option.toList_some,
      Channel.admitted_concat hmoves (Channel.moves_singleton hturn.channel)]
    exact congrArg _ (List.append_nil _).symm

include hassemble

theorem replies_of_turns
    (hturns : Turns asked (Session.of channel options).core moves events c) :
    (channel.admitted moves).filterMap Send.reply? = [] ∨
      ∃ package reply, AnsweredBy package reply ∧
        (channel.admitted moves).filterMap Send.reply? = [reply] := by
  obtain ⟨handed, hhanding, htalk⟩ := handing_of_turns hassemble hturns
  rw [hhanding.replies]
  exact htalk.replies

/-- When the version is known, the reply of its upgrade was sent. -/
theorem replied_of_version
    (hturns : Turns asked (Session.of channel options).core moves events c) {version : Version}
    (hversion : c.version = some version) :
    ∃ info reply, info.version = version ∧ AnsweredBy (.handshake info) reply ∧
      (channel.admitted moves).filterMap Send.reply? = [reply] ∧
        Replied (channelEvents events) := by
  obtain ⟨handed, hhanding, htalk⟩ := handing_of_turns hassemble hturns
  have hknown := (story_of_turns hassemble hturns).version
  have hheard := heard_of_turns hassemble hturns
  have hreceived := (List.prefix_append ..).trans hhanding.received
  rw [hhanding.replies]
  rw [hversion] at hknown
  generalize receivedOf (channelEvents events) = received at hknown hheard hreceived
  cases hheard with
  | nothing => cases hknown
  | refused request => cases hknown
  | @upgraded info _ messages =>
    rw [version_upgraded] at hknown
    cases htalk with
    | nothing | keptBack => cases List.prefix_nil.1 hreceived
    | refused request => cases (List.cons_prefix_cons.1 hreceived).1
    | @upgraded _ reply _ hanswers begun =>
      cases (List.cons_prefix_cons.1 hreceived).1
      have hreplies : Reassembly.repliesOf (.reply reply :: .package (.handshake info) ::
          spoken begun) = [reply] := congrArg (reply :: ·) (repliesOf_spoken begun)
      have hfront : .reply reply :: .package (.handshake info) :: spoken begun =
          [.reply reply] ++ .package (.handshake info) :: spoken begun := rfl
      refine ⟨info, reply, (Option.some.inj hknown).symm, hanswers, hreplies, ?_⟩
      exact hhanding.answered hfront (List.cons_ne_nil _ _)

/-- Once the version is known, no other reply is let in. -/
theorem version_eq_none_of_reply
    (hturns : Turns asked (Session.of channel options).core moves events c)
    (hturn : Turn asked c move more after) {reply : Bytes}
    (hmem : replying reply ∈ letIn c move) : c.version = none := by
  by_contra hsome
  obtain ⟨version, hversion⟩ := Option.ne_none_iff_exists'.1 hsome
  obtain ⟨_, _, _, _, hone, _⟩ := replied_of_version hassemble hturns hversion
  have hreply : reply ∈ (letIn c move).filterMap Send.reply? := List.mem_filterMap.2 ⟨_, hmem, rfl⟩
  have hboth := replies_of_turns hassemble (hturns.tail hturn)
  rw [admitted_turn hturns hturn, List.filterMap_append, hone] at hboth
  obtain hnone | ⟨_, _, _, htwo⟩ := hboth
  · cases hnone
  · rw [show (letIn c move).filterMap Send.reply? = [] from (List.cons.inj htwo).2] at hreply
    cases hreply

/-- What a session sends is in order, as far as the channel let it in. -/
theorem posted_of_turns
    (hturns : Turns Session.Action.isPolite (Session.of channel options).core moves events c) :
    ∃ replies said, Posted c (channel.admitted moves) replies said := by
  generalize hfirst : (Session.of channel options).core = first at hturns
  induction hturns with
  | refl =>
    subst hfirst
    refine ⟨[], [], fun _ => ⟨rfl, rfl⟩, ?_, .nil, ?_⟩
    · intro version hversion
      cases hversion
    · intro post hmem
      cases hmem
  | tail hbegun hturn ih =>
    subst hfirst
    obtain ⟨replies, said, h⟩ := ih
    rw [admitted_turn hbegun hturn]
    exact h.turn hturn (fun _ => version_eq_none hassemble hbegun hturn)
      fun _ => version_eq_none_of_reply hassemble hbegun hturn

omit hassemble

theorem Turn.isGiveUp_eq_false (h : Turn asked c move events after) {step : Move}
    (hmem : step ∈ move) : step.isGiveUp = false := by
  cases h with
  | aside haside =>
    cases hmem
    cases step with
    | act => rfl
    | giveUp => cases haside
  | returns | asks | pongs => cases hmem
  | _ =>
    cases hmem
    rfl

/-- A session drops no call. -/
theorem Turns.countP_isGiveUp (h : Turns asked c moves events after) :
    moves.countP Move.isGiveUp = 0 := by
  induction h with
  | refl => rfl
  | tail _ hturn ih =>
    rw [List.countP_append, ih, List.countP_eq_zero.2]
    intro step hmem
    rw [hturn.isGiveUp_eq_false (Option.mem_toList.1 hmem)]
    exact Bool.false_ne_true

include hassemble

/-- The sends that got the lock and those that wait for it are all that were let in, in order.  What
is in the queue, and what returned well, is theirs. -/
theorem balanced_of_turns
    (hturns : Turns asked (Session.of channel options).core moves events c) :
    ∃ ledger : Ledger,
      ledger.sends <+: channel.admitted moves ∧
        (∀ account ∈ ledger.accounts, account.Exact) ∧
        queuedOf (channelEvents events) = ledger.queued ∧
        ∀ sender before, (sender, .done before) ∈ returnsOf (channelEvents events) →
          ∃ account ∈ ledger.accounts, account.send.sender = sender ∧
            account.sent = some (.done before) := by
  have h := (balanced_of_assemble hassemble).moves hturns.channel
  rw [List.nil_append, List.nil_append, Nat.zero_add, hturns.countP_isGiveUp] at h
  refine ⟨_, ⟨c.channel.outbox.waiting, h.order.eq_of_length_le h.count⟩, h.kept.exact, h.queued, ?_⟩
  intro sender before hmem
  have hreturned : (sender, Sent.done before) ∈
      (returnsOf (channelEvents events)).filter (!turnedAway ·) :=
    List.mem_filter.2 ⟨hmem, rfl⟩
  rw [h.returns] at hreturned
  obtain ⟨account, haccount, hsome⟩ := List.mem_filterMap.1 (List.mem_filter.1 hreturned).1
  obtain ⟨sent, hsent, heq⟩ := Option.map_eq_some_iff.1 hsome
  obtain ⟨hsender, rfl⟩ := Prod.mk.inj heq
  exact ⟨account, haccount, hsender, hsent⟩

end Sessions

/-! ## The chunks -/

/-- A send has put nothing in the queue, or all that it carried. -/
theorem queued_of_exact {account : Account} (hexact : account.Exact) :
    account.queued = [] ∨
      account.send.load.fault = none ∧ account.queued = account.send.load.chunks := by
  unfold Account.Exact at hexact
  split at hexact
  · exact .inr hexact.2
  · exact .inl hexact

/-- What is in the queue of a message that was to be encoded is its encoding. -/
theorem chunks_encoded {encoded : Except Error Bytes}
    (hfault : (Load.encoded encoded).fault = none) :
    (Load.encoded encoded).chunks = [] ∨
      ∃ chunk, (Load.encoded encoded).chunks = [chunk] ∧ encoded = .ok chunk := by
  cases encoded with
  | error fault => cases hfault
  | ok chunk =>
    by_cases hempty : chunk.isEmpty
    · exact .inl (if_pos hempty)
    · exact .inr ⟨chunk, if_neg hempty, rfl⟩

/-- The accounts of messages put chunks in the queue that are encoded messages, in order. -/
theorem chunks_of_posts (c : Core) (version : Version) {accounts : List Account} :
    ∀ {said : List (Nat × Message)},
      accounts.map Account.send <+: said.map (fun post => c.sending post.1 version post.2) →
      (∀ account ∈ accounts, account.Exact) →
      ∃ messages, messages.Sublist (said.map Prod.snd) ∧
        List.Forall₂
          (fun message chunk => encodeFor version c.options.maxFramePayload message = .ok chunk)
          messages (accounts.flatMap Account.queued) := by
  induction accounts with
  | nil => exact fun _ _ => ⟨[], List.nil_sublist _, .nil⟩
  | cons account rest ih =>
    intro said hsends hexact
    cases said with
    | nil => cases List.prefix_nil.1 hsends
    | cons post said =>
      obtain ⟨hsend, hrest⟩ := List.cons_prefix_cons.1 hsends
      obtain ⟨messages, hsub, hall⟩ :=
        ih hrest fun other hmem => hexact other (List.mem_cons_of_mem _ hmem)
      have hskipped : account.queued = [] ∨ ∃ chunk, account.queued = [chunk] ∧
          encodeFor version c.options.maxFramePayload post.2 = .ok chunk := by
        rcases queued_of_exact (hexact account List.mem_cons_self) with hnone | ⟨hfault, hqueued⟩
        · exact .inl hnone
        · rw [hsend] at hfault hqueued
          rw [hqueued]
          exact chunks_encoded hfault
      rw [List.flatMap_cons, List.map_cons]
      rcases hskipped with hnone | ⟨chunk, hone, hencoded⟩
      · rw [hnone]
        exact ⟨messages, hsub.cons _, hall⟩
      · rw [hone]
        exact ⟨post.2 :: messages, hsub.cons_cons _, .cons hencoded hall⟩

/-- The options of a session stay as they are. -/
theorem Turns.options (h : Turns asked c moves events after) : after.options = c.options := by
  induction h with
  | refl => rfl
  | tail _ hturn ih =>
    rw [← ih]
    cases hturn with
    | meets =>
      unfold Core.meet
      repeat' split
      all_goals rfl
    | _ => rfl

/-- The chunks that a session puts in the queue of its channel, with the longest payload of its
frames and the version that it knows. -/
inductive Outbound (maxPayload : Nat) (version : Option Version) : List Bytes → Prop where
  | nothing : Outbound maxPayload version []
  | refused : Outbound maxPayload version [rejectReply]
  /-- Each chunk behind the reply is one message, and behind a close message there are pongs. -/
  | upgraded {info : HandshakeInfo} {reply : Bytes} {messages : List Message} {chunks : List Bytes}
      (hanswers : AnsweredBy (.handshake info) reply)
      (hversion : messages ≠ [] → version = some info.version)
      (hchunks : List.Forall₂
        (fun message chunk => encodeFor info.version maxPayload message = .ok chunk)
        messages chunks)
      (horder : messages.Pairwise fun earlier later => earlier.op = .close → later.op = .pong) :
      Outbound maxPayload version (reply :: chunks)

/-- The only account of a reply that was sent is the first one, and put the reply in the queue. -/
theorem queued_of_reply {first : Account} {rest : List Account} {reply : Bytes} {before : Nat}
    (hexact : first.Exact) (hfirst : first.send = replying reply)
    (hrest : ∀ account ∈ rest, account.send.sender ≠ .reply)
    (hreplied : ∃ account ∈ first :: rest, account.send.sender = .reply ∧
      account.sent = some (.done before)) : first.queued = [reply] := by
  obtain ⟨account, hmem, hsender, hsent⟩ := hreplied
  rcases List.mem_cons.1 hmem with rfl | hmem
  · unfold Account.Exact at hexact
    rw [hsent, hfirst] at hexact
    exact hexact.2.2
  · exact absurd hsender (hrest account hmem)

section Sessions

variable {pipeline options : WebSocketOptions} {connection : ConnectionOptions}
  {remote : Option Socket} {channel : Channel Decoder Package}

/-- While the version is not known, a session sends nothing but one reply. -/
theorem outbound_of_unheard {maxPayload : Nat} {accounts : List Account} {replies : List Bytes}
    (hsends : accounts.map Account.send <+: replies.map replying)
    (hexact : ∀ account ∈ accounts, account.Exact)
    (hreplies : replies = [] ∨ ∃ package reply, AnsweredBy package reply ∧ replies = [reply]) :
    Outbound maxPayload none (accounts.flatMap Account.queued) := by
  cases accounts with
  | nil => exact .nothing
  | cons first rest =>
    rcases hreplies with rfl | ⟨package, reply, hanswers, rfl⟩
    · cases List.prefix_nil.1 hsends
    · obtain ⟨hfirst, hrest⟩ := List.cons_prefix_cons.1 hsends
      obtain rfl := List.map_eq_nil_iff.1 (List.prefix_nil.1 hrest)
      rw [List.flatMap_cons, List.flatMap_nil, List.append_nil]
      rcases queued_of_exact (hexact first List.mem_cons_self) with hnone | ⟨-, hone⟩
      · rw [hnone]
        exact .nothing
      · rw [hone, hfirst]
        cases hanswers with
        | refused => exact .refused
        | accepted hkey => exact .upgraded (.accepted hkey) (absurd rfl) .nil .nil
        | challenged hanswer => exact .upgraded (.challenged hanswer) (absurd rfl) .nil .nil

theorem outbound_of_turns
    (hassemble : Channel.assemble (Decoder.of pipeline) connection remote = .ok channel)
    (hturns : Turns Session.Action.isPolite (Session.of channel options).core moves events c) :
    Outbound options.maxFramePayload c.version
      ((queuedOf (channelEvents events)).map Prod.snd) := by
  obtain ⟨replies, said, hposted⟩ := posted_of_turns hassemble hturns
  obtain ⟨ledger, hsends, hexact, hqueued, hreturned⟩ := balanced_of_turns hassemble hturns
  rw [hqueued, Ledger.map_snd_queued, Ledger.chunks]
  rw [Ledger.sends] at hsends
  generalize ledger.accounts = accounts at hsends hexact hreturned ⊢
  cases hversion : c.version with
  | none =>
    have hone := replies_of_turns hassemble hturns
    rw [hposted.reply?] at hone
    rw [(hposted.unheard hversion).2] at hsends
    exact outbound_of_unheard hsends hexact hone
  | some version =>
    obtain ⟨info, reply, rfl, hanswers, hone, hdone⟩ := replied_of_version hassemble hturns hversion
    rw [hposted.reply?] at hone
    subst hone
    rw [hposted.posts _ hversion] at hsends
    obtain ⟨before, hdone⟩ := hdone
    have hreplied := hreturned _ before hdone
    cases accounts with
    | nil =>
      obtain ⟨account, hmem, _⟩ := hreplied
      cases hmem
    | cons first rest =>
      obtain ⟨hfirst, hrest⟩ := List.cons_prefix_cons.1 hsends
      obtain ⟨hanswer, hothers⟩ := List.forall_mem_cons.1 hexact
      obtain ⟨messages, hsub, hall⟩ := chunks_of_posts c info.version hrest hothers
      have hcalls : ∀ account ∈ rest, account.send.sender ≠ .reply := by
        intro account hmem
        obtain ⟨post, _, hsend⟩ := List.mem_map.1 (hrest.subset (List.mem_map_of_mem hmem))
        rw [← hsend]
        exact Sender.noConfusion
      rw [List.flatMap_cons, queued_of_reply hanswer hfirst hcalls hreplied]
      rw [hturns.options] at hall
      exact .upgraded hanswers (fun _ => rfl) hall (hposted.order.sublist hsub)

/-- Whatever a session goes through, if the application leaves the bytes and the close messages to
it: it puts nothing in the queue of its channel, or the refusal of a request alone, or the reply of
an upgrade and whole messages in the encoding of its version behind it, and behind the close message
nothing but pongs. -/
theorem steps_outbound {actions : List Session.Action} {s : Session}
    (hassemble : Channel.assemble (Decoder.of pipeline) connection remote = .ok channel)
    (hpolite : ∀ action ∈ actions, action.isPolite)
    (hsteps : (Session.of channel options).steps actions = some (events, s)) :
    Outbound options.maxFramePayload s.version
      ((queuedOf (channelEvents events)).map Prod.snd) := by
  have hreaches : Reaches Session.Action.isPolite _ _ :=
    Session.steps_reaches (Session.sane_of_assemble hassemble) hpolite hsteps
  obtain ⟨moves, hturns⟩ := hreaches
  exact outbound_of_turns hassemble hturns

end Sessions

/-- An application sends a message on the upgraded session, and closes it. -/
def talking : List Session.Action :=
  upgrading ++ [.send 1 ⟨.text, [104, 105]⟩, .channel .proceed, .channel .proceed,
    .channel .proceed, .closeHandshake 1 1000 "", .channel .proceed, .channel .proceed,
    .channel .proceed]

/-- This session sends the reply, the message and a close message. -/
theorem steps_outbound_talking :
    ∃ (events : List SessionEvent) (s : Session) (reply : Bytes),
      freshSession.steps talking = some (events, s) ∧
        (queuedOf (channelEvents events)).map Prod.snd =
          [reply, [129, 2, 104, 105], [136, 2, 3, 232]] ∧
        Outbound 0 (some .rfc6455) [reply, [129, 2, 104, 105], [136, 2, 3, 232]] := by
  have hrun : (freshSession.steps talking).map (fun run =>
        (((queuedOf (channelEvents run.1)).map Prod.snd).drop 1, run.2.version)) =
      some ([[129, 2, 104, 105], [136, 2, 3, 232]], some .rfc6455) := by
    decide +kernel
  obtain ⟨⟨events, s⟩, hsteps, hsame⟩ := Option.map_eq_some_iff.1 hrun
  obtain ⟨hchunks, hversion⟩ := Prod.mk.inj hsame
  have hpolite : ∀ action ∈ talking, action.isPolite := by
    simp [talking, upgrading, Session.Action.isPolite]
  have hassemble : Channel.assemble (Decoder.of {}) {} none = .ok freshSession.channel := rfl
  have hfresh : (Session.of freshSession.channel {}).steps talking = some (events, s) := hsteps
  have houtbound := steps_outbound hassemble hpolite hfresh
  rw [hversion] at houtbound
  cases hall : (queuedOf (channelEvents events)).map Prod.snd with
  | nil =>
    rw [hall] at hchunks
    cases hchunks
  | cons reply chunks =>
    rw [hall] at hchunks houtbound
    obtain rfl : chunks = _ := hchunks
    exact ⟨events, s, reply, hsteps, hall, houtbound⟩

end FramedChannel.WebSocket
