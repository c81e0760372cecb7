import FramedChannel.Proofs.Channel.Handing
import FramedChannel.Proofs.Session.StepsAreTurns
import FramedChannel.Proofs.WebSocket.Dialogue

/-!
# What the event stream of a session hands on

The event stream hands on what the channel gave it, but for close messages, and
the channel gives it what the pipeline decoded.

* `Story` is the invariant of the turns of a session: what was handed on, the
  ping that is being answered and the version, from the packages received.
* `Heard` are the packages that a connection can come to, and `heard_of_turns`
  says that the event stream receives nothing else.
* `told_of_turns` puts both together.
-/

namespace FramedChannel.WebSocket

/-! ## Packages and what is made of them -/

/-- What the event stream hands on for a package. -/
def Package.notice? : Package → Option Notice
  | .handshake info => some (.opened info)
  | .rejected request => some (.rejected request)
  | .message said => if said.op = .close then none else some (.message said)

/-- The version that a package settles. -/
def Package.version? : Package → Option Version
  | .handshake info => some info.version
  | _ => none

/-- The ping that is handed on once it is answered. -/
def Reader.inHand : Reader → List Notice
  | .ponging _ ping => [.message ping]
  | _ => []

namespace Core

variable (c : Core) (call : Nat) (package : Option Package)

theorem notices_meet :
    noticesOf (c.meet call package).1 ++ (c.meet call package).2.reader.inHand =
      package.toList.filterMap Package.notice? := by
  rcases package with _ | info | request | message
  · rfl
  · rfl
  · rfl
  · cases hop : message.op with
    | close =>
      simp only [meet, hop]
      split <;> simp [noticesOf, Reader.inHand, Package.notice?, hop]
    | _ => simp [meet, hop, noticesOf, SessionEvent.notice?, Reader.inHand, Package.notice?]

theorem version_meet :
    (c.meet call package).2.version = (package.bind Package.version?).or c.version := by
  rcases package with _ | info | request | message
  · rfl
  · rfl
  · rfl
  · cases hop : message.op <;> simp [meet, hop, Package.version?]

end Core

/-! ## The invariant -/

/-- What a session made of the packages that its event stream received. -/
structure Story (c : Core) (events : List SessionEvent) : Prop where
  sane : c.Sane
  notices : noticesOf events ++ c.reader.inHand =
    (receivedOf (channelEvents events)).filterMap Package.notice?
  version : c.version = ((receivedOf (channelEvents events)).filterMap Package.version?).getLast?

variable {asked : Session.Action → Prop} {c after : Core} {move : Option Move} {moves : List Move}
  {events more : List SessionEvent}

/-- A turn without a package changes nothing of the kind. -/
theorem Story.of_same (h : Story c events) (hsane : after.Sane)
    (hnotices : noticesOf more ++ after.reader.inHand = c.reader.inHand)
    (hreceived : takenOf (channelEvents more) = []) (hversion : after.version = c.version) :
    Story after (events ++ more) := by
  have hsame : receivedOf (channelEvents (events ++ more)) = receivedOf (channelEvents events) := by
    rw [channelEvents_append, receivedOf_append, receivedOf_eq_nil hreceived, List.append_nil]
  refine ⟨hsane, ?_, ?_⟩
  · rw [hsame, ← h.notices, noticesOf_append, List.append_assoc, hnotices]
  · rw [hsame, ← h.version, hversion]

theorem Turn.story (h : Story c events) (hturn : Turn asked c move more after) :
    Story after (events ++ more) := by
  have hsane := hturn.sane h.sane
  cases hturn with
  | returns | asks => exact h.of_same hsane rfl rfl rfl
  | aside haside hmove =>
    refine h.of_same hsane ?_ ?_ rfl
    · rw [noticesOf_map]
      rfl
    · rw [channelEvents_map]
      exact (aside_move haside hmove).1
  | posts _ _ hmove | closes _ _ _ _ _ hmove | bypasses _ hmove =>
    refine h.of_same hsane ?_ ?_ rfl
    · rw [noticesOf_map]
      rfl
    · rw [channelEvents_map]
      exact (send_aside hmove).1
  | starts => exact h.of_same hsane rfl rfl rfl
  | waits hidle => exact h.of_same hsane (by rw [hidle]; rfl) rfl rfl
  | pongs hreader => exact h.of_same hsane (by rw [hreader]; rfl) rfl rfl
  | answers hreader hmove =>
    refine h.of_same hsane ?_ ?_ rfl
    · rw [noticesOf_map, hreader]
      rfl
    · rw [channelEvents_map]
      exact (aside_move rfl hmove).1
  | @meets call package channel hmove =>
    have hnothing : c.reader.inHand = [] := by
      rw [(h.sane.waiting hmove).1]
      rfl
    have hreceived : receivedOf (channelEvents (events ++ .channel (.received call package) ::
        ({ c with channel }.meet call package).1)) =
        receivedOf (channelEvents events) ++ package.toList := by
      rw [channelEvents_append, receivedOf_append, Core.channelEvents_received]
      cases package <;> rfl
    refine ⟨hsane, ?_, ?_⟩
    · have hnotices := h.notices
      rw [hnothing, List.append_nil] at hnotices
      rw [hreceived, List.filterMap_append, ← hnotices,
        ← Core.notices_meet { c with channel } call, ← List.append_assoc]
      exact congrArg (· ++ _) (noticesOf_append ..)
    · rw [hreceived, Core.version_meet, List.filterMap_append, List.getLast?_append, ← h.version]
      rcases package with _ | package
      · rfl
      · cases hversion : package.version? <;> simp [hversion]

theorem Turns.story {before : List SessionEvent} (h : Story c before)
    (hturns : Turns asked c moves events after) : Story after (before ++ events) := by
  induction hturns with
  | refl =>
    rw [List.append_nil]
    exact h
  | tail _ hturn ih =>
    rw [← List.append_assoc]
    exact hturn.story ih

/-! ## What a connection can come to -/

/-- The packages of a connection whose context has the given version. -/
inductive Heard (version : Option Version) : List Package → Prop where
  | nothing : Heard version []
  | refused (request : Request) : Heard version [.rejected request]
  | upgraded {info : HandshakeInfo} (hversion : version = some info.version)
      (messages : List Message) : Heard version (.handshake info :: messages.map .message)

theorem notices_messages (messages : List Message) :
    (messages.map Package.message).filterMap Package.notice? =
      (messages.filter (·.op ≠ .close)).map .message := by
  induction messages with
  | nil => rfl
  | cons message rest ih =>
    by_cases hclose : message.op = .close <;> simp [Package.notice?, hclose, ih]

theorem versions_messages (messages : List Message) :
    (messages.map Package.message).filterMap Package.version? = [] := by
  induction messages with
  | nil => rfl
  | cons message rest ih => exact ih

/-- The version of an upgrade stays the version, whatever messages come behind it. -/
theorem version_upgraded (info : HandshakeInfo) (messages : List Message) :
    ((.handshake info :: messages.map .message).filterMap Package.version?).getLast? =
      some info.version :=
  congrArg (fun versions => (info.version :: versions).getLast?) (versions_messages messages)

section Heard

variable {version : Option Version} {items : List (Item Package)} {packages first : List Package}

theorem Talk.heard (h : Talk version items) : Heard version (Reassembly.packagesOf items) := by
  cases h with
  | nothing => exact .nothing
  | keptBack => exact .nothing
  | refused request => exact .refused request
  | upgraded hversion _ messages =>
    have hpackages := packagesOf_spoken messages
    show Heard version (.handshake _ :: Reassembly.packagesOf (spoken messages))
    rw [hpackages]
    exact .upgraded hversion messages

theorem Heard.of_prefix (h : Heard version packages) (hfirst : first <+: packages) :
    Heard version first := by
  cases h with
  | nothing =>
    rw [List.prefix_nil.1 hfirst]
    exact .nothing
  | refused request =>
    rcases List.prefix_cons_iff.1 hfirst with rfl | ⟨rest, rfl, hrest⟩
    · exact .nothing
    · rw [List.prefix_nil.1 hrest]
      exact .refused request
  | upgraded hversion messages =>
    rcases List.prefix_cons_iff.1 hfirst with rfl | ⟨rest, rfl, ⟨others, hrest⟩⟩
    · exact .nothing
    · obtain ⟨begun, _, _, rfl, _⟩ := List.map_eq_append_iff.1 hrest.symm
      exact .upgraded hversion begun

/-- An upgrade comes before all other packages. -/
theorem Heard.eq_nil {rest : List Package} {info : HandshakeInfo}
    (h : Heard version (first ++ rest)) (hmem : .handshake info ∈ rest) : first = [] := by
  generalize hall : first ++ rest = heard at h
  cases first with
  | nil => rfl
  | cons package first =>
    have hlater : .handshake info ∈ first ++ rest := List.mem_append_right _ hmem
    cases h with
    | nothing => cases hall
    | refused request =>
      rw [show first ++ rest = [] from (List.cons.inj hall).2] at hlater
      cases hlater
    | upgraded _ messages =>
      rw [show first ++ rest = messages.map .message from (List.cons.inj hall).2] at hlater
      obtain ⟨_, _, habsurd⟩ := List.mem_map.1 hlater
      cases habsurd

end Heard

/-! ## Sessions from their beginning -/

/-- A session sends nothing in the name of the fill loop. -/
theorem Turn.reply?_eq_none (h : Turn asked c move events after) {send : Send}
    (hsend : move = some (.act (.send send))) : send.reply? = none := by
  cases h with
  | posts | closes | bypasses =>
    cases hsend
    rfl
  | aside haside =>
    cases hsend
    cases haside
  | _ => cases hsend

theorem Turns.reply?_eq_none (h : Turns asked c moves events after) {send : Send}
    (hsend : .act (.send send) ∈ moves) : send.reply? = none := by
  induction h with
  | refl => cases hsend
  | tail _ hturn ih =>
    rcases List.mem_append.1 hsend with hsend | hsend
    · exact ih hsend
    · exact hturn.reply?_eq_none (Option.mem_toList.1 hsend)

variable {pipeline options : WebSocketOptions} {connection : ConnectionOptions}
  {remote : Option Socket} {channel : Channel Decoder Package}
  (hassemble : Channel.assemble (Decoder.of pipeline) connection remote = .ok channel)
  (hturns : Turns asked (Session.of channel options).core moves events c)

include hassemble hturns

theorem story_of_turns : Story c events := by
  have hfirst : Story (Session.of channel options).core [] :=
    ⟨Session.sane_of_assemble hassemble, rfl, rfl⟩
  exact hturns.story hfirst

/-- What the fill loop of a session hands on is what its pipeline decodes. -/
theorem handing_of_turns :
    ∃ handed, Channel.Handing (Decoder.of pipeline) connection.maxPackageLength c.channel
        (readsOf moves) (channelEvents events)
        ((channel.admitted moves).filterMap Send.reply?) handed ∧
      Talk c.channel.reassembly.decoder.context.version handed := by
  obtain ⟨handed, hhanding⟩ := Channel.handing_of_moves Decoder.resumable
    (ready_fresh pipeline connection.maxPackageLength) hassemble
    (fun _ => hturns.reply?_eq_none) hturns.channel
  have htalk := talk_of_feed pipeline connection.maxPackageLength (readsOf moves)
  refine ⟨handed, hhanding, ?_⟩
  rw [← hhanding.fed]
  exact htalk.of_prefix ((List.prefix_append ..).trans hhanding.below)

theorem heard_of_turns :
    Heard c.channel.reassembly.decoder.context.version (receivedOf (channelEvents events)) := by
  obtain ⟨handed, hhanding, htalk⟩ := handing_of_turns hassemble hturns
  exact htalk.heard.of_prefix ((List.prefix_append ..).trans hhanding.received)

/-- An upgrade is only received when no version is known. -/
theorem version_eq_none (hturn : Turn asked c move more after) {info : HandshakeInfo}
    (hmem : .handshake info ∈ receivedOf (channelEvents more)) : c.version = none := by
  have hheard := heard_of_turns hassemble (hturns.tail hturn)
  rw [channelEvents_append, receivedOf_append] at hheard
  rw [(story_of_turns hassemble hturns).version, hheard.eq_nil hmem]
  rfl

omit hassemble hturns

/-- What a session told the application, with the version that it knows. -/
inductive Told (c : Core) : List Notice → Prop where
  | nothing (hversion : c.version = none) : Told c []
  | refused (hversion : c.version = none) (request : Request) : Told c [.rejected request]
  | upgraded {info : HandshakeInfo} (hversion : c.version = some info.version)
      (hcontext : c.channel.reassembly.decoder.context.version = some info.version)
      (messages : List Message) : Told c (.opened info :: messages.map .message)

include hassemble hturns

/-- Whatever the peer sends and the application does, a session tells of an upgrade or of a refusal
first, and of messages only behind an upgrade.  It knows a version as soon as it told of the
upgrade, and it is that of the pipeline. -/
theorem told_of_turns : Told c (noticesOf events) := by
  obtain ⟨_, hnotices, hversion⟩ := story_of_turns hassemble hturns
  have hheard := heard_of_turns hassemble hturns
  generalize receivedOf (channelEvents events) = received at hnotices hversion hheard
  generalize noticesOf events = notices at hnotices ⊢
  have hbelow := List.prefix_append notices c.reader.inHand
  rw [hnotices] at hbelow
  cases hheard with
  | nothing =>
    rw [List.prefix_nil.1 hbelow]
    exact .nothing hversion
  | refused request =>
    rcases List.prefix_cons_iff.1 hbelow with rfl | ⟨rest, rfl, hrest⟩
    · exact .nothing hversion
    · rw [List.prefix_nil.1 hrest]
      exact .refused hversion request
  | @upgraded info hcontext messages =>
    have hknown : c.version = some info.version := by
      rw [hversion, version_upgraded]
    have htold : (.handshake info :: messages.map .message).filterMap Package.notice? =
        .opened info :: (messages.filter (·.op ≠ .close)).map .message :=
      congrArg (Notice.opened info :: ·) (notices_messages messages)
    rw [htold] at hbelow hnotices
    rcases List.prefix_cons_iff.1 hbelow with rfl | ⟨rest, rfl, ⟨others, hrest⟩⟩
    · -- Only a ping is ever in hand.
      cases hreader : c.reader <;> rw [hreader] at hnotices <;> cases hnotices
    · obtain ⟨begun, _, _, rfl, _⟩ := List.map_eq_append_iff.1 hrest.symm
      exact .upgraded hknown hcontext begun

end FramedChannel.WebSocket
