import FramedChannel.Proofs.Channel.Accepted
import FramedChannel.Proofs.Channel.Delivery

/-!
# What the fill loop hands on

The fill loop hands on the items that it decoded, one behind the other: replies
to the outbox, and packages to the consumer.  This module follows them on a
channel with any decoder whose reads can be cut.

* `Send.reply?` are the replies among the sends.
* `Handing` is the invariant.  The items that were handed on are a prefix of
  what one reassembly decodes from all bytes read; the replies among them were
  let into the outbox, and the packages are those that the consumer got or can
  get.  A package is only handed on when the replies in front of it were sent.
* `handing_of_moves` says that every channel keeps it.
-/

namespace FramedChannel

open Reassembly

variable {σ π : Type} [PackageDecoder σ π]

/-- The bytes of a send that the fill loop makes. -/
def Send.reply? : Send → Option Bytes
  | ⟨.reply, .chunk bytes⟩ => some bytes
  | _ => none

/-- Whether the loop has settled its replies: none is on its way, and none was lost. -/
def Fill.isSettled : Fill π → Bool
  | reading | delivering .. => true
  | replying .. | ended _ => false

/-- A reply was sent. -/
def Replied (events : List (Event π)) : Prop :=
  ∃ before, (Sender.reply, Sent.done before) ∈ returnsOf events

omit [PackageDecoder σ π] in
theorem Replied.append {events : List (Event π)} (h : Replied events) (more : List (Event π)) :
    Replied (events ++ more) := by
  obtain ⟨before, hmem⟩ := h
  exact ⟨before, by rw [returnsOf_append]; exact List.mem_append_left _ hmem⟩

namespace Channel

variable {c after : Channel σ π} {events more : List (Event π)} {decoder : σ} {limit : Nat}
  {reads : List Bytes} {replies : List Bytes} {handed : List (Item π)}

/-! ## The invariant -/

/-- How far the items of a channel came, of which the fill loop handed on some. -/
structure Handing (decoder : σ) (limit : Nat) (c : Channel σ π) (reads : List Bytes)
    (events : List (Event π)) (replies : List Bytes) (handed : List (Item π)) : Prop where
  fed : ((Reassembly.of decoder limit).feed reads).2.2 = c.reassembly
  goesOn : c.fill.isOpen = true → ((Reassembly.of decoder limit).feed reads).2.1 = .waiting
  below : handed ++ c.fill.rest <+: ((Reassembly.of decoder limit).feed reads).1
  whole : c.fill.isOver = false →
    handed ++ c.fill.rest = ((Reassembly.of decoder limit).feed reads).1
  received : receivedOf events ++ c.packages <+: packagesOf handed
  /-- Nothing is lost as long as somebody may read. -/
  aligned : c.isUnread = false → receivedOf events ++ c.packages = packagesOf handed
  replies : replies = repliesOf handed
  settled : c.fill.isSettled = true → repliesOf handed ≠ [] → Replied events
  /-- In front of a package that was handed on, the replies were sent. -/
  answered : ∀ {front back : List (Item π)} {package : π},
    handed = front ++ .package package :: back → repliesOf front ≠ [] → Replied events

namespace Handing

variable (h : Handing decoder limit c reads events replies handed)

include h

/-- The fill loop reads and decodes. -/
theorem fill {Ready : σ → Bytes → Prop} (law : Resumable Ready)
    (hready : Ready (Reassembly.of decoder limit).decoder
      (Reassembly.of decoder limit).pending.bytes)
    (bytes : Bytes) (hfill : c.fill = .reading)
    (hafter : after.intake = { c.intake with
      reassembly := (c.reassembly.extend bytes).decode.2.2
      fill := filled (c.reassembly.extend bytes).decode.1
        (c.reassembly.extend bytes).decode.2.1 }) :
    Handing decoder limit after (reads ++ [bytes]) events replies handed := by
  have hunread := isUnread_of_intake hafter
  have hpackages : after.packages = c.packages := congrArg Intake.packages hafter
  have hreassembly : after.reassembly = (c.reassembly.extend bytes).decode.2.2 :=
    congrArg Intake.reassembly hafter
  have hfed : (Reassembly.of decoder limit).feed reads =
      (((Reassembly.of decoder limit).feed reads).1, .waiting, c.reassembly) := by
    rw [← h.fed, ← h.goesOn (by rw [hfill]; rfl)]
  have hnext := feed_concat bytes hfed
  have hwhole := h.whole (by rw [hfill]; rfl)
  rw [hfill, Fill.rest, List.append_nil] at hwhole
  obtain ⟨hready', _⟩ := feed_induction law (P := fun _ => True) (fun _ _ _ _ => trivial)
    hready trivial hfed
  have hrun := runs_decode law (ready_extend law hready' bytes)
  obtain ⟨ending, hresume, hwaiting⟩ :=
    filled_eq_resume (c.reassembly.extend bytes).decode.1 hrun.ne_again
  have hfill' : after.fill = .resume (c.reassembly.extend bytes).decode.1 ending :=
    (congrArg Intake.fill hafter).trans hresume
  have hall : handed ++ after.fill.rest =
      ((Reassembly.of decoder limit).feed (reads ++ [bytes])).1 := by
    rw [hfill', Fill.rest_resume, hnext, hwhole]
  refine ⟨?_, ?_, ?_, fun _ => hall, ?_, ?_, h.replies, ?_, h.answered⟩
  · rw [hnext, hreassembly]
  · rw [hfill', Fill.isOpen_resume, hnext]
    exact hwaiting
  · exact ⟨[], by rw [List.append_nil, hall]⟩
  · rw [hpackages]
    exact h.received
  · rw [hunread, hpackages]
    exact h.aligned
  · exact fun _ => h.settled (by rw [hfill]; rfl)

/-- The fill loop comes to its end, and what it had not handed on is lost. -/
theorem finish {reason : Option CloseReason}
    (hafter : after.intake = { c.intake with fill := .ended reason }) (htaken : takenOf more = []) :
    Handing decoder limit after reads (events ++ more) replies handed := by
  have hunread := isUnread_of_intake hafter
  have hpackages : after.packages = c.packages := congrArg Intake.packages hafter
  have hreassembly : after.reassembly = c.reassembly := congrArg Intake.reassembly hafter
  have hfill : after.fill = .ended reason := congrArg Intake.fill hafter
  have hreceived : receivedOf (events ++ more) = receivedOf events := by
    rw [receivedOf_append, receivedOf_eq_nil htaken, List.append_nil]
  refine ⟨h.fed.trans hreassembly.symm, ?_, ?_, ?_, ?_, ?_, h.replies, ?_, ?_⟩
  · rw [hfill]
    intro habsurd
    cases habsurd
  · rw [hfill, Fill.rest, List.append_nil]
    exact (List.prefix_append ..).trans h.below
  · rw [hfill]
    intro habsurd
    cases habsurd
  · rw [hreceived, hpackages]
    exact h.received
  · rw [hreceived, hpackages, hunread]
    exact h.aligned
  · rw [hfill]
    intro habsurd
    cases habsurd
  · exact fun hhanded hne => (h.answered hhanded hne).append more

/-- The fill loop hands a reply to the outbox. -/
theorem offer {bytes : Bytes} {rest : List (Item π)} {ending : Option CloseReason}
    (hfill : c.fill = .delivering (.reply bytes :: rest) ending)
    (hafter : after.intake = { c.intake with fill := .replying rest ending }) :
    Handing decoder limit after reads events (replies ++ [bytes]) (handed ++ [.reply bytes]) := by
  have hunread := isUnread_of_intake hafter
  have hpackages : after.packages = c.packages := congrArg Intake.packages hafter
  have hreassembly : after.reassembly = c.reassembly := congrArg Intake.reassembly hafter
  have hfill' : after.fill = .replying rest ending := congrArg Intake.fill hafter
  have hsame : handed ++ [.reply bytes] ++ after.fill.rest = handed ++ c.fill.rest := by
    rw [hfill', hfill, Fill.rest, Fill.rest, List.append_assoc, List.singleton_append]
  have hnone : packagesOf (handed ++ [.reply bytes]) = packagesOf handed := by
    rw [packagesOf_append]
    exact List.append_nil _
  refine ⟨h.fed.trans hreassembly.symm, ?_, ?_, fun _ => ?_, ?_, ?_, ?_, ?_, ?_⟩
  · rw [hfill']
    exact fun hopen => h.goesOn (by rw [hfill]; exact hopen)
  · rw [hsame]
    exact h.below
  · rw [hsame]
    exact h.whole (by rw [hfill]; rfl)
  · rw [hpackages, hnone]
    exact h.received
  · rw [hunread, hpackages, hnone]
    exact h.aligned
  · rw [repliesOf_append, h.replies]
    rfl
  · rw [hfill']
    intro habsurd
    cases habsurd
  · intro front back package hhanded hne
    -- The package was handed on before the reply.
    obtain rfl | ⟨back, last, rfl⟩ := List.eq_nil_or_concat back
    · obtain ⟨-, habsurd⟩ := List.append_inj' hhanded rfl
      cases habsurd
    · rw [List.concat_eq_append, ← List.cons_append, ← List.append_assoc] at hhanded
      exact h.answered (List.append_inj' hhanded rfl).1 hne

/-- A reply was sent, and the fill loop goes on. -/
theorem answer {rest : List (Item π)} {ending : Option CloseReason} {before : Nat}
    (hfill : c.fill = .replying rest ending) (htaken : takenOf more = [])
    (hsent : (.reply, .done before) ∈ returnsOf more)
    (hafter : after.intake = { c.intake with fill := .resume rest ending }) :
    Handing decoder limit after reads (events ++ more) replies handed := by
  have hunread := isUnread_of_intake hafter
  have hpackages : after.packages = c.packages := congrArg Intake.packages hafter
  have hreassembly : after.reassembly = c.reassembly := congrArg Intake.reassembly hafter
  have hfill' : after.fill = .resume rest ending := congrArg Intake.fill hafter
  have hreceived : receivedOf (events ++ more) = receivedOf events := by
    rw [receivedOf_append, receivedOf_eq_nil htaken, List.append_nil]
  have hsame : handed ++ after.fill.rest = handed ++ c.fill.rest := by
    rw [hfill', hfill, Fill.rest_resume, Fill.rest]
  refine ⟨h.fed.trans hreassembly.symm, ?_, ?_, fun _ => ?_, ?_, ?_, h.replies, ?_, ?_⟩
  · rw [hfill', Fill.isOpen_resume]
    exact fun hopen => h.goesOn (by rw [hfill]; exact hopen)
  · rw [hsame]
    exact h.below
  · rw [hsame]
    exact h.whole (by rw [hfill]; rfl)
  · rw [hreceived, hpackages]
    exact h.received
  · rw [hreceived, hunread, hpackages]
    exact h.aligned
  · intro _ _
    exact ⟨before, by rw [returnsOf_append]; exact List.mem_append_right _ hsent⟩
  · exact fun hhanded hne => (h.answered hhanded hne).append more

/-- The fill loop hands a package to the queue, or throws it away if nobody will take it. -/
theorem hand {package : π} {rest : List (Item π)} {ending : Option CloseReason}
    (hfill : c.fill = .delivering (.package package :: rest) ending)
    (hafter : after.intake = { c.intake with
      packages := after.packages, fill := .resume rest ending })
    (hpackages : c.isUnread = false ∧ after.packages = c.packages ++ [package] ∨
      c.isUnread = true ∧ after.packages = c.packages) :
    Handing decoder limit after reads events replies (handed ++ [.package package]) := by
  have hunread : after.isUnread = c.isUnread := isUnread_of_intake hafter
  have hreassembly : after.reassembly = c.reassembly := congrArg Intake.reassembly hafter
  have hfill' : after.fill = .resume rest ending := congrArg Intake.fill hafter
  have hsame : handed ++ [.package package] ++ after.fill.rest = handed ++ c.fill.rest := by
    rw [hfill', hfill, Fill.rest_resume, Fill.rest, List.append_assoc, List.singleton_append]
  have hone : packagesOf (handed ++ [.package package]) = packagesOf handed ++ [package] := by
    rw [packagesOf_append]
    rfl
  have hnone : repliesOf (handed ++ [.package package]) = repliesOf handed := by
    rw [repliesOf_append]
    exact List.append_nil _
  have haligned : after.isUnread = false →
      receivedOf events ++ after.packages = packagesOf (handed ++ [.package package]) := by
    rw [hunread, hone]
    intro hread
    obtain ⟨_, hmore⟩ | ⟨habsurd, _⟩ := hpackages
    · rw [hmore, ← List.append_assoc, h.aligned hread]
    · rw [hread] at habsurd
      cases habsurd
  have hsettled : repliesOf handed ≠ [] → Replied events :=
    h.settled (by rw [hfill]; rfl)
  refine ⟨h.fed.trans hreassembly.symm, ?_, ?_, fun _ => ?_, ?_, haligned, ?_, ?_, ?_⟩
  · rw [hfill', Fill.isOpen_resume]
    exact fun hopen => h.goesOn (by rw [hfill]; exact hopen)
  · rw [hsame]
    exact h.below
  · rw [hsame]
    exact h.whole (by rw [hfill]; rfl)
  · obtain ⟨hread, _⟩ | ⟨_, hless⟩ := hpackages
    · exact ⟨[], by rw [List.append_nil, haligned (hunread.trans hread)]⟩
    · rw [hless, hone]
      exact h.received.trans (List.prefix_append ..)
  · rw [hnone, h.replies]
  · rw [hnone]
    exact fun _ => hsettled
  · intro front back package' hhanded hne
    obtain rfl | ⟨back, last, rfl⟩ := List.eq_nil_or_concat back
    · rw [(List.append_inj' hhanded rfl).1] at hsettled
      exact hsettled hne
    · rw [List.concat_eq_append, ← List.cons_append, ← List.append_assoc] at hhanded
      exact h.answered (List.append_inj' hhanded rfl).1 hne

/-- The fill loop does nothing, and what was taken from the queue was given to the consumer. -/
theorem take (hfill : after.fill = c.fill) (hreassembly : after.reassembly = c.reassembly)
    (hpackages : receivedOf more ++ after.packages = c.packages)
    (hunread : c.isUnread = true → after.isUnread = true) :
    Handing decoder limit after reads (events ++ more) replies handed := by
  have hsame : receivedOf (events ++ more) ++ after.packages = receivedOf events ++ c.packages := by
    rw [receivedOf_append, List.append_assoc, hpackages]
  refine ⟨h.fed.trans hreassembly.symm, ?_, ?_, ?_, ?_, ?_, h.replies, ?_, ?_⟩
  · rw [hfill]
    exact h.goesOn
  · rw [hfill]
    exact h.below
  · rw [hfill]
    exact h.whole
  · rw [hsame]
    exact h.received
  · rw [hsame]
    intro hread
    refine h.aligned ?_
    by_contra habsurd
    rw [hunread (by simpa using habsurd)] at hread
    cases hread
  · rw [hfill]
    exact fun hsettled hne => (h.settled hsettled hne).append more
  · exact fun hhanded hne => (h.answered hhanded hne).append more

/-- Whatever a move does to the intake, the invariant is kept. -/
theorem intakes {Ready : σ → Bytes → Prop} (law : Resumable Ready)
    (hready : Ready (Reassembly.of decoder limit).decoder
      (Reassembly.of decoder limit).pending.bytes)
    {read : Option Bytes} {item : Option (Item π)} (hintakes : Intakes c after read item more) :
    ∃ handed', Handing decoder limit after (reads ++ read.toList) (events ++ more)
      (replies ++ repliesOf item.toList) (handed ++ handed') := by
  have hpackages := hintakes.packages
  have hidle : ∀ {more : List (Event π)},
      Handing decoder limit after reads (events ++ more) replies handed →
        ∃ handed', Handing decoder limit after (reads ++ (none : Option Bytes).toList)
          (events ++ more) (replies ++ repliesOf (none : Option (Item π)).toList)
          (handed ++ handed') := by
    intro more hsame
    refine ⟨[], ?_⟩
    rw [show repliesOf (none : Option (Item π)).toList = [] from rfl, Option.toList_none,
      List.append_nil, List.append_nil, List.append_nil]
    exact hsame
  cases hintakes with
  | reads bytes hfill hwet hafter =>
    refine ⟨[], ?_⟩
    rw [show repliesOf (none : Option (Item π)).toList = [] from rfl, List.append_nil,
      List.append_nil, List.append_nil]
    exact h.fill law hready bytes hfill hafter
  | ends _ _ _ hafter | stops _ _ hafter | withholds _ hafter =>
    exact hidle (h.finish hafter rfl)
  | breaks _ hevents hafter => exact hidle (h.finish hafter hevents)
  | @offers bytes _ _ hfill hafter =>
    refine ⟨[.reply bytes], ?_⟩
    rw [Option.toList_none, List.append_nil, List.append_nil]
    exact h.offer hfill hafter
  | answers hfill hevents hsent hafter => exact hidle (h.answer hfill hevents hsent hafter)
  | @hands package _ _ hfill hread _ hafter =>
    have hbehind : after.packages = c.packages ++ [package] := hpackages
    refine ⟨[.package package], ?_⟩
    rw [Option.toList_none, List.append_nil, List.append_nil,
      show repliesOf (some (Item.package package)).toList = [] from rfl, List.append_nil]
    exact h.hand hfill (by rw [hafter, hbehind]) (.inl ⟨hread, hbehind⟩)
  | @discards package _ _ hfill hunread _ hafter =>
    have hsame : after.packages = c.packages := congrArg Intake.packages hafter
    refine ⟨[.package package], ?_⟩
    rw [Option.toList_none, List.append_nil, List.append_nil,
      show repliesOf (none : Option (Item π)).toList = [] from rfl, List.append_nil]
    exact h.hand hfill (by rw [hafter, hsame]; rfl) (.inr ⟨hunread, hsame⟩)
  | gives hreaders _ hafter | finishes hreaders _ _ hafter =>
    refine hidle (h.take (congrArg Intake.fill hafter) (congrArg Intake.reassembly hafter)
      (hpackages.trans (List.append_nil _)) ?_)
    simp [isUnread, hreaders]
  | collects hheld hafter =>
    refine hidle (h.take (congrArg Intake.fill hafter) (congrArg Intake.reassembly hafter)
      (hpackages.trans (List.append_nil _)) ?_)
    simp [isUnread_of_held hheld]
  | attends _ hunread hafter =>
    exact hidle (h.take (congrArg Intake.fill hafter) (congrArg Intake.reassembly hafter)
      (hpackages.trans (List.append_nil _)) hunread)

end Handing

/-! ## Moves -/

variable {options : ConnectionOptions} {remote : Option Socket} {moves : List Move}

/-- The sends behind one move more. -/
theorem admitted_concat {middle : Channel σ π} {move : Move}
    (hmoves : c.moves moves = some (events, middle))
    (hmove : middle.move move = some (more, after)) :
    c.admitted (moves ++ [move]) = c.admitted moves ++ middle.letsIn move := by
  induction moves generalizing c events with
  | nil =>
    cases hmoves
    simp [admitted, hmove]
  | cons first rest ih =>
    simp only [Channel.moves, Option.bind_eq_bind, Option.bind_eq_some_iff] at hmoves
    obtain ⟨⟨begun, reached⟩, hfirst, ⟨others, last⟩, hrest, hsame⟩ := hmoves
    cases hsame
    rw [List.cons_append, admitted, admitted, hfirst]
    dsimp only
    rw [ih hrest, List.append_assoc]

omit [PackageDecoder σ π] in
/-- The replies that a move lets in are those of the fill loop, unless the application sends in its
name. -/
theorem replies_letsIn {move : Move}
    (hcalls : ∀ send, move = .act (.send send) → send.reply? = none) :
    (c.letsIn move).filterMap Send.reply? = repliesOf (c.offered move).toList := by
  cases move with
  | giveUp call => rfl
  | act action =>
    cases action with
    | send send =>
      rw [letsIn, admits]
      split
      · rfl
      · simp [hcalls send rfl, offered, repliesOf]
    | fill action =>
      cases action with
      | reply =>
        unfold letsIn admits offered
        cases c.fill with
        | delivering items ending =>
          rcases items with _ | ⟨_ | _, rest⟩
          · rfl
          · cases c.isClosing <;> rfl
          · rfl
        | _ => rfl
      | deliver =>
        unfold letsIn admits offered
        cases c.fill with
        | delivering items ending =>
          rcases items with _ | ⟨_ | _, rest⟩
          · rfl
          · rfl
          · cases c.isUnread <;> rfl
        | _ => rfl
      | _ => rfl
    | _ => rfl

/-- A channel that was just assembled has handed nothing on. -/
theorem handing_of_assemble (hassemble : assemble decoder options remote = .ok c) :
    Handing decoder options.maxPackageLength c [] [] [] [] := by
  obtain rfl := eq_of_assemble hassemble
  refine ⟨rfl, fun _ => rfl, List.prefix_refl _, fun _ => rfl, List.prefix_refl _, fun _ => rfl,
    rfl, fun _ habsurd => absurd rfl habsurd, ?_⟩
  intro front back package habsurd
  simp at habsurd

theorem handing_of_moves {Ready : σ → Bytes → Prop} (law : Resumable Ready)
    (hready : Ready (Reassembly.of decoder options.maxPackageLength).decoder
      (Reassembly.of decoder options.maxPackageLength).pending.bytes)
    (hassemble : assemble decoder options remote = .ok c)
    (hcalls : ∀ send, .act (.send send) ∈ moves → send.reply? = none)
    (hmoves : c.moves moves = some (events, after)) :
    ∃ handed, Handing decoder options.maxPackageLength after (readsOf moves) events
      ((c.admitted moves).filterMap Send.reply?) handed := by
  refine moves_induction (P := fun moves events after =>
    (∀ send, .act (.send send) ∈ moves → send.reply? = none) →
      ∃ handed, Handing decoder options.maxPackageLength after (readsOf moves) events
        ((c.admitted moves).filterMap Send.reply?) handed)
    (fun _ => ⟨[], handing_of_assemble hassemble⟩) ?_ hmoves hcalls
  intro moves events middle move more after hfirst ih hmove hcalls
  obtain ⟨handed, h⟩ := ih fun send hmem => hcalls send (List.mem_append_left _ hmem)
  obtain ⟨handed', h'⟩ := h.intakes law hready (move_intakes hmove)
  refine ⟨handed ++ handed', ?_⟩
  rw [readsOf_concat, admitted_concat hfirst hmove, List.filterMap_append, replies_letsIn]
  · exact h'
  · rintro send rfl
    exact hcalls send (List.mem_append_right _ List.mem_cons_self)

end Channel

end FramedChannel
