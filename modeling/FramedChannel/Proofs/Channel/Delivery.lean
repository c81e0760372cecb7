import FramedChannel.Proofs.Channel.Intake
import FramedChannel.Proofs.Channel.Signal
import FramedChannel.Proofs.Package.Plain

/-!
# What the consumer of a channel receives

On a channel whose decoder sends no replies, the consumer receives the packages
that a single reassembly decodes from all bytes read, in their order.  Some may
be missing at the end, but none unless the channel was cancelled before the fill
loop came to its end.

* `decodedFrom` are the packages that one reassembly decodes.
* `Delivery` is the invariant, with one lemma for each thing that a move can do
  to the intake of a channel.
* `EndsFreely` says that the fill loop came to its end by itself, and
  `takenOf_receives` that a consumer who keeps asking gets all that is there and
  then the end.
* `DeliversInOrder` is the property of a decoder, and `moves_delivered` says
  that every decoder has it that sends no replies.
-/

namespace FramedChannel

open Reassembly

variable {σ π : Type} [PackageDecoder σ π]

/-- The packages that one reassembly decodes from some segments. -/
def decodedFrom (decoder : σ) (limit : Nat) (segments : List Bytes) : List π :=
  packagesOf ((Reassembly.of decoder limit).feed segments).1

namespace Channel

variable {c after : Channel σ π} {events more : List (Event π)} {decoder : σ} {limit : Nat}
  {reads : List Bytes}

/-! ## The invariant -/

/-- How the bytes read, the packages received and the state of a channel belong together. -/
structure Delivery (decoder : σ) (limit : Nat) (c : Channel σ π) (reads : List Bytes)
    (events : List (Event π)) : Prop where
  silent : c.fill.IsSilent
  /-- A loop that will read again decodes as one that was fed all bytes so far. -/
  fed : c.fill.isOpen = true →
    ((Reassembly.of decoder limit).feed reads).2 = (.waiting, c.reassembly)
  below : receivedOf events ++ c.packages <+: decodedFrom decoder limit reads
  /-- Nothing is lost as long as somebody may read, and the fill loop was not stopped. -/
  whole : c.isUnread = false → c.fill ≠ .ended none →
    receivedOf events ++ c.packages ++ packagesOf c.fill.rest = decodedFrom decoder limit reads
  stopped : c.fill = .ended none → c.isClosing = true
  /-- Behind the end there is nothing, and in front of it there was all. -/
  spent : none ∈ takenOf events → c.packages = [] ∧ c.isDry = true ∧
    (c.fill.isOver = true → c.fill ≠ .ended none →
      receivedOf events = decodedFrom decoder limit reads)

omit [PackageDecoder σ π] in
theorem isUnread_of_intake {fill : Fill π} {packages : List π} {reassembly : Reassembly σ}
    (h : after.intake = { c.intake with fill, packages, reassembly }) :
    after.isUnread = c.isUnread := by
  have hconsumer : after.consumer = c.consumer := congrArg Intake.consumer h
  have hreaders : after.readers = c.readers := congrArg Intake.readers h
  rw [isUnread, isUnread, hconsumer, hreaders]

/-- Behind a verdict that is no other pass, the loop reads again only if more bytes are needed. -/
theorem filled_eq_resume (items : List (Item π)) {verdict : Verdict} (h : verdict ≠ .again) :
    ∃ ending, filled items verdict = .resume items ending ∧
      (ending.isNone = true → verdict = .waiting) := by
  cases verdict with
  | again => exact absurd rfl h
  | waiting => exact ⟨none, rfl, fun _ => rfl⟩
  | failed error =>
    refine ⟨some error.closeReason, rfl, fun habsurd => ?_⟩
    cases habsurd

namespace Delivery

variable (h : Delivery decoder limit c reads events)

include h

/-- In front of the end of the stream nobody has seen it. -/
theorem not_spent (hwet : c.isDry = false) : none ∉ takenOf events := by
  intro hend
  rw [(h.spent hend).2.1] at hwet
  cases hwet

/-- The fill loop reads and decodes. -/
theorem fill (hplain : Plain decoder) (bytes : Bytes) (hfill : c.fill = .reading)
    (hwet : c.isDry = false)
    (hafter : after.intake = { c.intake with
      reassembly := (c.reassembly.extend bytes).decode.2.2
      fill := filled (c.reassembly.extend bytes).decode.1
        (c.reassembly.extend bytes).decode.2.1 }) :
    Delivery decoder limit after (reads ++ [bytes]) events := by
  have hunread := isUnread_of_intake hafter
  have hpackages : after.packages = c.packages := congrArg Intake.packages hafter
  have hreassembly : after.reassembly = (c.reassembly.extend bytes).decode.2.2 :=
    congrArg Intake.reassembly hafter
  have hfed : (Reassembly.of decoder limit).feed reads =
      (((Reassembly.of decoder limit).feed reads).1, .waiting, c.reassembly) := by
    rw [← h.fed (by rw [hfill]; rfl)]
  have hnext := feed_concat bytes hfed
  have hdecoded : decodedFrom decoder limit (reads ++ [bytes]) =
      decodedFrom decoder limit reads ++ packagesOf (c.reassembly.extend bytes).decode.1 := by
    rw [decodedFrom, hnext, packagesOf_append]
    rfl
  obtain ⟨ending, hresume, hwaiting⟩ :=
    filled_eq_resume (c.reassembly.extend bytes).decode.1 (hplain.decode_ne_again hfed bytes)
  have hfill' : after.fill = .resume (c.reassembly.extend bytes).decode.1 ending :=
    (congrArg Intake.fill hafter).trans hresume
  refine ⟨?_, ?_, ?_, ?_, ?_, ?_⟩
  · rw [hfill']
    exact Fill.isSilent_resume ending (hplain.repliesOf_decode _)
  · rw [hfill', Fill.isOpen_resume]
    intro hnone
    rw [hnext, hreassembly, ← hwaiting hnone]
  · rw [hpackages, hdecoded]
    exact h.below.trans (List.prefix_append ..)
  · intro hread _
    rw [hunread] at hread
    have hwhole := h.whole hread (by simp [hfill])
    rw [hfill, Fill.rest, packagesOf, List.filterMap_nil, List.append_nil] at hwhole
    rw [hpackages, hfill', Fill.rest_resume, hdecoded, hwhole]
  · intro habsurd
    rw [hfill'] at habsurd
    exact (Fill.resume_ne_ended_none _ _ habsurd).elim
  · intro hend
    exact (h.not_spent hwet hend).elim

/-- The fill loop goes on without reading, and hands nothing out. -/
theorem turn {fill : Fill π} (hwet : c.isDry = false)
    (hafter : after.intake = { c.intake with fill }) (hsilent : fill.IsSilent)
    (hopen : fill.isOpen = true → c.fill.isOpen = true)
    (hrest : c.isUnread = false → fill ≠ .ended none →
      c.fill ≠ .ended none ∧ packagesOf fill.rest = packagesOf c.fill.rest)
    (hstopped : fill = .ended none → after.isClosing = true) :
    Delivery decoder limit after reads events := by
  have hunread : after.isUnread = c.isUnread := isUnread_of_intake hafter
  have hpackages : after.packages = c.packages := congrArg Intake.packages hafter
  have hreassembly : after.reassembly = c.reassembly := congrArg Intake.reassembly hafter
  have hfill : after.fill = fill := congrArg Intake.fill hafter
  refine ⟨?_, ?_, ?_, ?_, ?_, ?_⟩
  · rw [hfill]
    exact hsilent
  · rw [hfill, hreassembly]
    exact fun h' => h.fed (hopen h')
  · rw [hpackages]
    exact h.below
  · rw [hunread, hfill, hpackages]
    intro hread hrunning
    obtain ⟨hrunning', hsame⟩ := hrest hread hrunning
    rw [hsame]
    exact h.whole hread hrunning'
  · rw [hfill]
    exact hstopped
  · intro hend
    exact (h.not_spent hwet hend).elim

/-- The fill loop hands a package to the queue. -/
theorem hand {package : π} {rest : List (Item π)} {ending : Option CloseReason}
    (hfill : c.fill = .delivering (.package package :: rest) ending)
    (hread : c.isUnread = false) (hwet : c.isDry = false)
    (hafter : after.intake = { c.intake with
      packages := c.packages ++ [package], fill := .resume rest ending }) :
    Delivery decoder limit after reads events := by
  have hpackages : after.packages = c.packages ++ [package] := congrArg Intake.packages hafter
  have hreassembly : after.reassembly = c.reassembly := congrArg Intake.reassembly hafter
  have hfill' : after.fill = .resume rest ending := congrArg Intake.fill hafter
  have hwhole : receivedOf events ++ after.packages ++ packagesOf rest =
      decodedFrom decoder limit reads := by
    have hbefore := h.whole hread (by simp [hfill])
    rw [hfill] at hbefore
    rw [hpackages, ← hbefore]
    simp [Fill.rest, packagesOf]
  refine ⟨?_, ?_, ?_, ?_, ?_, ?_⟩
  · have hsilent := h.silent.rest
    rw [hfill] at hsilent
    rw [hfill']
    exact Fill.isSilent_resume ending hsilent
  · rw [hfill', Fill.isOpen_resume, hreassembly]
    intro hnone
    exact h.fed (by rw [hfill]; exact hnone)
  · rw [← hwhole]
    exact List.prefix_append ..
  · intro _ _
    rw [hfill', Fill.rest_resume]
    exact hwhole
  · intro habsurd
    rw [hfill'] at habsurd
    exact (Fill.resume_ne_ended_none _ _ habsurd).elim
  · intro hend
    exact (h.not_spent hwet hend).elim

/-- The fill loop does nothing, and what was taken from the queue was given to the consumer. -/
theorem take (hstage : c.stage = .dropped → after.stage = .dropped)
    (hclosing : c.isClosing = true → after.isClosing = true) (hfill : after.fill = c.fill)
    (hreassembly : after.reassembly = c.reassembly)
    (hpackages : receivedOf more ++ after.packages = c.packages)
    (hunread : c.isUnread = true → after.isUnread = true)
    (hover : none ∈ takenOf more → c.isDry = true ∧ c.isUnread = false ∧ after.packages = []) :
    Delivery decoder limit after reads (events ++ more) := by
  have hsame : receivedOf (events ++ more) ++ after.packages = receivedOf events ++ c.packages := by
    rw [receivedOf_append, List.append_assoc, hpackages]
  have hdry : c.isDry = true → after.isDry = true := by
    simp only [isDry, hfill, Bool.or_eq_true, beq_iff_eq]
    exact Or.imp_left hstage
  refine ⟨?_, ?_, ?_, ?_, ?_, ?_⟩
  · rw [hfill]
    exact h.silent
  · rw [hfill, hreassembly]
    exact h.fed
  · rw [hsame]
    exact h.below
  · intro hread hrunning
    rw [hfill] at hrunning
    rw [hsame, hfill]
    refine h.whole ?_ hrunning
    by_contra habsurd
    rw [hunread (by simpa using habsurd)] at hread
    cases hread
  · rw [hfill]
    exact fun h' => hclosing (h.stopped h')
  · rw [hfill, takenOf_append, List.mem_append]
    rintro (hold | hnew)
    · obtain ⟨hnone, hdry', hall⟩ := h.spent hold
      rw [hnone, List.append_eq_nil_iff] at hpackages
      refine ⟨hpackages.2, hdry hdry', fun hfill' hrunning => ?_⟩
      rw [receivedOf_append, hpackages.1, List.append_nil]
      exact hall hfill' hrunning
    · obtain ⟨hdry', hread, hnone⟩ := hover hnew
      refine ⟨hnone, hdry hdry', fun hfill' hrunning => ?_⟩
      have hwhole := h.whole hread hrunning
      rw [hnone, List.append_nil] at hsame
      rw [Fill.rest_of_over hfill', ← hsame, packagesOf, List.filterMap_nil,
        List.append_nil] at hwhole
      exact hwhole

/-- Whatever a move does to the intake, the invariant is kept. -/
theorem intakes (hplain : Plain decoder) (hstage : c.stage = .dropped → after.stage = .dropped)
    (hclosing : c.isClosing = true → after.isClosing = true) {read : Option Bytes}
    {item : Option (Item π)} (hintakes : Intakes c after read item more) :
    Delivery decoder limit after (reads ++ read.toList) (events ++ more) := by
  cases hintakes with
  | reads bytes hfill hwet hafter =>
    rw [List.append_nil]
    exact h.fill hplain bytes hfill hwet hafter
  | ends reason hfill hwet hafter =>
    rw [Option.toList_none, List.append_nil, List.append_nil]
    refine h.turn hwet hafter (Fill.isSilent_of_over rfl) ?_ ?_ ?_
    · intro habsurd
      cases habsurd
    · intro _ _
      rw [hfill]
      exact ⟨by simp, rfl⟩
    · intro habsurd
      cases habsurd
  | stops hclosing' hwet hafter =>
    rw [Option.toList_none, List.append_nil, List.append_nil]
    refine h.turn hwet hafter (Fill.isSilent_of_over rfl) ?_ ?_ (fun _ => hclosing')
    · intro habsurd
      cases habsurd
    · intro _ habsurd
      exact absurd rfl habsurd
  | offers hfill _ | withholds hfill _ =>
    exact absurd h.silent.rest (by simp [hfill, Fill.rest, repliesOf])
  | answers hfill _ _ _ | breaks hfill _ _ => exact absurd hfill (h.silent.replying _ _)
  | hands hfill hread hwet hafter =>
    rw [Option.toList_none, List.append_nil, List.append_nil]
    exact h.hand hfill hread hwet hafter
  | @discards package rest ending hfill hunread hwet hafter =>
    rw [Option.toList_none, List.append_nil, List.append_nil]
    have hsilent := h.silent.rest
    rw [hfill] at hsilent
    refine h.turn hwet hafter (Fill.isSilent_resume ending hsilent) ?_ ?_ ?_
    · rw [Fill.isOpen_resume, hfill]
      exact id
    · rw [hunread]
      intro habsurd
      cases habsurd
    · exact fun habsurd => (Fill.resume_ne_ended_none _ _ habsurd).elim
  | gives hreaders hpackages hafter =>
    rw [Option.toList_none, List.append_nil]
    refine h.take hstage hclosing (congrArg Intake.fill hafter) (congrArg Intake.reassembly hafter)
      ?_ ?_ ?_
    · rw [show after.packages = _ from congrArg Intake.packages hafter, hpackages]
      rfl
    · simp [isUnread, hreaders]
    · intro habsurd
      simp [takenOf] at habsurd
  | finishes hreaders hpackages hdry hafter =>
    rw [Option.toList_none, List.append_nil]
    have hnone : after.packages = [] :=
      (congrArg Intake.packages hafter).trans hpackages
    have hread : c.isUnread = false := by simp [isUnread, hreaders]
    refine h.take hstage hclosing (congrArg Intake.fill hafter) (congrArg Intake.reassembly hafter)
      ?_ ?_ (fun _ => ⟨hdry, hread, hnone⟩)
    · rw [hnone, hpackages]
      rfl
    · simp [hread]
  | collects hheld hafter =>
    rw [Option.toList_none, List.append_nil]
    have hnone : after.packages = [] := congrArg Intake.packages hafter
    have hread := isUnread_of_held hheld
    refine h.take hstage hclosing (congrArg Intake.fill hafter) (congrArg Intake.reassembly hafter)
      ?_ ?_ ?_
    · rw [hnone]
      cases c.isDry <;> simp [receivedOf, takenOf]
    · simp [hread]
    · intro hend
      refine ⟨?_, hread, hnone⟩
      by_contra hwet
      simp [takenOf, hwet] at hend
  | attends hevents hunread hafter =>
    rw [Option.toList_none, List.append_nil]
    refine h.take hstage hclosing (congrArg Intake.fill hafter) (congrArg Intake.reassembly hafter)
      ?_ hunread ?_
    · rw [receivedOf_eq_nil hevents, List.nil_append]
      exact congrArg Intake.packages hafter
    · rw [hevents]
      intro habsurd
      cases habsurd

end Delivery

variable {options : ConnectionOptions} {remote : Option Socket} {moves : List Move}

/-- A channel that was just assembled has nothing to deliver. -/
theorem delivery_of_assemble (hassemble : assemble decoder options remote = .ok c) :
    Delivery decoder options.maxPackageLength c [] [] := by
  obtain rfl := eq_of_assemble hassemble
  refine ⟨⟨rfl, by simp⟩, fun _ => rfl, List.prefix_refl _, fun _ _ => rfl, ?_, ?_⟩
  · intro habsurd
    cases habsurd
  · intro habsurd
    cases habsurd

theorem delivery_of_moves (hplain : Plain decoder)
    (hassemble : assemble decoder options remote = .ok c)
    (hmoves : c.moves moves = some (events, after)) :
    Delivery decoder options.maxPackageLength after (readsOf moves) events := by
  refine moves_induction (P := fun moves events after =>
    Delivery decoder options.maxPackageLength after (readsOf moves) events)
    (delivery_of_assemble hassemble) ?_ hmoves
  intro moves events middle move more after _ h hmove
  rw [readsOf_concat]
  exact h.intakes hplain (dropped_of_move hmove) (move_closes hmove).onward.1 (move_intakes hmove)

/-! ## The end of the fill loop -/

/-- The fill loop comes to its end in some moves, and the channel was not cancelled before. -/
def EndsFreely (c : Channel σ π) (moves : List Move) : Prop :=
  ∃ before later first middle, moves = before ++ later ∧ c.moves before = some (first, middle) ∧
    middle.fill.isOver = true ∧ middle.isClosing = false

/-- The fill loop does not go on once it is over. -/
theorem Intakes.fill_of_over {read : Option Bytes} {item : Option (Item π)}
    (h : Intakes c after read item events) (hover : c.fill.isOver = true) :
    after.fill = c.fill := by
  cases h with
  | reads _ _ hwet _ | ends _ _ hwet _ | stops _ hwet _ | hands _ _ hwet _
  | discards _ _ hwet _ =>
    simp [isDry, hover] at hwet
  | offers hfill _ | withholds hfill _ | answers hfill _ _ _ | breaks hfill _ _ =>
    rw [hfill] at hover
    cases hover
  | gives _ _ hafter | finishes _ _ _ hafter | collects _ hafter | attends _ _ hafter =>
    exact congrArg Intake.fill hafter

theorem fill_of_moves (hmoves : c.moves moves = some (events, after))
    (hover : c.fill.isOver = true) : after.fill = c.fill := by
  refine moves_induction (P := fun _ _ after => after.fill = c.fill) rfl ?_ hmoves
  intro moves events middle move more after _ h hmove
  rw [← h]
  exact (move_intakes hmove).fill_of_over (by rw [h]; exact hover)

/-- A fill loop that came to its end freely was not stopped. -/
theorem EndsFreely.fill (hfree : c.EndsFreely moves) (hplain : Plain decoder)
    (hassemble : assemble decoder options remote = .ok c)
    (hmoves : c.moves moves = some (events, after)) :
    after.fill.isOver = true ∧ after.fill ≠ .ended none := by
  obtain ⟨before, later, first, middle, rfl, hbefore, hover, hopen⟩ := hfree
  obtain ⟨first', middle', more, hbefore', hlater, rfl⟩ := moves_append_eq_some hmoves
  rw [hbefore, Option.some.injEq, Prod.mk.injEq] at hbefore'
  obtain ⟨rfl, rfl⟩ := hbefore'
  have hsame := fill_of_moves hlater hover
  have hdelivery := delivery_of_moves hplain hassemble hbefore
  refine ⟨by rw [hsame]; exact hover, ?_⟩
  rw [hsame]
  intro hstopped
  rw [hdelivery.stopped hstopped] at hopen
  cases hopen

/-! ## A consumer that keeps asking -/

/-- Calls of a consumer who has the stream wait behind those that wait already. -/
theorem moves_next (calls : List Nat) (hheld : c.isHeld = true) :
    c.moves (calls.map fun call => .act (.next call)) =
      some ([], { c with readers := c.readers ++ calls }) := by
  induction calls generalizing c with
  | nil => simp [Channel.moves]
  | cons call calls ih =>
    have hmove : c.move (.act (.next call)) = some ([], c.next call) := by
      simp [move, step, hheld]
    have hmoves := moves_cons hmove (@ih (c.next call) hheld)
    rw [List.map_cons, hmoves]
    simp [next]

/-- With the stream at its end, calls that are more than the packages get all of them, and then the
end. -/
theorem takenOf_receives (hdry : c.isDry = true) (hreaders : c.packages.length < c.readers.length) :
    ∃ events final, c.moves (List.replicate (c.packages.length + 1) (.act .receive)) =
        some (events, final) ∧
      takenOf events = c.packages.map some ++ [none] := by
  obtain ⟨call, readers, hcall⟩ := List.exists_cons_of_length_pos (Nat.zero_lt_of_lt hreaders)
  generalize hpackages : c.packages = packages at hreaders ⊢
  induction packages generalizing c call readers with
  | nil =>
    refine ⟨[.received call none], { c with readers }, ?_, rfl⟩
    simp [Channel.moves, move, step, stepReader, hcall, hpackages, hdry]
  | cons package packages ih =>
    have hmove : c.move (.act .receive) =
        some ([.received call (some package)], { c with readers, packages }) := by
      simp [move, step, stepReader, hcall, hpackages]
    rw [hcall, List.length_cons, List.length_cons] at hreaders
    have hleft : packages.length < readers.length := Nat.lt_of_succ_lt_succ hreaders
    obtain ⟨call', readers', rfl⟩ := List.exists_cons_of_length_pos (Nat.zero_lt_of_lt hleft)
    obtain ⟨events, final, hrest, htaken⟩ :=
      @ih { c with readers := call' :: readers', packages } hdry call' readers' rfl rfl hleft
    refine ⟨[.received call (some package)] ++ events, final, ?_, ?_⟩
    · exact moves_cons hmove hrest
    · rw [takenOf_append, htaken]
      rfl

end Channel

/-- On every channel with the decoder, what was received is a prefix of what one reassembly decodes
from the bytes read so far, however they are cut.  Once the fill loop came to its end freely, the
end of the stream was only given behind all of that, and a consumer who still has the stream gets
the rest with so many calls as there are packages left, and the end with one more. -/
def DeliversInOrder (decoder : σ) : Prop :=
  ∀ {options : ConnectionOptions} {remote : Option Socket} {c after : Channel σ π}
    {moves : List Move} {events : List (Event π)} (segments : List Bytes),
    Channel.assemble decoder options remote = .ok c → c.moves moves = some (events, after) →
      segments.flatten = (readsOf moves).flatten →
        let decoded := decodedFrom decoder options.maxPackageLength segments
        receivedOf events <+: decoded ∧
          (c.EndsFreely moves →
            (none ∈ takenOf events → receivedOf events = decoded) ∧
              (after.isHeld = true → ∀ calls : List Nat,
                after.packages.length < after.readers.length + calls.length →
                  ∃ more final,
                    after.moves (calls.map (fun call => .act (.next call)) ++
                      List.replicate (after.packages.length + 1) (.act .receive)) =
                        some (more, final) ∧
                      takenOf more = after.packages.map some ++ [none] ∧
                      receivedOf (events ++ more) = decoded))

theorem Plain.deliversInOrder {decoder : σ} (hplain : Plain decoder) :
    DeliversInOrder decoder := by
  intro options remote c after moves events segments hassemble hmoves hsame decoded
  have h := Channel.delivery_of_moves hplain hassemble hmoves
  have hdecoded : decodedFrom decoder options.maxPackageLength (readsOf moves) = decoded :=
    hplain.packagesOf_feed_eq options.maxPackageLength hsame.symm
  refine ⟨?_, fun hfree => ?_⟩
  · rw [← hdecoded]
    exact (List.prefix_append ..).trans h.below
  obtain ⟨hover, hrunning⟩ := hfree.fill hplain hassemble hmoves
  refine ⟨?_, fun hheld calls hcalls => ?_⟩
  · intro hend
    rw [← hdecoded]
    exact (h.spent hend).2.2 hover hrunning
  -- All calls wait first, and then they are served one behind the other.
  have hdry : after.isDry = true := by simp [Channel.isDry, hover]
  obtain ⟨more, final, hreceive, htaken⟩ := Channel.takenOf_receives
    (c := { after with readers := after.readers ++ calls }) hdry (by simpa using hcalls)
  refine ⟨more, final, Channel.moves_append (Channel.moves_next calls hheld) hreceive, htaken, ?_⟩
  have hwhole := h.whole (Channel.isUnread_of_held hheld) hrunning
  rw [Fill.rest_of_over hover, packagesOf, List.filterMap_nil, List.append_nil, hdecoded] at hwhole
  rw [← hwhole, receivedOf_append, receivedOf, receivedOf, htaken]
  simp

/-- Lines, terminated packages and packages of a fixed size are delivered in order. -/
theorem moves_delivered :
    DeliversInOrder ({} : LineDecoder) ∧
      (∀ {terminator : Bytes} {decoder : Terminated}, Terminated.of terminator = .ok decoder →
        DeliversInOrder decoder) ∧
      ∀ {size : Nat} {decoder : FixedSize}, FixedSize.of size = .ok decoder →
        DeliversInOrder decoder :=
  ⟨LineDecoder.plain.deliversInOrder, fun h => (Terminated.plain h).deliversInOrder,
    fun h => (FixedSize.plain_of h).deliversInOrder⟩

/-- Two packages, the second of which is longer than three bytes, for a consumer who comes when the
fill loop is over already. -/
def secondTooLong : List Move :=
  [.act .start, .act (.fill (.read [1, 0, 2, 2])), .act (.fill .deliver),
    .act (.fill (.read [2, 2, 0])), .act .run, .act (.next 0)]

theorem moves_secondTooLong :
    ∃ (c after : Channel Terminated Bytes) (events : List (Event Bytes)),
      Channel.assemble (Terminated.mk [0] 0) { maxPackageLength := 3 } none = .ok c ∧
        c.moves secondTooLong = some (events, after) ∧ c.EndsFreely secondTooLong ∧
        ∃ more final, after.moves ([1].map (fun call => .act (.next call)) ++
            List.replicate (after.packages.length + 1) (.act .receive)) = some (more, final) ∧
          takenOf more = [some [1], none] ∧
          receivedOf (events ++ more) =
            decodedFrom (Terminated.mk [0] 0) 3 [[1, 0, 2, 2, 2, 2, 0]] := by
  have hdelivered : DeliversInOrder (Terminated.mk [0] 0) :=
    moves_delivered.2.1 (show Terminated.of [0] = .ok _ from rfl)
  have hrun : ∃ (c after : Channel Terminated Bytes) (events : List (Event Bytes)),
      Channel.assemble (Terminated.mk [0] 0) { maxPackageLength := 3 } none = .ok c ∧
        c.moves secondTooLong = some (events, after) ∧ c.EndsFreely secondTooLong ∧
        after.isHeld = true ∧ after.packages = [[1]] ∧ after.readers = [0] :=
    ⟨_, _, _, rfl, rfl, ⟨secondTooLong, [], _, _, rfl, rfl, rfl, rfl⟩, rfl, rfl, rfl⟩
  obtain ⟨c, after, events, hassemble, hmoves, hfree, hheld, hpackages, hreaders⟩ := hrun
  obtain ⟨_, hrest⟩ := hdelivered [[1, 0, 2, 2, 2, 2, 0]] hassemble hmoves rfl
  obtain ⟨more, final, hcalls, htaken, hreceived⟩ :=
    (hrest hfree).2 hheld [1] (by rw [hpackages, hreaders]; decide)
  refine ⟨c, after, events, hassemble, hmoves, hfree, more, final, hcalls, ?_, hreceived⟩
  rw [htaken, hpackages]
  rfl

end FramedChannel
