import FramedChannel.Proofs.Channel.Effect
import FramedChannel.Proofs.Channel.History

/-!
# The way of a package through a channel

Bytes are read and decoded by the fill loop, which hands packages on to a
queue, from which the consumer takes them.

* `readsOf` are the bytes that some moves read, `takenOf` what the consumer was
  given for them, and `receivedOf` the packages among that.
* `Intake` is the part of a channel that packages go through.
* `Intakes` lists all that a move can do there, and `move_intakes` says that
  the list is complete.  It names the bytes that the move reads, and the item
  that it hands on.
* `packages_of_moves` says what the consumer was given, and what waits for it.
-/

namespace FramedChannel

variable {σ π : Type}

/-! ## What can be seen -/

/-- What was taken from the stream of packages, with `none` for its end. -/
def takenOf (events : List (Event π)) : List (Option π) :=
  events.flatMap fun
    | .received _ package => [package]
    | .collected packages isEnd => packages.map some ++ if isEnd then [none] else []
    | _ => []

@[simp] theorem takenOf_append (events more : List (Event π)) :
    takenOf (events ++ more) = takenOf events ++ takenOf more :=
  List.flatMap_append ..

/-- The packages that were taken from the stream. -/
def receivedOf (events : List (Event π)) : List π :=
  (takenOf events).filterMap id

@[simp] theorem receivedOf_append (events more : List (Event π)) :
    receivedOf (events ++ more) = receivedOf events ++ receivedOf more := by
  simp [receivedOf]

theorem receivedOf_eq_nil {events : List (Event π)} (h : takenOf events = []) :
    receivedOf events = [] := by
  rw [receivedOf, h]
  rfl

/-- The bytes that a move reads. -/
def Move.read : Move → Option Bytes
  | .act (.fill (.read bytes)) => some bytes
  | _ => none

/-- All that some moves read, one read behind the other. -/
def readsOf (moves : List Move) : List Bytes :=
  moves.filterMap Move.read

theorem readsOf_concat (moves : List Move) (move : Move) :
    readsOf (moves ++ [move]) = readsOf moves ++ move.read.toList := by
  cases h : move.read <;> simp [readsOf, h]

/-! ## The fill loop -/

namespace Fill

/-- The items that the loop has yet to hand out. -/
def rest : Fill π → List (Item π)
  | delivering items _ | replying items _ => items
  | reading | ended _ => []

/-- Whether the loop is going to read again. -/
def isOpen : Fill π → Bool
  | reading => true
  | delivering _ ending | replying _ ending => ending.isNone
  | ended _ => false

/-- The loop has no reply to send. -/
structure IsSilent (fill : Fill π) : Prop where
  rest : Reassembly.repliesOf fill.rest = []
  replying : ∀ items ending, fill ≠ .replying items ending

variable (items : List (Item π)) (ending : Option CloseReason)

@[simp] theorem rest_resume : (resume items ending).rest = items := by
  cases items <;> cases ending <;> rfl

@[simp] theorem isOpen_resume : (resume items ending).isOpen = ending.isNone := by
  cases items <;> cases ending <;> rfl

theorem resume_ne_ended_none : resume items ending ≠ .ended none := by
  cases items <;> cases ending <;> simp [resume]

theorem resume_ne_replying {rest : List (Item π)} {reason : Option CloseReason} :
    resume items ending ≠ .replying rest reason := by
  cases items <;> cases ending <;> simp [resume]

theorem isSilent_resume {items : List (Item π)} (h : Reassembly.repliesOf items = []) :
    (resume items ending).IsSilent := by
  exact ⟨by rw [rest_resume, h], fun _ _ => resume_ne_replying items ending⟩

theorem rest_of_over {fill : Fill π} (h : fill.isOver = true) : fill.rest = [] := by
  cases fill with
  | ended reason => rfl
  | _ => cases h

theorem isSilent_of_over {fill : Fill π} (h : fill.isOver = true) : fill.IsSilent := by
  cases fill with
  | ended reason => exact ⟨rfl, by simp⟩
  | _ => cases h

end Fill

namespace Channel

/-- The part of a channel that packages go through. -/
structure Intake (σ π : Type) where
  reassembly : Reassembly σ
  fill : Fill π
  packages : List π
  consumer : Consumer
  readers : List Nat

/-- The way of packages through a channel. -/
def intake (c : Channel σ π) : Intake σ π :=
  ⟨c.reassembly, c.fill, c.packages, c.consumer, c.readers⟩

variable {c after : Channel σ π} {events : List (Event π)}

/-- The item that a move of the fill loop hands on: a reply that goes to the outbox, or a package
that goes to the consumer. -/
def offered (c : Channel σ π) : Move → Option (Item π)
  | .act (.fill .reply) =>
    match c.fill with
    | .delivering (.reply bytes :: _) _ => if c.isClosing then none else some (.reply bytes)
    | _ => none
  | .act (.fill .deliver) =>
    match c.fill with
    | .delivering (.package package :: _) _ => if c.isUnread then none else some (.package package)
    | _ => none
  | _ => none

/-- What a move does to the intake of a channel that reads the given bytes, if any, and hands the
given item on, if any. -/
inductive Intakes [PackageDecoder σ π] (c after : Channel σ π) :
    Option Bytes → Option (Item π) → List (Event π) → Prop where
  | reads (bytes : Bytes) (hfill : c.fill = .reading) (hwet : c.isDry = false)
      (hafter : after.intake = { c.intake with
        reassembly := (c.reassembly.extend bytes).decode.2.2
        fill := filled (c.reassembly.extend bytes).decode.1
          (c.reassembly.extend bytes).decode.2.1 }) :
      Intakes c after (some bytes) none []
  | ends (reason : CloseReason) (hfill : c.fill = .reading) (hwet : c.isDry = false)
      (hafter : after.intake = { c.intake with fill := .ended (some reason) }) :
      Intakes c after none none []
  /-- The fill loop sees that the channel is cancelled. -/
  | stops (hclosing : after.isClosing) (hwet : c.isDry = false)
      (hafter : after.intake = { c.intake with fill := .ended none }) :
      Intakes c after none none []
  /-- The next item is a reply, and goes to the outbox. -/
  | offers {bytes : Bytes} {rest : List (Item π)} {ending : Option CloseReason}
      (hfill : c.fill = .delivering (.reply bytes :: rest) ending)
      (hafter : after.intake = { c.intake with fill := .replying rest ending }) :
      Intakes c after none (some (.reply bytes)) []
  /-- The next item is a reply, and the channel is closing. -/
  | withholds {bytes : Bytes} {rest : List (Item π)} {ending : Option CloseReason}
      (hfill : c.fill = .delivering (.reply bytes :: rest) ending)
      (hafter : after.intake = { c.intake with fill := .ended none }) :
      Intakes c after none none [.returned .reply (.failed .channelClosed)]
  /-- The reply was sent. -/
  | answers {rest : List (Item π)} {ending : Option CloseReason} {before : Nat}
      {events : List (Event π)} (hfill : c.fill = .replying rest ending)
      (hevents : takenOf events = []) (hsent : (.reply, .done before) ∈ returnsOf events)
      (hafter : after.intake = { c.intake with fill := .resume rest ending }) :
      Intakes c after none none events
  /-- The reply could not be sent. -/
  | breaks {rest : List (Item π)} {ending : Option CloseReason} {events : List (Event π)}
      (hfill : c.fill = .replying rest ending) (hevents : takenOf events = [])
      (hafter : after.intake = { c.intake with fill := .ended none }) :
      Intakes c after none none events
  | hands {package : π} {rest : List (Item π)} {ending : Option CloseReason}
      (hfill : c.fill = .delivering (.package package :: rest) ending)
      (hread : c.isUnread = false) (hwet : c.isDry = false)
      (hafter : after.intake = { c.intake with
        packages := c.packages ++ [package], fill := .resume rest ending }) :
      Intakes c after none (some (.package package)) []
  /-- Nobody is there to take a package. -/
  | discards {package : π} {rest : List (Item π)} {ending : Option CloseReason}
      (hfill : c.fill = .delivering (.package package :: rest) ending)
      (hunread : c.isUnread = true) (hwet : c.isDry = false)
      (hafter : after.intake = { c.intake with fill := .resume rest ending }) :
      Intakes c after none none []
  | gives {call : Nat} {readers : List Nat} {package : π} {packages : List π}
      (hreaders : c.readers = call :: readers) (hpackages : c.packages = package :: packages)
      (hafter : after.intake = { c.intake with readers, packages }) :
      Intakes c after none none [.received call (some package)]
  | finishes {call : Nat} {readers : List Nat} (hreaders : c.readers = call :: readers)
      (hpackages : c.packages = []) (hdry : c.isDry = true)
      (hafter : after.intake = { c.intake with readers }) :
      Intakes c after none none [.received call none]
  | collects (hheld : c.isHeld = true) (hafter : after.intake = { c.intake with packages := [] }) :
      Intakes c after none none [.collected c.packages c.isDry]
  /-- A consumer comes, makes a call or goes, or nothing happens here at all. -/
  | attends {events : List (Event π)} (hevents : takenOf events = [])
      (hunread : c.isUnread = true → after.isUnread = true)
      (hafter : after.intake = { c.intake with
        consumer := after.consumer, readers := after.readers }) :
      Intakes c after none none events

/-- Who has the stream can read. -/
theorem isUnread_of_held (h : c.isHeld = true) : c.isUnread = false := by
  simp only [isHeld, beq_iff_eq] at h
  simp [isUnread, h]

variable [PackageDecoder σ π]

/-- The consumer is given what waits longest, and what is handed on waits behind the others. -/
theorem Intakes.packages {read : Option Bytes} {item : Option (Item π)}
    (h : Intakes c after read item events) :
    receivedOf events ++ after.packages = c.packages ++ Reassembly.packagesOf item.toList := by
  have hsame : ∀ {events : List (Event π)}, takenOf events = [] → after.packages = c.packages →
      receivedOf events ++ after.packages = c.packages ++ [] := by
    intro events htaken hpackages
    rw [receivedOf_eq_nil htaken, hpackages, List.nil_append, List.append_nil]
  cases h with
  | reads _ _ _ hafter | ends _ _ _ hafter | stops _ _ hafter | offers _ hafter
  | withholds _ hafter | discards _ _ _ hafter =>
    exact hsame rfl (congrArg Intake.packages hafter)
  | answers _ hevents _ hafter | breaks _ hevents hafter | attends hevents _ hafter =>
    exact hsame hevents (congrArg Intake.packages hafter)
  | hands _ _ _ hafter => exact congrArg Intake.packages hafter
  | gives _ hpackages hafter =>
    rw [show after.packages = _ from congrArg Intake.packages hafter, hpackages]
    exact (List.append_nil _).symm
  | finishes _ _ _ hafter =>
    rw [show after.packages = _ from congrArg Intake.packages hafter]
    exact (List.append_nil _).symm
  | collects _ hafter =>
    rw [show after.packages = [] from congrArg Intake.packages hafter]
    cases c.isDry <;> simp [receivedOf, takenOf, Reassembly.packagesOf]

/-- A move that leaves the intake alone. -/
theorem Intakes.of_same (hevents : takenOf events = []) (hafter : after.intake = c.intake) :
    Intakes c after none none events := by
  have hconsumer : after.consumer = c.consumer := congrArg Intake.consumer hafter
  have hreaders : after.readers = c.readers := congrArg Intake.readers hafter
  refine .attends hevents ?_ ?_
  · rw [isUnread, isUnread, hconsumer, hreaders]
    exact id
  · rw [hafter, hconsumer, hreaders]
    rfl

theorem stepFill_intakes {action : FillAction} (hstarted : c.isStarted = true)
    (h : c.stepFill action = some (events, after)) :
    Intakes c after (Move.act (.fill action)).read (c.offered (.act (.fill action))) events := by
  have hwet : c.fill.isOver = false → c.isDry = false := by
    simp only [isStarted, beq_iff_eq] at hstarted
    intro hfill
    simp [isDry, hstarted, hfill]
  cases action with
  | read bytes =>
    simp only [stepFill] at h
    split at h
    · rename_i hfill
      split at h
      · cases h
        exact .reads bytes hfill (hwet (by rw [hfill]; rfl)) rfl
      · cases h
    · cases h
  | finish | fail _ =>
    simp only [stepFill] at h
    split at h
    · rename_i hfill
      cases h
      exact .ends _ hfill (hwet (by rw [hfill]; rfl)) rfl
    · cases h
  | overflow =>
    simp only [stepFill] at h
    split at h
    · rename_i hfill
      split at h <;> cases h
      exact .ends _ hfill (hwet (by rw [hfill]; rfl)) rfl
    · cases h
  | stop =>
    simp only [stepFill] at h
    split at h
    · rename_i hfill
      split at h
      · rename_i hclosing
        cases h
        exact .stops hclosing (hwet (by rw [hfill]; rfl)) rfl
      · cases h
    · rename_i hfill
      split at h
      · rename_i hclosing
        cases h
        exact .stops hclosing (hwet (by rw [hfill]; rfl)) rfl
      · cases h
    · cases h
  | deliver =>
    simp only [stepFill] at h
    split at h
    · rename_i package rest ending hfill
      have hoffered : c.offered (.act (.fill .deliver)) =
          if c.isUnread then none else some (.package package) := by
        simp only [offered, hfill]
      rw [hoffered]
      split at h
      · rename_i hunread
        rw [if_pos hunread]
        cases h
        exact .discards hfill hunread (hwet (by rw [hfill]; rfl)) rfl
      · rename_i hread
        rw [if_neg hread]
        split at h
        · cases h
          exact .hands hfill (by simpa using hread) (hwet (by rw [hfill]; rfl)) rfl
        · cases h
    · cases h
  | reply =>
    simp only [stepFill] at h
    split at h
    · rename_i bytes rest ending hfill
      have hoffered : c.offered (.act (.fill .reply)) =
          if c.isClosing then none else some (.reply bytes) := by
        simp only [offered, hfill]
      rw [hoffered]
      split at h
      · rename_i hclosing
        rw [if_pos hclosing]
        cases h
        exact .withholds hfill rfl
      · rename_i hopen
        rw [if_neg hopen]
        cases h
        exact .offers hfill rfl
    · cases h

theorem replied_intakes (c : Channel σ π) (outbox : Outbox) {sent : Sent}
    (hevents : takenOf events = []) (hsent : (.reply, sent) ∈ returnsOf events) :
    Intakes c ({ c with outbox }.replied sent) none none events := by
  cases hfill : c.fill with
  | replying rest ending =>
    cases sent with
    | done before =>
      refine .answers hfill hevents hsent ?_
      simp [replied, hfill, intake]
    | failed error =>
      refine .breaks hfill hevents ?_
      simp [replied, hfill, intake]
  | _ =>
    refine .of_same hevents ?_
    simp [replied, hfill, intake]

theorem stepSend_intakes (h : c.stepSend = some (events, after)) :
    Intakes c after none none events := by
  unfold stepSend at h
  split at h
  · cases h
  · rename_i sender progress hproceed
    have htaken : ∀ sent : List (Event π), takenOf sent = [] →
        takenOf ((progress.queued.map (.queued sender)).toList ++ sent) = [] := by
      intro sent hsent
      rw [takenOf_append, hsent]
      cases progress.queued <;> rfl
    dsimp only at h
    split at h
    · cases h
      have hqueued := htaken [] rfl
      rw [List.append_nil] at hqueued
      exact .of_same hqueued rfl
    · rename_i sent _
      cases h
      split
      · rename_i hreply
        refine replied_intakes c progress.outbox (htaken _ rfl) ?_
        rw [returnsOf_append, hreply, List.mem_append]
        exact .inr List.mem_cons_self
      · exact .of_same (htaken _ rfl) rfl

theorem stepReader_intakes (h : c.stepReader = some (events, after)) :
    Intakes c after none none events := by
  unfold stepReader at h
  split at h
  · rename_i hreaders hpackages
    cases h
    exact .gives hreaders hpackages rfl
  · rename_i hreaders hpackages
    split at h
    · rename_i hdry
      cases h
      exact .finishes hreaders hpackages hdry rfl
    · cases h
  · cases h

theorem stepDrain_intakes {action : DrainAction} (h : c.stepDrain action = some (events, after)) :
    Intakes c after none none events := by
  cases action with
  | take =>
    simp only [stepDrain] at h
    repeat' split at h
    all_goals cases h
    refine .of_same rfl ?_
    unfold beginBatch
    split <;> rfl
  | _ =>
    simp only [stepDrain] at h
    repeat' split at h
    all_goals cases h
    all_goals exact .of_same rfl rfl

omit [PackageDecoder σ π] in
theorem takenOf_finish (c : Channel σ π) : takenOf c.finish.1 = [] := by
  unfold finish
  dsimp only
  split <;> rfl

omit [PackageDecoder σ π] in
/-- An attempt to close has nothing to do with packages. -/
theorem intake_abort (c : Channel σ π) (reason : CloseReason) :
    takenOf (c.abort reason).1 = [] ∧ (c.abort reason).2.intake = c.intake := by
  unfold abort
  dsimp only
  split
  · exact ⟨takenOf_finish _, rfl⟩
  · exact ⟨rfl, rfl⟩

theorem stepSupervisor_intakes (h : c.stepSupervisor = some (events, after)) :
    Intakes c after none none events := by
  unfold stepSupervisor at h
  split at h
  · cases h
    exact .of_same rfl rfl
  · rw [Option.some.injEq] at h
    have hevents := takenOf_finish { c with supervisor := .ended }
    rw [h] at hevents
    refine .of_same hevents ?_
    have hafter : { c with supervisor := .ended }.finish.2 = after := congrArg Prod.snd h
    rw [← hafter]
    rfl
  · cases h

/-- What running does is done to the consumer alone. -/
theorem run_intakes (c : Channel σ π) (hevents : takenOf events = []) :
    Intakes c c.run.2 none none events := by
  have hstart : c.start.2.intake = c.intake := by
    unfold start
    split <;> rfl
  unfold run
  split
  · rename_i hunclaimed
    have hread : c.isUnread = false := by simp [isUnread, hunclaimed]
    split <;> rename_i started hstarted <;> rw [hstarted] at hstart
    · refine .attends hevents (by simp [hread]) ?_
      rw [← hstart]
      rfl
    · refine .attends hevents (by simp [hread]) ?_
      rw [← hstart]
      rfl
  · exact .of_same hevents rfl

theorem next_intakes (call : Nat) (hheld : c.isHeld = true) :
    Intakes c (c.next call) none none [] := by
  refine .attends rfl ?_ rfl
  simp [isUnread_of_held hheld]

/-- Every move does one of these things. -/
theorem move_intakes {move : Move} (h : c.move move = some (events, after)) :
    Intakes c after move.read (c.offered move) events := by
  cases move with
  | giveUp call =>
    cases h
    exact .of_same rfl rfl
  | act action =>
    change c.step action = some (events, after) at h
    cases action with
    | start =>
      simp only [step, start] at h
      split at h <;> cases h <;> exact .of_same rfl rfl
    | run =>
      simp only [step, Option.some.injEq, Prod.mk.injEq] at h
      obtain ⟨rfl, rfl⟩ := h
      exact run_intakes c rfl
    | release =>
      simp only [step] at h
      split at h <;> cases h
      refine .attends rfl ?_ rfl
      simp [isUnread, release]
    | abort reason =>
      obtain ⟨hevents, hafter⟩ := intake_abort c reason
      rw [show c.abort reason = (events, after) from Option.some.inj h] at hevents hafter
      exact .of_same hevents hafter
    | close call reason =>
      obtain ⟨hevents, hafter⟩ := intake_abort c reason
      simp only [step, close, Option.some.injEq, Prod.mk.injEq] at h
      obtain ⟨rfl, rfl⟩ := h
      exact .of_same hevents hafter
    | send send =>
      simp only [step, Channel.send, Option.some.injEq] at h
      split at h <;> cases h <;> exact .of_same rfl rfl
    | next call =>
      simp only [step] at h
      split at h <;> cases h
      exact next_intakes call ‹_›
    | collect =>
      simp only [step, collect] at h
      split at h
      · split at h <;> cases h
        · exact .collects ‹_› rfl
        · exact .of_same rfl rfl
      · cases h
    | waitClosed _ | tick _ =>
      cases h
      exact .of_same rfl rfl
    | proceed => exact stepSend_intakes h
    | receive => exact stepReader_intakes h
    | notice call =>
      simp only [step, stepCloser] at h
      repeat' split at h
      all_goals cases h
      exact .of_same rfl rfl
    | fill action =>
      simp only [step] at h
      split at h
      · exact stepFill_intakes ‹_› h
      · cases h
    | drain action =>
      simp only [step] at h
      split at h
      · exact stepDrain_intakes h
      · cases h
    | supervise =>
      simp only [step] at h
      split at h
      · exact stepSupervisor_intakes h
      · cases h

/-- What the consumer was given in some moves, and what waits for it then, is what waited before
and what was handed on. -/
theorem packages_of_moves {moves : List Move} (hmoves : c.moves moves = some (events, after)) :
    ∃ handed, receivedOf events ++ after.packages = c.packages ++ handed ∧
      (.act (.fill .deliver) ∉ moves → handed = []) := by
  refine moves_induction (P := fun moves events after => ∃ handed,
    receivedOf events ++ after.packages = c.packages ++ handed ∧
      (.act (.fill .deliver) ∉ moves → handed = [])) ?_ ?_ hmoves
  · exact ⟨[], (List.append_nil _).symm, fun _ => rfl⟩
  · intro moves events middle move more after _ ⟨handed, hpackages, hnone⟩ hmove
    refine ⟨handed ++ Reassembly.packagesOf (middle.offered move).toList, ?_, ?_⟩
    · rw [receivedOf_append, List.append_assoc, (move_intakes hmove).packages,
        ← List.append_assoc, hpackages, List.append_assoc]
    · intro hother
      rw [List.mem_append, not_or, List.mem_singleton] at hother
      rw [hnone hother.1, List.nil_append]
      unfold offered
      split
      · split
        · split <;> rfl
        · rfl
      · exact absurd rfl hother.2
      · rfl

end Channel

end FramedChannel
