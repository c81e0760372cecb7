import FramedChannel.Proofs.Channel.Intake
import FramedChannel.Proofs.Channel.Signal

/-!
# How a channel comes to its end

What a channel closes for is settled when it begins to close.  Until then no
package is lost on its way to the consumer.

* `Closing.IsFor` says for which reason a channel closes, and `moves_isFor` that
  it never changes.
* `move_isFor` is the move with which a channel begins to close.
* `Unheard` says that the consumer has nothing yet when the fill loop is stopped
  without a reason, on a channel whose replies come in front of all packages.
* `Channel.waiting` are the packages that were decoded and not given to the
  consumer, and `Intakes.waiting` says what becomes of them in a move.
-/

namespace FramedChannel

variable {σ π : Type}

/-! ## Reasons -/

namespace Closing

variable {closing : Closing} {reason : CloseReason}

/-- A reason is recorded, and the signal has it if it fired. -/
structure IsFor (closing : Closing) (reason : CloseReason) : Prop where
  recorded : closing.recorded = some reason
  signal : ∀ value, closing.signal = some value → value = reason

/-- Another reason comes too late. -/
theorem IsFor.offer (h : closing.IsFor reason) (offered : Option CloseReason) :
    (closing.offer offered).IsFor reason := by
  refine ⟨?_, ?_⟩
  · rw [recorded_offer, h.recorded]
    rfl
  · rw [signal_offer]
    exact h.signal

theorem recorded_finish (closing : Closing) : closing.finish.recorded = closing.recorded := by
  unfold finish
  split <;> rfl

theorem IsFor.finish (h : closing.IsFor reason) : closing.finish.IsFor reason := by
  refine ⟨(recorded_finish closing).trans h.recorded, ?_⟩
  intro value hvalue
  rw [signal_finish, Option.some.injEq, h.recorded] at hvalue
  cases hsignal : closing.signal with
  | none =>
    rw [hsignal] at hvalue
    exact hvalue.symm
  | some fired =>
    rw [hsignal] at hvalue
    exact hvalue ▸ h.signal fired hsignal

/-- The first reason counts. -/
theorem isFor_offer (reason : CloseReason) : (offer {} (some reason)).IsFor reason :=
  ⟨rfl, nofun⟩

end Closing

namespace Channel

variable {c after : Channel σ π} {events : List (Event π)} {offered : Option CloseReason}
  {reason : CloseReason}

/-- Whatever closes the channel again, the reason stays. -/
theorem Closes.isFor (h : Closes c after offered events) (hfor : c.closing.IsFor reason) :
    after.closing.IsFor reason := by
  cases h with
  | keeps _ hclosing _ =>
    rw [hclosing]
    exact hfor
  | aborts other hclosing =>
    rw [hclosing]
    exact hfor.offer (some other)
  | drops other hclosing _ =>
    rw [hclosing]
    exact (hfor.offer (some other)).finish
  | ends offered hclosing _ =>
    rw [hclosing]
    exact hfor.offer offered
  | finishes hclosing _ _ _ =>
    rw [hclosing]
    exact hfor.finish

/-- The first reason that is offered counts. -/
theorem Closes.isFor_of_fresh (h : Closes c after (some reason) events) (hfresh : c.closing = {}) :
    after.closing.IsFor reason := by
  cases h with
  | aborts _ hclosing | ends _ hclosing _ =>
    rw [hclosing, hfresh]
    exact Closing.isFor_offer reason
  | drops _ hclosing _ =>
    rw [hclosing, hfresh]
    exact (Closing.isFor_offer reason).finish

variable [PackageDecoder σ π]

/-- A channel that has not begun to close does so for the reason that a move offers, and only then.
The fill loop of such a channel was not stopped. -/
theorem move_isFor {move : Move} (hfresh : c.closing = {})
    (hsupervisor : c.supervisor = .watchingFill) (hstopped : c.fill ≠ .ended none) (h : c.move move = some (events, after)) :
    after.closing = {} ∨ ∃ reason, c.offers move = some reason ∧ after.closing.IsFor reason := by
  have hcloses := move_closes h
  generalize c.offers move = offered at hcloses ⊢
  cases offered with
  | some reason => exact .inr ⟨reason, rfl, hcloses.isFor_of_fresh hfresh⟩
  | none =>
    left
    cases hcloses with
    | keeps _ hclosing _ => exact hclosing.trans hfresh
    | ends _ _ hnone => exact absurd (hnone rfl) hstopped
    | finishes _ hwatching _ _ =>
      rw [hsupervisor] at hwatching
      cases hwatching

/-- What a channel closes for never changes. -/
theorem moves_isFor {moves : List Move} (hfor : c.closing.IsFor reason)
    (h : c.moves moves = some (events, after)) : after.closing.IsFor reason :=
  moves_induction (P := fun _ _ after => after.closing.IsFor reason) hfor
    (fun _ hmiddle hmove => (move_closes hmove).isFor hmiddle) h

/-- A channel from its beginning, as long as it has not begun to close. -/
theorem fresh_of_moves {decoder : σ} {options : ConnectionOptions} {remote : Option Socket}
    {moves : List Move} (hassemble : assemble decoder options remote = .ok c)
    (h : c.moves moves = some (events, after)) (hopen : after.isClosing = false) :
    after.closing = {} ∧ after.supervisor = .watchingFill := by
  obtain ⟨hsignalled, hsupervised⟩ := closesOnce_of_moves hassemble h
  obtain ⟨hrecorded, hsignal, _⟩ := hsignalled.fresh hopen
  have hchanges := hsignalled.changes
  rw [hsignal] at hchanges
  refine ⟨?_, hsupervised hopen⟩
  change after.closing.cancelled = false at hopen
  cases hclosing : after.closing with
  | mk recorded cancelled signal changes =>
    rw [hclosing] at hrecorded hopen hsignal hchanges
    subst hrecorded hopen hsignal hchanges
    rfl

/-! ## A fill loop that is stopped -/

/-- Nothing was handed to the consumer when the fill loop is in the midst of a reply, and nothing
when it was stopped on a channel that is open. -/
structure Unheard (c : Channel σ π) (events : List (Event π)) : Prop where
  replying : ∀ items ending, c.fill = .replying items ending → receivedOf events ++ c.packages = []
  stopped : c.fill = .ended none → c.isClosing = true ∨ receivedOf events ++ c.packages = []

omit [PackageDecoder σ π] in
theorem filled_resumes (items : List (Item π)) (verdict : Verdict) :
    ∃ ending, filled items verdict = .resume items ending := by
  unfold filled
  split <;> exact ⟨_, rfl⟩

/-- It stays so, if replies only come in front of all packages. -/
theorem Unheard.intakes {read : Option Bytes} {item : Option (Item π)} {more : List (Event π)}
    (h : Unheard c events) (hintakes : Intakes c after read item more)
    (hclosing : c.isClosing = true → after.isClosing = true)
    (hfirst : ∀ reply rest ending, c.fill = .delivering (.reply reply :: rest) ending →
      receivedOf events ++ c.packages = []) : Unheard after (events ++ more) := by
  have hpackages := hintakes.packages
  have hsame : Reassembly.packagesOf item.toList = [] →
      receivedOf (events ++ more) ++ after.packages = receivedOf events ++ c.packages := by
    intro hitem
    rw [receivedOf_append, List.append_assoc, hpackages, hitem, List.append_nil]
  have hresumed : ∀ items ending, after.fill = .resume items ending →
      Unheard after (events ++ more) := by
    intro items ending hfill
    refine ⟨fun rest reason habsurd => ?_, fun habsurd => ?_⟩
    · exact absurd (hfill.symm.trans habsurd) (Fill.resume_ne_replying items ending)
    · exact absurd (hfill.symm.trans habsurd) (Fill.resume_ne_ended_none items ending)
  cases hintakes with
  | reads bytes _ _ hafter =>
    obtain ⟨ending, hresumes⟩ := filled_resumes (c.reassembly.extend bytes).decode.1
      (c.reassembly.extend bytes).decode.2.1
    exact hresumed _ ending ((congrArg Intake.fill hafter).trans hresumes)
  | ends reason _ _ hafter =>
    have hfill : after.fill = .ended (some reason) := congrArg Intake.fill hafter
    exact ⟨by simp [hfill], by simp [hfill]⟩
  | stops hclosing _ hafter =>
    have hfill : after.fill = .ended none := congrArg Intake.fill hafter
    exact ⟨by simp [hfill], fun _ => .inl hclosing⟩
  | offers hfill hafter =>
    have hfill' : after.fill = .replying _ _ := congrArg Intake.fill hafter
    exact ⟨fun _ _ _ => (hsame rfl).trans (hfirst _ _ _ hfill), by simp [hfill']⟩
  | withholds hfill hafter =>
    have hfill' : after.fill = .ended none := congrArg Intake.fill hafter
    exact ⟨by simp [hfill'], fun _ => .inr ((hsame rfl).trans (hfirst _ _ _ hfill))⟩
  | breaks hfill _ hafter =>
    have hfill' : after.fill = .ended none := congrArg Intake.fill hafter
    exact ⟨by simp [hfill'], fun _ => .inr ((hsame rfl).trans (h.replying _ _ hfill))⟩
  | answers _ _ _ hafter | hands _ _ _ hafter | discards _ _ _ hafter =>
    exact hresumed _ _ (congrArg Intake.fill hafter)
  | gives _ _ hafter | finishes _ _ _ hafter | collects _ hafter | attends _ _ hafter =>
    have hfill : after.fill = c.fill := congrArg Intake.fill hafter
    refine ⟨fun items ending hreplying => ?_, fun hstopped => ?_⟩
    · exact (hsame rfl).trans (h.replying items ending (hfill.symm.trans hreplying))
    · exact (h.stopped (hfill.symm.trans hstopped)).imp hclosing (hsame rfl).trans

/-! ## Packages that wait -/

omit [PackageDecoder σ π] in
/-- The packages that were decoded and not given to the consumer. -/
def waiting (c : Channel σ π) : List π :=
  c.packages ++ Reassembly.packagesOf c.fill.rest

/-- As long as a channel is open and somebody has its stream, packages only go from those that wait
to the consumer, and what is decoded waits behind them, if the fill loop has no reply to send. -/
theorem Intakes.waiting {read : Option Bytes} {item : Option (Item π)}
    (h : Intakes c after read item events) (hopen : after.isClosing = false)
    (hread : c.isUnread = false) (hsilent : c.fill.IsSilent) :
    ∃ decoded, receivedOf events ++ after.waiting = c.waiting ++ decoded := by
  have hpackages := h.packages
  have hsame : Reassembly.packagesOf item.toList = [] →
      Reassembly.packagesOf after.fill.rest = Reassembly.packagesOf c.fill.rest →
        ∃ decoded, receivedOf events ++ after.waiting = c.waiting ++ decoded := by
    intro hitem hrest
    refine ⟨[], ?_⟩
    rw [Channel.waiting, Channel.waiting, hrest, ← List.append_assoc, hpackages, hitem,
      List.append_nil, List.append_nil]
  have hsilent' : ∀ {bytes : Bytes} {rest : List (Item π)} {ending : Option CloseReason},
      c.fill ≠ .delivering (.reply bytes :: rest) ending := by
    intro bytes rest ending hfill
    have hreplies := hsilent.rest
    rw [hfill] at hreplies
    cases hreplies
  cases h with
  | reads bytes hfill _ hafter =>
    refine ⟨Reassembly.packagesOf (c.reassembly.extend bytes).decode.1, ?_⟩
    have hsame : after.packages = c.packages := congrArg Intake.packages hafter
    obtain ⟨ending, hresumes⟩ := filled_resumes (c.reassembly.extend bytes).decode.1
      (c.reassembly.extend bytes).decode.2.1
    have hrest : after.fill.rest = (c.reassembly.extend bytes).decode.1 := by
      rw [show after.fill = _ from congrArg Intake.fill hafter, hresumes, Fill.rest_resume]
    have hnone : c.fill.rest = [] := congrArg Fill.rest hfill
    rw [Channel.waiting, Channel.waiting, hsame, hrest, hnone]
    exact congrArg (· ++ _) (List.append_nil c.packages).symm
  | ends _ hfill _ hafter =>
    refine hsame rfl ?_
    rw [show after.fill = _ from congrArg Intake.fill hafter, hfill]
    rfl
  | stops hclosing _ _ =>
    rw [hopen] at hclosing
    cases hclosing
  | offers hfill _ | withholds hfill _ => exact absurd hfill hsilent'
  | answers hfill _ _ _ | breaks hfill _ _ => exact absurd hfill (hsilent.replying _ _)
  | @hands package rest ending hfill _ _ hafter =>
    refine ⟨[], ?_⟩
    have hbehind : after.packages = c.packages ++ [package] := congrArg Intake.packages hafter
    have hrest : after.fill.rest = rest :=
      (congrArg Fill.rest (congrArg Intake.fill hafter)).trans (Fill.rest_resume rest ending)
    rw [Channel.waiting, Channel.waiting, hbehind, hrest, hfill, List.append_nil,
      List.append_assoc]
    rfl
  | discards _ hunread _ _ =>
    rw [hread] at hunread
    cases hunread
  | gives _ _ hafter | finishes _ _ _ hafter | collects _ hafter | attends _ _ hafter =>
    exact hsame rfl (by rw [show after.fill = c.fill from congrArg Intake.fill hafter])

end Channel

end FramedChannel
