import FramedChannel.Proofs.Channel.Accepted
import FramedChannel.Proofs.Channel.History

/-!
# Sends on their way

A send is on its way from the moment in which it was let in to the one in which
it returns.

* `InFlight` are the sends on their way, in the order in which they get the
  lock.
* `InFlight.proceed` is a step of the first of them: it goes on, or it returns
  with what belongs to its load.
* `InFlight.step` says that any other step of a channel adds the sends that it
  lets in.
-/

namespace FramedChannel

/-- The sends that were let into an outbox and did not return, the one that has the lock first. -/
inductive InFlight (o : Outbox) : List Send → Prop where
  | free (hholder : o.holder = none) (hwaiting : o.waiting = []) (hscratch : o.scratch = []) :
    InFlight o []
  | held {sender : Sender} {load : Load} {holding : Holding}
      (hholder : o.holder = some ⟨sender, holding⟩) (hcarries : Carries load holding)
      (hscratch : o.scratch = []) : InFlight o (⟨sender, load⟩ :: o.waiting)

namespace InFlight

/-- No send is on its way when a channel was just assembled. -/
theorem of_assemble {σ π : Type} [PackageDecoder σ π] {decoder : σ} {options : ConnectionOptions}
    {remote : Option Socket} {c : Channel σ π}
    (h : Channel.assemble decoder options remote = .ok c) : InFlight c.outbox [] := by
  obtain rfl := Channel.eq_of_assemble h
  exact .free rfl rfl rfl

variable {o o' : Outbox} {sends : List Send} {now : Nat} {sender : Sender}
  {progress : Outbox.Progress}

/-- An outbox with the same lock has the same sends on their way. -/
theorem of_same (h : InFlight o sends) (hholder : o'.holder = o.holder)
    (hwaiting : o'.waiting = o.waiting) (hscratch : o'.scratch = o.scratch) :
    InFlight o' sends := by
  cases h with
  | free hfree hnobody hempty =>
    exact .free (hholder.trans hfree) (hwaiting.trans hnobody) (hscratch.trans hempty)
  | held hheld hcarries hempty =>
    rw [← hwaiting]
    exact .held (hholder.trans hheld) hcarries (hscratch.trans hempty)

/-- A send that is let in comes behind all others. -/
theorem enter (h : InFlight o sends) (send : Send) : InFlight (o.enter send) (sends ++ [send]) := by
  cases h with
  | free hfree hnobody hempty =>
    have henter : o.enter send = { o with holder := some ⟨send.sender, .entered send.load⟩ } := by
      simp [Outbox.enter, hfree]
    have hfirst : InFlight (o.enter send) (send :: (o.enter send).waiting) := by
      rw [henter]
      exact .held rfl (.entered send.load) hempty
    rwa [henter, hnobody] at hfirst ⊢
  | held hheld hcarries hempty =>
    have henter : o.enter send = { o with waiting := o.waiting ++ [send] } := by
      simp [Outbox.enter, hheld]
    rw [henter]
    exact .held hheld hcarries hempty

/-- When the lock is passed on, those who waited for it are left. -/
theorem leave (hscratch : o.scratch = []) : InFlight o.leave o.waiting := by
  unfold Outbox.leave
  split
  · rename_i hnobody
    rw [hnobody]
    exact .free rfl rfl hscratch
  · rename_i send rest hnext
    rw [hnext]
    exact .held rfl (.entered send.load) hscratch

/-- A step of the send that has the lock: it goes on without a trace, or it returns, and what it put
in the queue fits its load. -/
theorem proceed (h : InFlight o sends) (hproceed : o.proceed now = some (sender, progress)) :
    ∃ load rest, sends = ⟨sender, load⟩ :: rest ∧
      (progress.sent = none ∧ progress.queued = none ∧ InFlight progress.outbox sends ∨
        ∃ sent, progress.sent = some sent ∧
          (Account.mk ⟨sender, load⟩ progress.queued.toList (some sent)).Exact ∧
          InFlight progress.outbox rest) := by
  unfold Outbox.proceed at hproceed
  cases h with
  | free hfree => simp [hfree] at hproceed
  | @held holder load holding hheld hcarries hempty =>
    simp only [hheld, Option.map_eq_some_iff, Prod.mk.injEq] at hproceed
    obtain ⟨progress', hfrom, rfl, rfl⟩ := hproceed
    refine ⟨load, o.waiting, rfl, ?_⟩
    cases advance_of_proceedFrom hcarries hempty hfrom with
    | stays hcarries' hholder' hwaiting hscratch =>
      refine .inl ⟨rfl, rfl, ?_⟩
      rw [← hwaiting]
      exact .held hholder' hcarries' hscratch
    | returns hexact hwaiting hscratch =>
      refine .inr ⟨_, rfl, hexact, ?_⟩
      rw [← hwaiting]
      exact leave hscratch

/-- Every other step adds what it lets in. -/
theorem step {σ π : Type} [PackageDecoder σ π] {c after : Channel σ π} {events : List (Event π)}
    {action : Action} (h : InFlight c.outbox sends) (hother : action ≠ .proceed)
    (hstep : c.step action = some (events, after)) :
    InFlight after.outbox (sends ++ c.admits action) := by
  obtain ⟨-, heffect⟩ := Channel.step_effect hstep hother
  rcases heffect.lock with ⟨hholder, hwaiting, hscratch, hnone, -⟩ | ⟨send, hone, -, henter⟩
  · rw [hnone, List.append_nil]
    exact h.of_same hholder hwaiting hscratch
  · rw [hone, henter]
    exact h.enter send

end InFlight

end FramedChannel
