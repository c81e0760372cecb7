import Mathlib.Data.List.Basic
import FramedChannel.Package.Reassembly

/-!
# Runs of a reassembly

`Reassembly.decode` repeats passes with a bound on their number.  This module
gives the same as a relation without a bound, `Runs`, for decoders that keep
the rules of `Resumable`.

* `Resumable` says what a decoder owes so that reads can be cut anywhere: a
  wait has no effect that shows later, and an attempt that moves looks at no
  byte behind those it was given.
* `pass_cases` is what one pass can do, and says all of it.
* `runs_decode` says that the bound of `decode` is never met, and
  `Runs.unique` that a run has one result.
-/

namespace FramedChannel

variable {σ π : Type}

/-- An error that decoding may end with: the peer broke the protocol, or used a part of it that is
left out. -/
def Error.IsDecoding : Error → Prop
  | .protocol _ | .notImplemented _ => True
  | _ => False

/-- The attempt used nothing and completed nothing. -/
def Attempt.Waits (a : Attempt σ π) : Prop :=
  a.result = .ok none ∧ a.consumed = 0

/-- The state that reads on behind an attempt that did not fail. -/
def Attempt.behind [PackageDecoder σ π] (a : Attempt σ π) : σ :=
  match PackageDecoder.next? a.state, a.result with
  | some phase, _ => phase
  | none, .ok (some _) => PackageDecoder.reset a.state
  | none, _ => a.state

/-- The attempt uses more than the bytes that waited, if any, or meets a broken protocol. -/
def Attempt.Late [PackageDecoder σ π] (waited : Nat) (a : Attempt σ π) : Prop :=
  match a.result with
  | .error error => ∃ violation, error = .protocol violation
  | .ok _ => PackageDecoder.discards a.state = false ∧ (0 < a.consumed → waited < a.consumed)

/-- What a decoder owes in a state `d` with waiting bytes, so that its packages do not depend on
where reads are cut. -/
structure ResumableAt [PackageDecoder σ π] (Ready : σ → Bytes → Prop) (d : σ) (bytes : Bytes) :
    Prop where
  /-- A wait hands out nothing, and leaves a state that goes on as the old one would. -/
  wait : (PackageDecoder.attempt d bytes).Waits →
    (PackageDecoder.attempt d bytes).replies = [] ∧
      PackageDecoder.next? (PackageDecoder.attempt d bytes).state = none ∧
      Ready (PackageDecoder.attempt d bytes).state bytes ∧
      ∀ more, PackageDecoder.attempt (PackageDecoder.attempt d bytes).state (bytes ++ more) =
        PackageDecoder.attempt d (bytes ++ more)
  /-- An attempt that does not wait has seen all it needs. -/
  move : ¬ (PackageDecoder.attempt d bytes).Waits → PackageDecoder.discards d = false →
    (PackageDecoder.attempt d bytes).consumed ≤ bytes.length ∧
      ∀ more, PackageDecoder.attempt d (bytes ++ more) = PackageDecoder.attempt d bytes
  /-- An attempt that goes well and does not wait uses a byte. -/
  progress : ∀ {package}, (PackageDecoder.attempt d bytes).result = .ok package →
    ¬ (PackageDecoder.attempt d bytes).Waits →
    0 < (PackageDecoder.attempt d bytes).consumed ∧
      Ready (PackageDecoder.attempt d bytes).behind
        (bytes.drop (PackageDecoder.attempt d bytes).consumed)
  /-- What comes of a wait comes late: it needs all the bytes that waited. -/
  late : bytes ≠ [] → (PackageDecoder.attempt d bytes).Waits → ∀ more,
    (PackageDecoder.attempt d (bytes ++ more)).Late bytes.length
  error : ∀ {error}, (PackageDecoder.attempt d bytes).result = .error error → error.IsDecoding

section ResumableAt

variable [PackageDecoder σ π] {Ready : σ → Bytes → Prop} {d : σ} {bytes : Bytes}

/-- What is left to show of an attempt that waits. -/
theorem ResumableAt.of_waits (hwaits : (PackageDecoder.attempt d bytes).Waits)
    (hreplies : (PackageDecoder.attempt d bytes).replies = [])
    (hnext : PackageDecoder.next? (PackageDecoder.attempt d bytes).state = none)
    (hready : Ready (PackageDecoder.attempt d bytes).state bytes)
    (hsame : ∀ more, PackageDecoder.attempt (PackageDecoder.attempt d bytes).state (bytes ++ more) =
      PackageDecoder.attempt d (bytes ++ more))
    (hlate : bytes ≠ [] → ∀ more, (PackageDecoder.attempt d (bytes ++ more)).Late bytes.length) :
    ResumableAt Ready d bytes where
  wait _ := ⟨hreplies, hnext, hready, hsame⟩
  move hmoves := absurd hwaits hmoves
  progress _ hmoves := absurd hwaits hmoves
  late hne _ := hlate hne
  error herror := by
    rw [hwaits.1] at herror
    cases herror

/-- What is left to show of an attempt that does not wait. -/
theorem ResumableAt.of_moves (hmoves : ¬ (PackageDecoder.attempt d bytes).Waits)
    (hle : (PackageDecoder.attempt d bytes).consumed ≤ bytes.length)
    (hsame : PackageDecoder.discards d = false →
      ∀ more, PackageDecoder.attempt d (bytes ++ more) = PackageDecoder.attempt d bytes)
    (hprogress : ∀ package, (PackageDecoder.attempt d bytes).result = .ok package →
      0 < (PackageDecoder.attempt d bytes).consumed ∧
        Ready (PackageDecoder.attempt d bytes).behind
          (bytes.drop (PackageDecoder.attempt d bytes).consumed))
    (herror : ∀ error, (PackageDecoder.attempt d bytes).result = .error error → error.IsDecoding) :
    ResumableAt Ready d bytes where
  wait hwaits := absurd hwaits hmoves
  move _ hkeeps := ⟨hle, hsame hkeeps⟩
  progress hresult _ := hprogress _ hresult
  late _ hwaits := absurd hwaits hmoves
  error := herror _

end ResumableAt

/-- A state that throws bytes away: it uses all that it is given, and stays as it is. -/
structure Discarding [PackageDecoder σ π] (d : σ) : Prop where
  discards : PackageDecoder.discards d = true
  next : PackageDecoder.next? d = none
  attempt : ∀ bytes, PackageDecoder.attempt d bytes = .progress d bytes.length

/-- A decoder whose reads can be cut anywhere.  `Ready d bytes` is the invariant of its states and
of the bytes that wait. -/
structure Resumable [PackageDecoder σ π] (Ready : σ → Bytes → Prop) : Prop where
  extend : ∀ {d bytes}, Ready d bytes → ∀ more, Ready d (bytes ++ more)
  resumableAt : ∀ {d bytes}, Ready d bytes → ResumableAt Ready d bytes
  discard : ∀ {d bytes}, Ready d bytes → PackageDecoder.discards d = true → Discarding d

namespace Reassembly

variable [PackageDecoder σ π] {r s t : Reassembly σ} {items others : List (Item π)}
  {verdict : Verdict}

/-- The attempt that a pass makes. -/
def trial (r : Reassembly σ) : Attempt σ π :=
  PackageDecoder.attempt r.decoder r.pending.bytes

/-- The reassembly that reads on behind an attempt that did not fail. -/
def behind (r : Reassembly σ) (a : Attempt σ π) : Reassembly σ :=
  { r with
    pending := r.pending.discard a.consumed
    decoder := a.behind
    switches := r.switches + (PackageDecoder.next? a.state).toList.length }

/-- What an attempt that went well hands out. -/
def handedOut (a : Attempt σ π) (package : Option π) : List (Item π) :=
  a.replies.map .reply ++ package.toList.map .package

/-! ## One pass -/

theorem pass_of_error {error : Error} (h : r.trial.result = .error error) :
    r.pass =
      (r.trial.replies.map .reply, .failed error, { r with decoder := r.trial.state }) := by
  unfold trial at h ⊢
  simp only [pass, conclude, h]

theorem pass_of_exceeds {package : Option π} (h : r.trial.result = .ok package)
    (hlimit : r.exceeds r.trial = true) :
    r.pass =
      (r.trial.replies.map .reply,
        .failed (.protocol (.packageTooLong (r.measured r.trial) r.limit)),
        { r with decoder := r.trial.state }) := by
  unfold trial at h hlimit ⊢
  simp only [pass, conclude, h, hlimit, if_true]

theorem pass_of_waits (h : r.trial.Waits)
    (hnext : PackageDecoder.next? r.trial.state = none)
    (hlimit : r.exceeds r.trial = false) :
    r.pass =
      (r.trial.replies.map .reply, .waiting,
        { r with decoder := r.trial.state, pending := r.pending.discard 0 }) := by
  obtain ⟨hresult, hconsumed⟩ := h
  unfold trial at hresult hconsumed hnext hlimit ⊢
  simp only [pass, conclude, hresult, hlimit, hnext, hconsumed, Bool.false_eq_true, if_true,
    if_false]

theorem pass_of_moves {package : Option π} (h : r.trial.result = .ok package)
    (hmoves : 0 < r.trial.consumed) (hlimit : r.exceeds r.trial = false) :
    r.pass = (handedOut r.trial package, .again, r.behind r.trial) := by
  have hused : ¬ r.trial.consumed = 0 := by omega
  unfold trial at h hused hlimit ⊢
  cases hnext : PackageDecoder.next? (PackageDecoder.attempt r.decoder r.pending.bytes).state <;>
    cases package <;>
    simp [pass, conclude, h, hlimit, hnext, hused, behind, Attempt.behind, handedOut]

/-- What a pass hands out that does not go past the limit. -/
theorem items_pass_of_ok {package : Option π} (h : r.trial.result = .ok package)
    (hlimit : r.exceeds r.trial = false) : r.pass.1 = handedOut r.trial package := by
  unfold trial at h hlimit ⊢
  cases hnext : PackageDecoder.next? (PackageDecoder.attempt r.decoder r.pending.bytes).state <;>
    cases package <;> simp [pass, conclude, h, hlimit, hnext, handedOut]

variable {Ready : σ → Bytes → Prop} (law : Resumable Ready)

include law

/-- All that a pass can do. -/
theorem pass_cases (hready : Ready r.decoder r.pending.bytes) :
    (∃ error, r.trial.result = .error error ∧
      r.pass =
        (r.trial.replies.map .reply, .failed error, { r with decoder := r.trial.state })) ∨
    (∃ package, r.trial.result = .ok package ∧ r.exceeds r.trial = true ∧
      r.pass =
        (r.trial.replies.map .reply,
          .failed (.protocol (.packageTooLong (r.measured r.trial) r.limit)),
          { r with decoder := r.trial.state })) ∨
    (r.trial.Waits ∧ r.exceeds r.trial = false ∧
      r.pass =
        ([], .waiting, { r with decoder := r.trial.state, pending := r.pending.discard 0 })) ∨
    ∃ package, r.trial.result = .ok package ∧ 0 < r.trial.consumed ∧
      r.exceeds r.trial = false ∧
      r.pass = (handedOut r.trial package, .again, r.behind r.trial) := by
  cases hresult : r.trial.result with
  | error error => exact .inl ⟨error, rfl, pass_of_error hresult⟩
  | ok package =>
    right
    cases hlimit : r.exceeds r.trial with
    | true => exact .inl ⟨package, rfl, rfl, pass_of_exceeds hresult hlimit⟩
    | false =>
      right
      by_cases hwaits : r.trial.Waits
      · obtain ⟨hreplies, hnext, _⟩ := (law.resumableAt hready).wait hwaits
        have hpass := pass_of_waits hwaits hnext hlimit
        rw [show r.trial.replies = [] from hreplies] at hpass
        exact .inl ⟨hwaits, rfl, hpass⟩
      · obtain ⟨hmoves, _⟩ := (law.resumableAt hready).progress hresult hwaits
        exact .inr ⟨package, rfl, hmoves, rfl, pass_of_moves hresult hmoves hlimit⟩

/-- Behind a pass that another one follows, the decoder is ready for fewer bytes. -/
theorem ready_of_pass_eq_again (hready : Ready r.decoder r.pending.bytes)
    (hpass : r.pass = (items, .again, s)) :
    Ready s.decoder s.pending.bytes ∧ s.pending.length < r.pending.length := by
  obtain ⟨_, _, h⟩ | ⟨_, _, _, h⟩ | ⟨_, _, h⟩ | ⟨package, hresult, hmoves, _, h⟩ :=
    pass_cases law hready <;> rw [hpass] at h <;> cases h
  have hwaits : ¬ r.trial.Waits := fun hw => by rw [hw.2] at hmoves; omega
  obtain ⟨_, hbehind⟩ := (law.resumableAt hready).progress hresult hwaits
  refine ⟨?_, ?_⟩
  · simpa [behind, trial] using hbehind
  · by_cases hdiscards : PackageDecoder.discards r.decoder
    · -- A decoder that throws bytes away uses all of them.
      have hall : r.trial.consumed = r.pending.length := by
        rw [trial, (law.discard hready hdiscards).attempt, Attempt.progress, Sequence.length_bytes]
      rw [behind, ← Sequence.length_bytes, Sequence.bytes_discard, List.length_drop,
        Sequence.length_bytes]
      omega
    · obtain ⟨hle, _⟩ := (law.resumableAt hready).move hwaits (by simpa using hdiscards)
      rw [Sequence.length_bytes] at hle
      rw [behind, ← Sequence.length_bytes, Sequence.bytes_discard, List.length_drop,
        Sequence.length_bytes]
      have : r.trial.consumed ≤ r.pending.length := hle
      omega

/-- A pass that waits leaves the decoder ready for the bytes that wait. -/
theorem ready_of_pass_eq_waiting (hready : Ready r.decoder r.pending.bytes)
    (hpass : r.pass = (items, .waiting, s)) :
    Ready s.decoder s.pending.bytes := by
  obtain ⟨_, _, h⟩ | ⟨_, _, _, h⟩ | ⟨hwaits, _, h⟩ | ⟨_, _, _, _, h⟩ :=
    pass_cases law hready <;> rw [hpass] at h <;> cases h
  obtain ⟨_, _, hstate, _⟩ := (law.resumableAt hready).wait hwaits
  simpa [trial] using hstate

omit law

/-! ## Runs -/

/-- What passes lead to that follow each other until one is the last. -/
inductive Runs : Reassembly σ → List (Item π) → Verdict → Reassembly σ → Prop where
  | last {r s : Reassembly σ} {items : List (Item π)} {verdict : Verdict}
      (hpass : r.pass = (items, verdict, s)) (hlast : verdict ≠ .again) :
      Runs r items verdict s
  | more {r s t : Reassembly σ} {items others : List (Item π)} {verdict : Verdict}
      (hpass : r.pass = (items, .again, s)) (hrest : Runs s others verdict t) :
      Runs r (items ++ others) verdict t

/-- Passes that another one follows lead from one reassembly to another. -/
inductive Leads : Reassembly σ → List (Item π) → Reassembly σ → Prop where
  | refl (r : Reassembly σ) : Leads r [] r
  | more {r s t : Reassembly σ} {items others : List (Item π)}
      (hpass : r.pass = (items, .again, s)) (hrest : Leads s others t) :
      Leads r (items ++ others) t

theorem leads_of_pass (hpass : r.pass = (items, .again, s)) : Leads r items s := by
  have h := Leads.more hpass (.refl s)
  rwa [List.append_nil] at h

theorem Leads.trans (h : Leads r items s) (h' : Leads s others t) :
    Leads r (items ++ others) t := by
  induction h with
  | refl => exact h'
  | more hpass _ ih =>
    rw [List.append_assoc]
    exact .more hpass (ih h')

theorem Leads.runs (h : Leads r items s) (hrun : Runs s others verdict t) :
    Runs r (items ++ others) verdict t := by
  induction h with
  | refl => exact hrun
  | more hpass _ ih =>
    rw [List.append_assoc]
    exact .more hpass (ih hrun)

theorem Runs.ne_again (h : Runs r items verdict s) : verdict ≠ .again := by
  induction h with
  | last _ hlast => exact hlast
  | more _ _ ih => exact ih

/-- A run has one result. -/
theorem Runs.unique {verdict' : Verdict} (h : Runs r items verdict s)
    (h' : Runs r others verdict' t) : items = others ∧ verdict = verdict' ∧ s = t := by
  induction h generalizing others verdict' t with
  | last hpass hlast =>
    cases h' with
    | last hpass' _ =>
      rw [hpass] at hpass'
      simpa using hpass'
    | more hpass' _ =>
      rw [hpass] at hpass'
      simp only [Prod.mk.injEq] at hpass'
      exact absurd hpass'.2.1 hlast
  | more hpass _ ih =>
    cases h' with
    | last hpass' hlast' =>
      rw [hpass] at hpass'
      simp only [Prod.mk.injEq] at hpass'
      exact absurd hpass'.2.1.symm hlast'
    | more hpass' hrest' =>
      rw [hpass] at hpass'
      simp only [Prod.mk.injEq, true_and] at hpass'
      obtain ⟨rfl, rfl⟩ := hpass'
      obtain ⟨rfl, rfl, rfl⟩ := ih hrest'
      exact ⟨rfl, rfl, rfl⟩

include law

private theorem runs_passes_aux (count : Nat) (hcount : r.pending.length < count)
    (hready : Ready r.decoder r.pending.bytes) :
    Runs r (r.passes count).1 (r.passes count).2.1 (r.passes count).2.2 := by
  induction count generalizing r with
  | zero => omega
  | succ count ih =>
    rw [passes]
    split
    · rename_i items s hpass
      obtain ⟨hready', hfewer⟩ := ready_of_pass_eq_again law hready hpass
      exact .more hpass (ih (by omega) hready')
    · rename_i hlast
      exact .last rfl fun hagain =>
        hlast r.pass.1 r.pass.2.2 (by rw [← hagain])

/-- Decoding never stops for want of passes. -/
theorem runs_decode (hready : Ready r.decoder r.pending.bytes) :
    Runs r r.decode.1 r.decode.2.1 r.decode.2.2 :=
  runs_passes_aux law _ (Nat.lt_succ_self _) hready

theorem decode_eq_of_runs (hready : Ready r.decoder r.pending.bytes)
    (h : Runs r items verdict s) : r.decode = (items, verdict, s) := by
  obtain ⟨hitems, hverdict, hs⟩ := (runs_decode law hready).unique h
  rw [← hitems, ← hverdict, ← hs]

/-- A run that waits leaves the decoder ready for what it left. -/
theorem Runs.ready (h : Runs r items .waiting s) (hready : Ready r.decoder r.pending.bytes) :
    Ready s.decoder s.pending.bytes := by
  generalize hverdict : Verdict.waiting = verdict at h
  induction h with
  | last hpass _ =>
    subst hverdict
    exact ready_of_pass_eq_waiting law hready hpass
  | more hpass _ ih => exact ih (ready_of_pass_eq_again law hready hpass).1 hverdict

end Reassembly

end FramedChannel
