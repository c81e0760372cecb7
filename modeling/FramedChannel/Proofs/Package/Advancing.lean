import FramedChannel.Proofs.Package.Final

/-!
# Decoding comes to an end

`Reassembly.decode` allows one pass more than there are bytes.  Here the same
loop is told without a bound, as `Loop`, together with the attempts that it
makes, and it ends all the same.

* `Advancing` is what a decoder owes: an attempt that uses nothing completes
  nothing and ends no phase.  It is asked of every state, also of one that an
  error left, together with the bytes that wait there.
* `pass_advances` is one pass, `passes_end` all passes of a call, and
  `Later.ends` any calls.
* `Resumable.advancing` is for decoders that can go on where they failed, as
  those of one phase do.
-/

namespace FramedChannel

open Reassembly

variable {σ π : Type} [PackageDecoder σ π]

/-- What a decoder owes, so that its passes come to an end.  `Kept d bytes` is the invariant of its
states and of the bytes that wait. -/
structure Advancing (Kept : σ → Bytes → Prop) : Prop where
  extend : ∀ {d bytes}, Kept d bytes → ∀ more, Kept d (bytes ++ more)
  /-- A failure leaves the bytes where they are. -/
  failed : ∀ {d bytes}, Kept d bytes → Kept (PackageDecoder.attempt d bytes).state bytes
  /-- An attempt that goes well uses bytes that are there. -/
  used : ∀ {d bytes package}, Kept d bytes →
    (PackageDecoder.attempt d bytes).result = .ok package →
    (PackageDecoder.attempt d bytes).consumed ≤ bytes.length ∧
      Kept (PackageDecoder.attempt d bytes).behind
        (bytes.drop (PackageDecoder.attempt d bytes).consumed)
  /-- One that uses none completes nothing and ends no phase. -/
  idle : ∀ {d bytes package}, Kept d bytes →
    (PackageDecoder.attempt d bytes).result = .ok package →
    (PackageDecoder.attempt d bytes).consumed = 0 →
    package = none ∧ PackageDecoder.next? (PackageDecoder.attempt d bytes).state = none

namespace Reassembly

variable {r s : Reassembly σ} {items : List (Item π)} {verdict : Verdict}

/-! ## The loop -/

/-- Passes, each with its attempt, that follow each other until one is the last. -/
inductive Loop : Reassembly σ → List (Attempt σ π) → List (Item π) → Verdict →
    Reassembly σ → Prop where
  | last {r s : Reassembly σ} {items : List (Item π)} {verdict : Verdict}
      (hpass : r.pass = (items, verdict, s)) (hlast : verdict ≠ .again) :
      Loop r [r.trial] items verdict s
  | more {r s t : Reassembly σ} {attempts : List (Attempt σ π)} {items others : List (Item π)}
      {verdict : Verdict} (hpass : r.pass = (items, .again, s))
      (hrest : Loop s attempts others verdict t) :
      Loop r (r.trial :: attempts) (items ++ others) verdict t

theorem Loop.ne_nil {attempts : List (Attempt σ π)} (h : Loop r attempts items verdict s) :
    attempts ≠ [] := by
  cases h <;> exact List.cons_ne_nil _ _

/-- The loop comes to what `decode` gives, in no more attempts than there are bytes and one.  Each
attempt that another one follows uses a byte. -/
def Ends (r : Reassembly σ) : Prop :=
  ∃ attempts : List (Attempt σ π), Loop r attempts r.decode.1 r.decode.2.1 r.decode.2.2 ∧
    attempts.length ≤ r.pending.length + 1 ∧ ∀ attempt ∈ attempts.dropLast, 0 < attempt.consumed

/-! ## One pass -/

variable {Kept : σ → Bytes → Prop} (law : Advancing Kept)

include law

/-- A pass keeps the invariant, and another one follows only if it used bytes. -/
theorem pass_advances (h : Kept r.decoder r.pending.bytes) (hpass : r.pass = (items, verdict, s)) :
    Kept s.decoder s.pending.bytes ∧
      (verdict = .again →
        0 < r.trial.consumed ∧ s.pending.length + r.trial.consumed = r.pending.length) := by
  have hfailed : Kept r.trial.state r.pending.bytes := law.failed h
  cases hresult : r.trial.result with
  | error error =>
    rw [pass_of_error hresult] at hpass
    cases hpass
    exact ⟨hfailed, Verdict.noConfusion⟩
  | ok package =>
    cases hlimit : r.exceeds r.trial with
    | true =>
      rw [pass_of_exceeds hresult hlimit] at hpass
      cases hpass
      exact ⟨hfailed, Verdict.noConfusion⟩
    | false =>
      obtain ⟨reached, hpass', hverdict⟩ := pass_of_ok hresult hlimit
      rw [hpass'] at hpass
      cases hpass
      obtain ⟨hle, hbehind⟩ := law.used h hresult
      have hle : r.trial.consumed ≤ r.pending.length := by
        rw [← Sequence.length_bytes]
        exact hle
      refine ⟨?_, fun hagain => ⟨?_, ?_⟩⟩
      · rw [behind, Sequence.bytes_discard]
        exact hbehind
      · obtain ⟨hwaiting, _⟩ | ⟨_, hmoves⟩ := hverdict
        · rw [hagain] at hwaiting
          cases hwaiting
        · by_contra hidle
          have hzero : r.trial.consumed = 0 := Nat.eq_zero_of_not_pos hidle
          obtain ⟨rfl, hnext⟩ := law.idle h hresult hzero
          exact hmoves ⟨⟨hresult, hzero⟩, hnext⟩
      · show (r.pending.discard r.trial.consumed).length + r.trial.consumed = _
        rw [← Sequence.length_bytes, Sequence.bytes_discard, List.length_drop,
          Sequence.length_bytes]
        omega

/-! ## One call -/

/-- More passes than there are bytes are enough. -/
theorem passes_end {count : Nat} (hcount : r.pending.length < count)
    (h : Kept r.decoder r.pending.bytes) :
    (∃ attempts : List (Attempt σ π),
        Loop r attempts (r.passes count).1 (r.passes count).2.1 (r.passes count).2.2 ∧
          attempts.length ≤ r.pending.length + 1 ∧
          ∀ attempt ∈ attempts.dropLast, 0 < attempt.consumed) ∧
      Kept (r.passes count).2.2.decoder (r.passes count).2.2.pending.bytes := by
  induction count generalizing r with
  | zero => omega
  | succ count ih =>
    rw [passes]
    split
    · rename_i items s hpass
      obtain ⟨hkept, hagain⟩ := pass_advances law h hpass
      obtain ⟨hpos, hfewer⟩ := hagain rfl
      obtain ⟨⟨attempts, hloop, hlength, hall⟩, hend⟩ := ih (by omega) hkept
      refine ⟨⟨r.trial :: attempts, .more hpass hloop, ?_, ?_⟩, hend⟩
      · rw [List.length_cons]
        omega
      · rw [List.dropLast_cons_of_ne_nil hloop.ne_nil, List.forall_mem_cons]
        exact ⟨hpos, hall⟩
    · rename_i hlast
      refine ⟨⟨[r.trial], .last rfl ?_, ?_, List.forall_mem_nil _⟩, (pass_advances law h rfl).1⟩
      · exact fun hagain => hlast r.pass.1 r.pass.2.2 (by rw [← hagain])
      · rw [List.length_singleton]
        omega

/-! ## Any calls -/

/-- A reassembly keeps the invariant, whatever is called and whatever that comes to. -/
theorem Later.kept (hlater : Later r s) (h : Kept r.decoder r.pending.bytes) :
    Kept s.decoder s.pending.bytes := by
  have hextend : ∀ {r : Reassembly σ}, Kept r.decoder r.pending.bytes → ∀ segment,
      Kept (r.extend segment).decoder (r.extend segment).pending.bytes := by
    intro r hkept segment
    rw [Reassembly.extend, Sequence.bytes_push]
    exact law.extend hkept segment
  induction hlater with
  | refl => exact h
  | extend _ segment ih => exact hextend ih segment
  | decode _ ih => exact (passes_end law (Nat.lt_succ_self _) ih).2
  | @push s _ segment ih =>
    have hdecode := (passes_end law (Nat.lt_succ_self _) (hextend ih segment)).2
    unfold Reassembly.push
    dsimp only
    split <;> exact hdecode
  | takeReplies _ ih => exact ih

/-- Whatever was called before, decoding ends. -/
theorem Later.ends (hlater : Later r s) (h : Kept r.decoder r.pending.bytes) : s.Ends :=
  (passes_end law (Nat.lt_succ_self _) (hlater.kept law h)).1

end Reassembly

/-! ## Decoders whose reads can be cut anywhere -/

namespace Resumable

variable {Ready : σ → Bytes → Prop} {d : σ} {bytes : Bytes} {package : Option π}

theorem used (law : Resumable Ready) (h : Ready d bytes)
    (hresult : (PackageDecoder.attempt d bytes).result = .ok package) :
    (PackageDecoder.attempt d bytes).consumed ≤ bytes.length ∧
      Ready (PackageDecoder.attempt d bytes).behind
        (bytes.drop (PackageDecoder.attempt d bytes).consumed) := by
  by_cases hwaits : (PackageDecoder.attempt d bytes).Waits
  · obtain ⟨_, hnext, hready, _⟩ := (law.resumableAt h).wait hwaits
    have hbehind : (PackageDecoder.attempt d bytes).behind = (PackageDecoder.attempt d bytes).state := by
      rw [Attempt.behind, hnext, hwaits.1]
    rw [hbehind, hwaits.2]
    exact ⟨Nat.zero_le _, hready⟩
  · refine ⟨?_, ((law.resumableAt h).progress hresult hwaits).2⟩
    by_cases hdiscards : PackageDecoder.discards d
    · -- What is thrown away are all bytes.
      rw [(law.discard h hdiscards).attempt]
      exact Nat.le_refl _
    · exact ((law.resumableAt h).move hwaits (by simpa using hdiscards)).1

theorem idle (law : Resumable Ready) (h : Ready d bytes)
    (hresult : (PackageDecoder.attempt d bytes).result = .ok package)
    (hidle : (PackageDecoder.attempt d bytes).consumed = 0) :
    package = none ∧ PackageDecoder.next? (PackageDecoder.attempt d bytes).state = none := by
  by_cases hwaits : (PackageDecoder.attempt d bytes).Waits
  · refine ⟨?_, ((law.resumableAt h).wait hwaits).2.1⟩
    rw [hwaits.1] at hresult
    exact (Except.ok.inj hresult).symm
  · have hpos := ((law.resumableAt h).progress hresult hwaits).1
    omega

/-- Such a decoder comes to an end, if it can go on where it failed. -/
theorem advancing (law : Resumable Ready)
    (hfailed : ∀ {d bytes}, Ready d bytes → Ready (PackageDecoder.attempt d bytes).state bytes) :
    Advancing Ready where
  extend := law.extend
  failed := hfailed
  used := law.used
  idle := law.idle

end Resumable

/-- A search goes on where it stopped, or behind what it found. -/
theorem Searching.advancing {wrap : Terminated → σ}
    {finish : Terminated → Bytes → Nat → Attempt σ π} (h : Searching wrap finish) :
    Advancing (Searching.Ready wrap) := by
  refine h.resumable.advancing ?_
  rintro d bytes ⟨t, rfl, hready⟩
  rcases hsplit : t.split bytes with ⟨after, _ | ⟨block, used⟩⟩ <;>
    have hafter := (Terminated.split_again hready hsplit).1
  · rw [h.attempt_of_none hsplit]
    exact ⟨after, rfl, hafter⟩
  · rw [h.attempt_of_some hsplit]
    obtain ⟨package, hfinish⟩ | ⟨violation, hfinish⟩ := h.finish after block used <;>
      rw [hfinish] <;> exact ⟨after, rfl, hafter⟩

theorem FixedSize.advancing : Advancing fun d (_ : Bytes) => 0 < FixedSize.size d := by
  refine FixedSize.resumable.advancing ?_
  intro d bytes hsize
  simp only [PackageDecoder.attempt]
  split <;> exact hsize

/-! ## The decoders as they are made -/

theorem LineDecoder.ends {limit : Nat} {r : Reassembly LineDecoder}
    (h : Later (.of {} limit) r) : r.Ends :=
  h.ends searching_line.advancing
    ⟨_, rfl, Terminated.ready_of_scanned_eq_zero (List.cons_ne_nil _ _) rfl⟩

theorem Terminated.ends {limit : Nat} {terminator : Bytes} {t : Terminated}
    (hof : Terminated.of terminator = .ok t) {r : Reassembly Terminated}
    (h : Later (.of t limit) r) : r.Ends := by
  unfold Terminated.of at hof
  split at hof <;> cases hof
  rename_i hempty
  have hne : terminator ≠ [] := by simpa using hempty
  exact h.ends searching_terminated.advancing
    ⟨_, rfl, Terminated.ready_of_scanned_eq_zero hne rfl⟩

theorem FixedSize.ends {limit : Nat} {size : Nat} {d : FixedSize}
    (hof : FixedSize.of size = .ok d) {r : Reassembly FixedSize} (h : Later (.of d limit) r) :
    r.Ends := by
  unfold FixedSize.of at hof
  split at hof <;> cases hof
  rename_i hne
  exact h.ends FixedSize.advancing (Nat.pos_of_ne_zero hne)

end FramedChannel
