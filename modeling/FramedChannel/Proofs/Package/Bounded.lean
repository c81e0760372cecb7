import FramedChannel.Proofs.Package.Plain
import FramedChannel.Proofs.Text.Utf8

/-!
# Limits

A reassembly with a limit keeps no more bytes than the limit allows behind a
call of `decode` that did not fail, and hands out no longer package.

* `Bounding` is what a decoder owes, where a package's size is what it takes of
  the limit.  It is asked of every state, also of one that an error left.
* `pass_within` is one pass, `passes_within` all passes of a call.  The measure
  that falls is `work`, so the passes that `decode` allows are enough.
* `Later` are the reassemblies that any calls lead to, and `Later.within` is
  the result.
* `Searching.bounding` and `FixedSize.bounding` settle the decoders of one
  phase.
-/

namespace FramedChannel

open Reassembly

variable {σ π : Type} [PackageDecoder σ π]

/-- What an attempt from state `d` owes to a limit. -/
structure Attempt.Fits (size : π → Nat) (limit : Nat) (d : σ) (bytes : Bytes) (a : Attempt σ π) :
    Prop where
  /-- It uses bytes that are there. -/
  used : ∀ {package}, a.result = .ok package → a.consumed ≤ bytes.length
  /-- If it uses nothing, it completes nothing and ends no phase. -/
  idle : ∀ {package}, a.result = .ok package → a.consumed = 0 →
    package = none ∧ ((PackageDecoder.next? a.state).isSome → (PackageDecoder.next? d).isSome)
  /-- A package is not longer than what was used for it, or what was let in before. -/
  package : ∀ {package}, a.result = .ok (some package) → PackageDecoder.discards a.state = false ∧
    (a.consumed ≤ limit → size package ≤ limit)
  /-- What throws bytes away throws all of them away. -/
  discards : PackageDecoder.discards a.state = true → a.consumed = bytes.length

/-- What a decoder owes, so that a limit bounds what is kept and handed out.  `Kept` is the
invariant of its states, which failures keep as well. -/
structure Bounding (size : π → Nat) (limit : Nat) (Kept : σ → Prop) : Prop where
  attempt : ∀ {d}, Kept d → ∀ bytes, Kept (PackageDecoder.attempt d bytes).state ∧
    (PackageDecoder.attempt d bytes).Fits size limit d bytes
  next : ∀ {d phase}, Kept d → PackageDecoder.next? d = some phase →
    Kept phase ∧ PackageDecoder.next? phase = none
  reset : ∀ {d}, Kept d → PackageDecoder.next? d = none →
    Kept (PackageDecoder.reset d) ∧ PackageDecoder.next? (PackageDecoder.reset d) = none

section Fits

variable {size : π → Nat} {limit used : Nat} {d after : σ} {bytes : Bytes} {a : Attempt σ π}

theorem fits_needMore
    (hnext : (PackageDecoder.next? after).isSome → (PackageDecoder.next? d).isSome)
    (hkeeps : PackageDecoder.discards after = false) :
    (Attempt.needMore after : Attempt σ π).Fits size limit d bytes where
  used _ := Nat.zero_le _
  idle hresult _ := by
    cases hresult
    exact ⟨rfl, hnext⟩
  package hresult := by cases hresult
  discards hdiscards := by
    rw [Attempt.needMore, hkeeps] at hdiscards
    cases hdiscards

theorem fits_fail {error : Error} (hkeeps : PackageDecoder.discards after = false) :
    (Attempt.fail after used error : Attempt σ π).Fits size limit d bytes where
  used hresult := by cases hresult
  idle hresult _ := by cases hresult
  package hresult := by cases hresult
  discards hdiscards := by
    rw [Attempt.fail, hkeeps] at hdiscards
    cases hdiscards

theorem fits_of_moves (hpos : 0 < a.consumed) (hle : a.consumed ≤ bytes.length)
    (hkeeps : PackageDecoder.discards a.state = false)
    (hpackage : ∀ package, a.result = .ok (some package) → a.consumed ≤ limit →
      size package ≤ limit) : a.Fits size limit d bytes where
  used _ := hle
  idle _ hidle := absurd hidle (Nat.pos_iff_ne_zero.1 hpos)
  package hresult := ⟨hkeeps, hpackage _ hresult⟩
  discards hdiscards := by
    rw [hkeeps] at hdiscards
    cases hdiscards

end Fits

namespace Reassembly

variable {r s : Reassembly σ} {items : List (Item π)} {verdict : Verdict} {package : Option π}

/-! ## One pass -/

/-- A pass that neither the decoder nor the limit ends. -/
theorem pass_of_ok (hresult : r.trial.result = .ok package) (hlimit : r.exceeds r.trial = false) :
    ∃ verdict, r.pass = (handedOut r.trial package, verdict, r.behind r.trial) ∧
      (verdict = .waiting ∧ r.trial.Waits ∧ PackageDecoder.next? r.trial.state = none ∨
        verdict = .again ∧ ¬ (r.trial.Waits ∧ PackageDecoder.next? r.trial.state = none)) := by
  unfold trial at hresult hlimit ⊢
  unfold Attempt.Waits
  by_cases hidle : (PackageDecoder.attempt r.decoder r.pending.bytes).consumed = 0 <;>
    cases hnext : PackageDecoder.next? (PackageDecoder.attempt r.decoder r.pending.bytes).state <;>
    cases package <;>
    simp [pass, conclude, hresult, hlimit, hnext, hidle, behind, Attempt.behind, handedOut]

/-- What is left to do before a reassembly has to wait or fails. -/
def work (r : Reassembly σ) : Nat :=
  r.pending.length + (PackageDecoder.next? r.decoder).toList.length

variable {size : π → Nat} {limit : Nat} {Kept : σ → Prop}

/-- The reassembly has the limit, and a state that the decoder keeps to. -/
structure Held (limit : Nat) (Kept : σ → Prop) (r : Reassembly σ) : Prop where
  limit_eq : r.limit = limit
  decoder : Kept r.decoder

variable (law : Bounding size limit Kept)

include law

theorem Held.failed (h : Held limit Kept r) :
    Held limit Kept { r with decoder := r.trial.state } :=
  ⟨h.limit_eq, (law.attempt h.decoder _).1⟩

theorem Held.behind (h : Held limit Kept r) (hresult : r.trial.result = .ok package) :
    Held limit Kept (r.behind r.trial) ∧
      (PackageDecoder.next? (r.behind r.trial).decoder = none) := by
  have hstate : Kept r.trial.state := (law.attempt h.decoder _).1
  have hbehind : Kept r.trial.behind ∧ PackageDecoder.next? r.trial.behind = none := by
    unfold Attempt.behind
    cases hnext : PackageDecoder.next? r.trial.state with
    | some phase => exact law.next hstate hnext
    | none =>
      rw [hresult]
      cases package with
      | none => exact ⟨hstate, hnext⟩
      | some package => exact law.reset hstate hnext
  exact ⟨⟨h.limit_eq, hbehind.1⟩, hbehind.2⟩

/-- Within the limit, a package is no longer than the limit. -/
theorem size_le_of_trial {complete : π} (h : Held limit Kept r)
    (hpositive : 0 < limit) (hresult : r.trial.result = .ok (some complete))
    (hlimit : r.exceeds r.trial = false) : size complete ≤ limit := by
  obtain ⟨hkeeps, hsize⟩ := (law.attempt h.decoder _).2.package hresult
  have hmoves : 0 < r.trial.consumed := by
    by_contra hidle
    obtain ⟨hnone, _⟩ := (law.attempt h.decoder _).2.idle hresult (Nat.eq_zero_of_not_pos hidle)
    cases hnone
  have hkeeps' : PackageDecoder.discards r.trial.state = false := hkeeps
  refine hsize (show r.trial.consumed ≤ limit from ?_)
  simpa [exceeds, measured_of_moves hmoves, hkeeps', h.limit_eq, hpositive] using hlimit

/-- What waits is within the limit. -/
theorem pending_le_of_waits (h : Held limit Kept r) (hpositive : 0 < limit)
    (hwaits : r.trial.Waits) (hlimit : r.exceeds r.trial = false) :
    (r.behind r.trial).pending.length ≤ limit := by
  have hall : (r.behind r.trial).pending.length = r.pending.length := by
    rw [behind, hwaits.2, ← Sequence.length_bytes, Sequence.bytes_discard, List.drop_zero,
      Sequence.length_bytes]
  cases hdiscards : PackageDecoder.discards r.trial.state with
  | true =>
    have hused := (law.attempt h.decoder _).2.discards hdiscards
    change r.trial.consumed = _ at hused
    rw [hwaits.2, Sequence.length_bytes] at hused
    omega
  | false =>
    rw [hall]
    simpa [exceeds, measured_of_waits hwaits, hdiscards, h.limit_eq, hpositive] using hlimit

/-- A pass that another one follows leaves less to do. -/
theorem work_behind_lt (h : Held limit Kept r) (hresult : r.trial.result = .ok package)
    (hmoves : ¬ (r.trial.Waits ∧ PackageDecoder.next? r.trial.state = none)) :
    (r.behind r.trial).work < r.work := by
  have hnext := (h.behind law hresult).2
  have hused : r.trial.consumed ≤ r.pending.length := by
    rw [← Sequence.length_bytes]
    exact (law.attempt h.decoder _).2.used hresult
  have hlength : (r.behind r.trial).pending.length = r.pending.length - r.trial.consumed := by
    rw [behind, ← Sequence.length_bytes, Sequence.bytes_discard, List.length_drop,
      Sequence.length_bytes]
  rw [work, work, hnext, hlength, Option.toList_none, List.length_nil]
  by_cases hidle : r.trial.consumed = 0
  · obtain ⟨rfl, hphase⟩ := (law.attempt h.decoder _).2.idle hresult hidle
    have hsome : (PackageDecoder.next? r.trial.state).isSome := by
      rw [Option.isSome_iff_ne_none]
      exact fun hnone => hmoves ⟨⟨hresult, hidle⟩, hnone⟩
    obtain ⟨phase, hphase⟩ := Option.isSome_iff_exists.1 (hphase hsome)
    rw [hphase, Option.toList_some, List.length_singleton]
    omega
  · omega

/-- What a pass comes to: its packages are within the limit, and so is what waits behind it. -/
theorem pass_within (h : Held limit Kept r) (hpositive : 0 < limit)
    (hpass : r.pass = (items, verdict, s)) :
    Held limit Kept s ∧ (∀ package ∈ packagesOf items, size package ≤ limit) ∧
      (verdict = .waiting → s.pending.length ≤ limit) ∧ (verdict = .again → s.work < r.work) := by
  cases hresult : r.trial.result with
  | error error =>
    rw [pass_of_error hresult] at hpass
    cases hpass
    exact ⟨h.failed law, by simp, fun hwait => (by cases hwait), fun hagain => (by cases hagain)⟩
  | ok package =>
    cases hlimit : r.exceeds r.trial with
    | true =>
      rw [pass_of_exceeds hresult hlimit] at hpass
      cases hpass
      exact ⟨h.failed law, by simp, fun hwait => (by cases hwait), fun hagain => (by cases hagain)⟩
    | false =>
      obtain ⟨reached, hpass', hverdict⟩ := pass_of_ok hresult hlimit
      rw [hpass'] at hpass
      cases hpass
      have hpackages :
          ∀ complete ∈ packagesOf (handedOut r.trial package), size complete ≤ limit := by
        intro complete hmem
        obtain rfl : package = some complete := by
          cases package <;> simp_all [handedOut, packagesOf]
        exact size_le_of_trial law h hpositive hresult hlimit
      obtain ⟨rfl, hwaits, -⟩ | ⟨rfl, hmoves⟩ := hverdict
      · exact ⟨(h.behind law hresult).1, hpackages,
          fun _ => pending_le_of_waits law h hpositive hwaits hlimit,
          fun hagain => (by cases hagain)⟩
      · exact ⟨(h.behind law hresult).1, hpackages, fun hwait => (by cases hwait),
          fun _ => work_behind_lt law h hresult hmoves⟩

/-! ## One call -/

theorem passes_within (h : Held limit Kept r) (hpositive : 0 < limit) {count : Nat}
    (hcount : r.work ≤ count) (hpasses : r.passes count = (items, verdict, s)) :
    Held limit Kept s ∧ (∀ package ∈ packagesOf items, size package ≤ limit) ∧
      ((∀ error, verdict ≠ .failed error) → s.pending.length ≤ limit) := by
  induction count generalizing r items with
  | zero =>
    -- The passes are used up, and so are the bytes.
    cases hpasses
    refine ⟨h, by simp [packagesOf], fun _ => ?_⟩
    unfold work at hcount
    omega
  | succ count ih =>
    rw [passes] at hpasses
    split at hpasses
    · rename_i first mid hpass
      obtain ⟨hmid, hfirst, -, hless⟩ := pass_within law h hpositive hpass
      have hcount' : mid.work ≤ count := by
        have := hless rfl
        omega
      cases hpasses
      obtain ⟨hheld, hrest, hpending⟩ := ih hmid hcount' rfl
      refine ⟨hheld, ?_, hpending⟩
      intro package hmem
      rw [packagesOf_append, List.mem_append] at hmem
      exact hmem.elim (hfirst package) (hrest package)
    · rename_i hlast
      obtain ⟨hheld, hpackages, hwaits, _⟩ := pass_within law h hpositive hpasses
      refine ⟨hheld, hpackages, fun hok => ?_⟩
      cases verdict with
      | waiting => exact hwaits rfl
      | failed error => exact absurd rfl (hok error)
      | again => exact absurd hpasses (hlast items s)

omit law in
/-- A call of `decode` keeps to a limit: the packages that it hands out do, and so do the bytes that
are left, unless it failed. -/
def Within (size : π → Nat) (limit : Nat) (r : Reassembly σ) : Prop :=
  (∀ package ∈ packagesOf r.decode.1, size package ≤ limit) ∧
    ((∀ error, r.decode.2.1 ≠ .failed error) → r.decode.2.2.pending.length ≤ limit)

theorem decode_within (h : Held limit Kept r) (hpositive : 0 < limit) :
    Held limit Kept r.decode.2.2 ∧ Within size limit r := by
  have hone : (PackageDecoder.next? r.decoder).toList.length ≤ 1 := by
    cases PackageDecoder.next? r.decoder <;> simp
  exact passes_within law h hpositive (Nat.add_le_add_left hone _) rfl

/-! ## Any calls -/

omit law in
/-- What calls lead to, whatever they came to. -/
inductive Later (r : Reassembly σ) : Reassembly σ → Prop where
  | refl : Later r r
  | extend {s : Reassembly σ} (h : Later r s) (segment : Bytes) : Later r (s.extend segment)
  | decode {s : Reassembly σ} (h : Later r s) : Later r s.decode.2.2
  | push {s : Reassembly σ} (h : Later r s) (segment : Bytes) : Later r (s.push segment).2
  | takeReplies {s : Reassembly σ} (h : Later r s) : Later r s.takeReplies.2

/-- A reassembly that gets no more calls than this keeps what it has kept. -/
theorem Later.held (hlater : Later r s) (h : Held limit Kept r) (hpositive : 0 < limit) :
    Held limit Kept s := by
  induction hlater with
  | refl => exact h
  | extend _ segment ih => exact ⟨ih.limit_eq, ih.decoder⟩
  | decode _ ih => exact (decode_within law ih hpositive).1
  | @push s _ segment ih =>
    have hextended : Held limit Kept (s.extend segment) := ⟨ih.limit_eq, ih.decoder⟩
    obtain ⟨hlimit, hdecoder⟩ := (decode_within law hextended hpositive).1
    unfold Reassembly.push
    dsimp only
    split <;> exact ⟨hlimit, hdecoder⟩
  | takeReplies _ ih => exact ⟨ih.limit_eq, ih.decoder⟩

/-- Whatever was called before, a call of `decode` keeps to the limit. -/
theorem Later.within (hlater : Later r s) (h : Held limit Kept r) (hpositive : 0 < limit) :
    Within size limit s :=
  (decode_within law (hlater.held law h hpositive) hpositive).2

end Reassembly

/-! ## Decoders of one phase -/

namespace Terminated

variable {t after : Terminated} {bytes block : Bytes} {used : Nat}

theorem terminator_split (hsplit : (t.split bytes).1 = after) :
    after.terminator = t.terminator := by
  unfold split at hsplit
  split at hsplit <;> subst hsplit <;> rfl

/-- Wherever a search goes on, a terminator that it finds lies in the bytes, with the package in
front of it. -/
theorem length_of_split_eq_some (hne : t.terminator ≠ [])
    (hsplit : t.split bytes = (after, some (block, used))) :
    block.length + t.terminator.length = used ∧ 0 < used ∧ used ≤ bytes.length := by
  have hpos : 0 < t.terminator.length := List.length_pos_iff.2 hne
  unfold split at hsplit
  cases hfind : Bytes.find t.terminator bytes t.scanned with
  | none => simp [hfind] at hsplit
  | some position =>
    simp only [hfind, Prod.mk.injEq, Option.some.injEq] at hsplit
    obtain ⟨rfl, rfl, rfl⟩ := hsplit
    have hin : position + t.terminator.length ≤ bytes.length :=
      Bytes.add_length_le_of_find hfind
    rw [List.length_take]
    omega

end Terminated

/-- A search for a terminator keeps to a limit, if the size of a package is that of the bytes which
it is made from, with the terminator. -/
theorem Searching.bounding {wrap : Terminated → σ}
    {finish : Terminated → Bytes → Nat → Attempt σ π} (h : Searching wrap finish)
    {terminator : Bytes} (hne : terminator ≠ []) {size : π → Nat} {limit : Nat}
    (hsize : ∀ {t block used package}, finish t block used = .complete (wrap t) used package →
      size package = block.length + terminator.length) :
    Bounding size limit fun d => ∃ t, d = wrap t ∧ t.terminator = terminator := by
  refine ⟨?_, ?_, ?_⟩
  · rintro d ⟨t, rfl, rfl⟩ bytes
    rcases hsplit : t.split bytes with ⟨after, _ | ⟨block, used⟩⟩
    · have hafter : after.terminator = t.terminator := Terminated.terminator_split (by rw [hsplit])
      rw [h.attempt_of_none hsplit]
      exact ⟨⟨after, rfl, hafter⟩, fits_needMore (by simp [h.next]) (h.discards _)⟩
    · have hafter : after.terminator = t.terminator := Terminated.terminator_split (by rw [hsplit])
      obtain ⟨hlength, hpos, hle⟩ := Terminated.length_of_split_eq_some hne hsplit
      rw [h.attempt_of_some hsplit]
      obtain ⟨complete, hfinish⟩ | ⟨violation, hfinish⟩ := h.finish after block used
      · have hlong : size complete = used := (hsize hfinish).trans hlength
        rw [hfinish]
        refine ⟨⟨after, rfl, hafter⟩, fits_of_moves hpos hle (h.discards _) ?_⟩
        intro package hresult hshort
        cases hresult
        rw [hlong]
        exact hshort
      · rw [hfinish]
        exact ⟨⟨after, rfl, hafter⟩, fits_fail (h.discards _)⟩
  · rintro d phase ⟨t, rfl, ht⟩ hnext
    rw [h.next] at hnext
    cases hnext
  · rintro d ⟨t, rfl, ht⟩ -
    exact ⟨⟨t.reset, h.reset t, ht⟩, by rw [h.reset, h.next]⟩

/-- Packages of a fixed size keep to a limit. -/
theorem FixedSize.bounding {fixed : FixedSize} (hpos : 0 < fixed.size) {limit : Nat} :
    Bounding List.length limit fun d : FixedSize => d = fixed := by
  have hattempt : ∀ bytes, PackageDecoder.attempt fixed bytes =
      if bytes.length < fixed.size then .needMore fixed
      else .complete fixed fixed.size (bytes.take fixed.size) := fun _ => rfl
  refine ⟨?_, ?_, ?_⟩
  · rintro d rfl bytes
    rw [hattempt]
    split
    · exact ⟨rfl, fits_needMore id rfl⟩
    · rename_i hlong
      refine ⟨rfl, fits_of_moves hpos (Nat.not_lt.1 hlong) rfl ?_⟩
      intro package hresult hle
      cases hresult
      rw [List.length_take]
      exact Nat.le_trans (Nat.min_le_left _ _) hle
  · rintro d phase rfl hnext
    cases hnext
  · rintro d rfl -
    exact ⟨rfl, rfl⟩

/-! ## The decoders as they are made -/

/-- A line needs its bytes and the two of its end. -/
def lineSize (line : String) : Nat :=
  (Utf8.encode line).length + crlf.length

theorem LineDecoder.within {limit : Nat} (hlimit : 0 < limit) {r : Reassembly LineDecoder}
    (h : Later (.of {} limit) r) : Within lineSize limit r := by
  have hcrlf : crlf ≠ [] := by decide
  refine h.within (searching_line.bounding hcrlf ?_) ⟨rfl, _, rfl, rfl⟩ hlimit
  intro t block used line hfinish
  split at hfinish
  · rename_i hdecode
    cases hfinish
    rw [lineSize, Utf8.encode_of_decode hdecode]
  · cases hfinish

theorem Terminated.within {limit : Nat} (hlimit : 0 < limit) {terminator : Bytes} {t : Terminated}
    (hof : Terminated.of terminator = .ok t) {r : Reassembly Terminated}
    (h : Later (.of t limit) r) :
    Within (fun package => package.length + terminator.length) limit r := by
  unfold Terminated.of at hof
  split at hof <;> cases hof
  rename_i hempty
  have hne : terminator ≠ [] := by simpa using hempty
  refine h.within (searching_terminated.bounding hne ?_) ⟨rfl, _, rfl, rfl⟩ hlimit
  intro t block used package hfinish
  cases hfinish
  rfl

theorem FixedSize.within {limit : Nat} (hlimit : 0 < limit) {size : Nat} {d : FixedSize}
    (hof : FixedSize.of size = .ok d) {r : Reassembly FixedSize} (h : Later (.of d limit) r) :
    Within List.length limit r := by
  unfold FixedSize.of at hof
  split at hof <;> cases hof
  rename_i hne
  exact h.within (FixedSize.bounding (Nat.pos_of_ne_zero hne)) ⟨rfl, rfl⟩ hlimit

end FramedChannel
