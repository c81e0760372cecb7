import FramedChannel.Proofs.Package.Run

/-!
# Where reads are cut

Bytes reach a reassembly in the segments in which they were read.  This module
shows that the segments do not matter to a decoder that is `Resumable`.

* `feed` decodes segment after segment and stops at the first error.
* `Alike` relates reassemblies that differ in their segments alone.
* `Runs.resume` is the simulation: a run that waits, and one over the bytes
  that arrive later, make one run over all bytes.  `Runs.extend_failed` says
  the same of a run that failed.
* `feed_cutAlike_feed` follows by induction over the segments.

Only a limit can tell two cuts apart.  It may be exceeded by bytes that wait,
before the package that they belong to is looked at, so errors then agree in
their kind only.
-/

namespace FramedChannel

variable {σ π : Type}

/-- Errors of the same kind, of the two kinds that decoding may end with. -/
def Error.SameKind : Error → Error → Prop
  | .protocol _, .protocol _ | .notImplemented _, .notImplemented _ => True
  | _, _ => False

theorem Error.IsDecoding.sameKind {error : Error} (h : error.IsDecoding) :
    error.SameKind error := by
  cases error <;> simp_all [IsDecoding, SameKind]

theorem Error.SameKind.symm {error error' : Error} (h : error.SameKind error') :
    error'.SameKind error := by
  cases error <;> cases error' <;> simp_all [SameKind]

theorem Error.SameKind.trans {error error' error'' : Error} (h : error.SameKind error')
    (h' : error'.SameKind error'') : error.SameKind error'' := by
  cases error <;> cases error' <;> cases error'' <;> simp_all [SameKind]

namespace Reassembly

variable [PackageDecoder σ π] {r s t mid : Reassembly σ} {items others : List (Item π)}
  {verdict : Verdict}

/-- Decodes segments as they arrive, up to the first error. -/
def feed (r : Reassembly σ) : List Bytes → List (Item π) × Verdict × Reassembly σ
  | [] => ([], .waiting, r)
  | segment :: rest =>
    match (r.extend segment).decode with
    | (items, .waiting, r) =>
      let (more, verdict, r) := feed r rest
      (items ++ more, verdict, r)
    | ended => ended

/-- One segment more is decoded behind all others. -/
theorem feed_concat {segments : List Bytes} (segment : Bytes)
    (h : r.feed segments = (items, .waiting, s)) :
    r.feed (segments ++ [segment]) =
      (items ++ (s.extend segment).decode.1, (s.extend segment).decode.2) := by
  induction segments generalizing r items with
  | nil =>
    cases h
    rw [List.nil_append, List.nil_append, feed]
    split
    · rename_i hdecode
      rw [hdecode]
      simp [feed]
    · rfl
  | cons first rest ih =>
    rw [feed] at h
    rw [List.cons_append, feed]
    split at h
    · rename_i begun mid hdecode
      simp only [Prod.mk.injEq] at h
      obtain ⟨hitems, hverdict, hs⟩ := h
      have hrest : mid.feed rest = ((mid.feed rest).1, .waiting, s) := by rw [← hverdict, ← hs]
      simp only [ih hrest, ← List.append_assoc, hitems]
    · rename_i hlast
      exact absurd h (hlast items s)

/-! ## Reassemblies that differ in their segments -/

/-- The same bytes wait, and whatever counts or collects is equal.  The decoders may differ. -/
structure SameBuffer (r s : Reassembly σ) : Prop where
  bytes : r.pending.bytes = s.pending.bytes
  limit : r.limit = s.limit
  switches : r.switches = s.switches
  replies : r.replies = s.replies

/-- The reassemblies differ in nothing but the segments in which their bytes came. -/
structure Alike (r s : Reassembly σ) : Prop extends SameBuffer r s where
  decoder : r.decoder = s.decoder

@[refl] theorem Alike.refl (r : Reassembly σ) : Alike r r := ⟨⟨rfl, rfl, rfl, rfl⟩, rfl⟩

theorem Alike.symm (h : Alike r s) : Alike s r :=
  ⟨⟨h.bytes.symm, h.limit.symm, h.switches.symm, h.replies.symm⟩, h.decoder.symm⟩

theorem Alike.trans (h : Alike r s) (h' : Alike s t) : Alike r t :=
  ⟨⟨h.bytes.trans h'.bytes, h.limit.trans h'.limit, h.switches.trans h'.switches,
    h.replies.trans h'.replies⟩, h.decoder.trans h'.decoder⟩

theorem SameBuffer.extend (h : SameBuffer r s) (more : Bytes) :
    SameBuffer (r.extend more) (s.extend more) :=
  ⟨by simp [Reassembly.extend, h.bytes], h.limit, h.switches, h.replies⟩

@[simp] theorem bytes_extend (r : Reassembly σ) (more : Bytes) :
    (r.extend more).pending.bytes = r.pending.bytes ++ more := by
  simp [extend]

theorem extend_append_alike (r : Reassembly σ) (first second : Bytes) :
    Alike (r.extend (first ++ second)) ((r.extend first).extend second) :=
  ⟨⟨by simp, rfl, rfl, rfl⟩, rfl⟩

omit [PackageDecoder σ π] in
theorem measured_eq (h : SameBuffer r s) (a : Attempt σ π) : r.measured a = s.measured a := by
  rw [measured, measured, ← Sequence.length_bytes, h.bytes, Sequence.length_bytes]

omit [PackageDecoder σ π] in
/-- The bytes that wait do not count when some were used. -/
theorem measured_of_moves {a : Attempt σ π} (h : 0 < a.consumed) : r.measured a = a.consumed :=
  if_pos h

omit [PackageDecoder σ π] in
theorem measured_of_waits {a : Attempt σ π} (h : a.Waits) : r.measured a = r.pending.length := by
  simp [measured, h.2]

theorem exceeds_iff {a : Attempt σ π} (hkeeps : PackageDecoder.discards a.state = false) :
    r.exceeds a = true ↔ 0 < r.limit ∧ r.limit < r.measured a := by
  simp [exceeds, hkeeps]

theorem exceeds_extend_of_moves {a : Attempt σ π} (h : 0 < a.consumed) (more : Bytes) :
    (r.extend more).exceeds a = r.exceeds a := by
  rw [exceeds, exceeds, measured_of_moves h, measured_of_moves h]
  rfl

theorem limit_pass (r : Reassembly σ) : r.pass.2.2.limit = r.limit := by
  unfold pass conclude
  dsimp only
  repeat' split
  all_goals rfl

theorem exceeds_eq (h : SameBuffer r s) (a : Attempt σ π) : r.exceeds a = s.exceeds a := by
  rw [exceeds, exceeds, h.limit, measured_eq h]

/-- A pass depends on the buffer and the attempt alone. -/
theorem pass_alike (h : SameBuffer r s) (htrial : r.trial = s.trial) :
    r.pass.1 = s.pass.1 ∧ r.pass.2.1 = s.pass.2.1 ∧ Alike r.pass.2.2 s.pass.2.2 := by
  have hdiscard : ∀ count, (r.pending.discard count).bytes = (s.pending.discard count).bytes := by
    intro count
    rw [Sequence.bytes_discard, Sequence.bytes_discard, h.bytes]
  have hexceeds := exceeds_eq h r.trial
  have hmeasured := measured_eq h r.trial
  unfold trial at htrial hexceeds hmeasured
  simp only [pass, conclude]
  rw [← htrial, ← hexceeds, ← hmeasured, ← h.limit]
  cases (PackageDecoder.attempt r.decoder r.pending.bytes).result with
  | error error => exact ⟨rfl, rfl, ⟨⟨h.bytes, rfl, h.switches, h.replies⟩, rfl⟩⟩
  | ok package =>
    dsimp only
    split
    · exact ⟨rfl, rfl, ⟨⟨h.bytes, rfl, h.switches, h.replies⟩, rfl⟩⟩
    · split <;>
        exact ⟨rfl, rfl, ⟨⟨hdiscard _, rfl, by simp only [h.switches], h.replies⟩, rfl⟩⟩

theorem Alike.trial_eq (h : Alike r s) : r.trial = s.trial := by
  rw [trial, trial, h.decoder, h.bytes]

/-- Runs go the same way from passes that agree. -/
theorem Runs.of_pass_alike (hrun : Runs r items verdict t) (hitems : r.pass.1 = s.pass.1)
    (hverdict : r.pass.2.1 = s.pass.2.1) (hbehind : Alike r.pass.2.2 s.pass.2.2) :
    ∃ t', Runs s items verdict t' ∧ Alike t t' := by
  induction hrun generalizing s with
  | last hpass hlast =>
    rw [hpass] at hitems hverdict hbehind
    exact ⟨s.pass.2.2, .last (Prod.ext hitems.symm (Prod.ext hverdict.symm rfl)) hlast, hbehind⟩
  | @more r u t items others verdict hpass _ ih =>
    rw [hpass] at hitems hverdict hbehind
    have hagree := pass_alike hbehind.toSameBuffer hbehind.trial_eq
    obtain ⟨t', hrest, halike⟩ := ih hagree.1 hagree.2.1 hagree.2.2
    have hpass' : s.pass = (items, .again, s.pass.2.2) :=
      Prod.ext hitems.symm (Prod.ext hverdict.symm rfl)
    exact ⟨t', .more hpass' hrest, halike⟩

theorem Runs.alike (hrun : Runs r items verdict t) (h : Alike r s) :
    ∃ t', Runs s items verdict t' ∧ Alike t t' := by
  have hagree := pass_alike h.toSameBuffer h.trial_eq
  exact hrun.of_pass_alike hagree.1 hagree.2.1 hagree.2.2

/-! ## A decoder that throws bytes away -/

private theorem pass_of_discarding_aux (h : Discarding r.decoder) :
    r.pass =
      ([], if r.pending.length = 0 then .waiting else .again,
        { r with pending := r.pending.discard r.pending.length }) := by
  simp [pass, conclude, h.attempt, Attempt.progress, h.next, exceeds, h.discards]

/-- A decoder that throws bytes away throws all of them away, and waits. -/
theorem runs_of_discarding (h : Discarding r.decoder) :
    ∃ s, Runs r [] .waiting s ∧ s.pending.bytes = [] ∧ s.decoder = r.decoder ∧
      s.limit = r.limit ∧ s.switches = r.switches ∧ s.replies = r.replies := by
  let s : Reassembly σ := { r with pending := r.pending.discard r.pending.length }
  have hempty : s.pending.bytes = [] := by
    simp only [s, Sequence.bytes_discard, ← Sequence.length_bytes, List.drop_length]
  have hpass := pass_of_discarding_aux h
  by_cases hlength : r.pending.length = 0
  · rw [if_pos hlength] at hpass
    exact ⟨s, .last hpass (by simp), hempty, rfl, rfl, rfl, rfl⟩
  · rw [if_neg hlength] at hpass
    have hnone : s.pending.length = 0 := by rw [← Sequence.length_bytes, hempty]; rfl
    have hlast := pass_of_discarding_aux (r := s) h
    rw [if_pos hnone] at hlast
    refine ⟨{ s with pending := s.pending.discard s.pending.length },
      .more hpass (.last hlast (by simp)), ?_, rfl, rfl, rfl, rfl⟩
    rw [hnone, Sequence.bytes_discard, hempty]
    rfl

/-! ## More bytes arrive -/

variable {Ready : σ → Bytes → Prop} (law : Resumable Ready)

include law

theorem ready_extend (hready : Ready r.decoder r.pending.bytes) (more : Bytes) :
    Ready (r.extend more).decoder (r.extend more).pending.bytes := by
  rw [bytes_extend]
  exact law.extend hready more

theorem trial_extend (hready : Ready r.decoder r.pending.bytes) (hmoves : ¬ r.trial.Waits)
    (hkeeps : PackageDecoder.discards r.decoder = false) (more : Bytes) :
    r.trial.consumed ≤ r.pending.bytes.length ∧ (r.extend more).trial = r.trial := by
  obtain ⟨hle, hsame⟩ := (law.resumableAt hready).move hmoves hkeeps
  refine ⟨hle, ?_⟩
  rw [trial, bytes_extend]
  exact hsame more

/-- A pass that another one follows goes the same way when more bytes are there. -/
theorem pass_extend_of_again (hready : Ready r.decoder r.pending.bytes)
    (hkeeps : PackageDecoder.discards r.decoder = false) (hpass : r.pass = (items, .again, s))
    (more : Bytes) :
    (r.extend more).pass.1 = items ∧ (r.extend more).pass.2.1 = .again ∧
      Alike (r.extend more).pass.2.2 (s.extend more) := by
  obtain ⟨_, _, h⟩ | ⟨_, _, _, h⟩ | ⟨_, _, h⟩ | ⟨package, hresult, hmoves, hlimit, h⟩ :=
    pass_cases law hready <;> rw [hpass] at h <;> cases h
  have hwaits : ¬ r.trial.Waits := fun hw => by rw [hw.2] at hmoves; omega
  obtain ⟨hle, htrial⟩ := trial_extend law hready hwaits hkeeps more
  have hlimit' := (exceeds_extend_of_moves hmoves more).trans hlimit
  rw [← htrial] at hresult hmoves hlimit'
  rw [pass_of_moves hresult hmoves hlimit', htrial]
  refine ⟨rfl, rfl, ⟨⟨?_, rfl, rfl, rfl⟩, rfl⟩⟩
  simp only [behind, bytes_extend, Sequence.bytes_discard]
  exact List.drop_append_of_le_length hle

/-- A pass that waits has no effect that shows: whatever bytes come next, the next pass makes the
attempt that it would have made. -/
theorem trial_of_waiting (hready : Ready r.decoder r.pending.bytes)
    (hpass : r.pass = (items, .waiting, s)) :
    items = [] ∧ SameBuffer s r ∧ ∀ more, (s.extend more).trial = (r.extend more).trial := by
  obtain ⟨_, _, h⟩ | ⟨_, _, _, h⟩ | ⟨hwaits, _, h⟩ | ⟨_, _, _, _, h⟩ :=
    pass_cases law hready <;> rw [hpass] at h <;> cases h
  obtain ⟨_, _, _, hsame⟩ := (law.resumableAt hready).wait hwaits
  refine ⟨rfl, ⟨by simp, rfl, rfl, rfl⟩, ?_⟩
  intro more
  simp only [trial, bytes_extend, Sequence.bytes_discard, List.drop_zero]
  exact hsame more

/-- A run that waits, and a run behind it over the bytes that arrived later, are one run over all
bytes. -/
theorem Runs.resume (hrun : Runs r items .waiting mid) (hready : Ready r.decoder r.pending.bytes)
    (more : Bytes) (hrest : Runs (mid.extend more) others verdict t) :
    ∃ t', Runs (r.extend more) (items ++ others) verdict t' ∧ Alike t t' := by
  generalize hwait : Verdict.waiting = reached at hrun
  induction hrun with
  | last hpass hlast =>
    subst hwait
    obtain ⟨rfl, hbuffer, htrial⟩ := trial_of_waiting law hready hpass
    have hagree := pass_alike (hbuffer.extend more) (htrial more)
    exact hrest.of_pass_alike hagree.1 hagree.2.1 hagree.2.2
  | @more r s mid items rest reached hpass hrun ih =>
    subst hwait
    by_cases hdiscards : PackageDecoder.discards r.decoder = true
    · -- The passes do not match up here: one pass throws away what came in two segments.
      have hdiscarding := law.discard hready hdiscards
      obtain ⟨m, hm, hmb, hmd, hml, hms, hmr⟩ := runs_of_discarding hdiscarding
      obtain ⟨hitems, _, rfl⟩ := hm.unique (.more hpass hrun)
      obtain ⟨u, hu, hub, hud, hul, hus, hur⟩ :=
        runs_of_discarding (r := m.extend more) (by rw [← hmd] at hdiscarding; exact hdiscarding)
      obtain ⟨rfl, rfl, rfl⟩ := hu.unique hrest
      obtain ⟨v, hv, hvb, hvd, hvl, hvs, hvr⟩ :=
        runs_of_discarding (r := r.extend more) hdiscarding
      rw [← hitems]
      refine ⟨v, hv, ⟨⟨hub.trans hvb.symm, ?_, ?_, ?_⟩, ?_⟩⟩
      · exact hul.trans (hml.trans hvl.symm)
      · exact hus.trans (hms.trans hvs.symm)
      · exact hur.trans (hmr.trans hvr.symm)
      · exact hud.trans (hmd.trans hvd.symm)
    · have hkeeps : PackageDecoder.discards r.decoder = false := by simpa using hdiscards
      obtain ⟨hfirst, hagain, hbehind⟩ := pass_extend_of_again law hready hkeeps hpass more
      obtain ⟨t₁, hrun₁, h₁⟩ := ih (ready_of_pass_eq_again law hready hpass).1 hrest rfl
      obtain ⟨t₂, hrun₂, h₂⟩ := hrun₁.alike hbehind.symm
      refine ⟨t₂, ?_, h₁.trans h₂⟩
      rw [List.append_assoc]
      exact .more (Prod.ext hfirst (Prod.ext hagain rfl)) hrun₂

omit law [PackageDecoder σ π] in
@[simp] theorem packagesOf_append (items others : List (Item π)) :
    packagesOf (items ++ others) = packagesOf items ++ packagesOf others := by
  simp [packagesOf]

omit law [PackageDecoder σ π] in
@[simp] theorem packagesOf_map_reply (replies : List Bytes) :
    packagesOf (replies.map (Item.reply (π := π))) = [] := by
  simp [packagesOf]

/-- How a failure may change when more bytes are there: without a limit not at all, and with one in
the replies in front of it and in what it is, but not in its kind. -/
def FailsAlike (limit : Nat) (items items' : List (Item π)) (error error' : Error) : Prop :=
  packagesOf items = packagesOf items' ∧ error.SameKind error' ∧
    (limit = 0 → items = items' ∧ error = error')

/-- Bytes that wait past the limit cannot be saved by more bytes: what they belong to is too long,
or broken. -/
theorem pass_extend_of_overdue (hready : Ready r.decoder r.pending.bytes)
    (hwaits : r.trial.Waits) (hlimit : r.exceeds r.trial = true) (more : Bytes) :
    ∃ (replies : List Bytes) (violation : Violation) (s : Reassembly σ), (r.extend more).pass =
      (replies.map .reply, .failed (.protocol violation), s) := by
  have hover : 0 < r.limit ∧ r.limit < r.pending.length := by
    simp only [exceeds, measured_of_waits hwaits, Bool.and_eq_true, decide_eq_true_eq] at hlimit
    exact hlimit.1
  have hne : r.pending.bytes ≠ [] := by
    intro hempty
    have hzero := Sequence.length_bytes r.pending
    rw [hempty, List.length_nil] at hzero
    omega
  have hlate : (r.extend more).trial.Late r.pending.length := by
    rw [← Sequence.length_bytes, trial, bytes_extend]
    exact (law.resumableAt hready).late hne hwaits more
  unfold Attempt.Late at hlate
  cases hresult : (r.extend more).trial.result with
  | error error =>
    rw [hresult] at hlate
    obtain ⟨violation, rfl⟩ := hlate
    exact ⟨_, violation, _, pass_of_error hresult⟩
  | ok package =>
    rw [hresult] at hlate
    have hlength : r.pending.length ≤ (r.extend more).pending.length := by
      rw [← Sequence.length_bytes, ← Sequence.length_bytes, bytes_extend, List.length_append]
      omega
    have hlong : r.limit < (r.extend more).measured (r.extend more).trial := by
      unfold measured
      split
      · rename_i hused
        have := hlate.2 hused
        omega
      · omega
    have hexceeds : (r.extend more).exceeds (r.extend more).trial = true := by
      simp only [exceeds, hlate.1, Bool.not_false, Bool.and_true, Bool.and_eq_true,
        decide_eq_true_eq]
      exact ⟨hover.1, hlong⟩
    exact ⟨_, _, _, pass_of_exceeds hresult hexceeds⟩

/-- A pass that fails still fails when more bytes are there.  If it failed because too many bytes
wait, it now may meet what they belong to, which is too long or broken. -/
theorem pass_extend_of_failed {error : Error} (hready : Ready r.decoder r.pending.bytes)
    (hpass : r.pass = (items, .failed error, s)) (more : Bytes) :
    ∃ items' error' s', (r.extend more).pass = (items', .failed error', s') ∧
      FailsAlike r.limit items items' error error' := by
  obtain ⟨_, hresult, h⟩ | ⟨package, hresult, hlimit, h⟩ | ⟨_, _, h⟩ | ⟨_, _, _, _, h⟩ :=
    pass_cases law hready <;> rw [hpass] at h <;> cases h
  · have hmoves : ¬ r.trial.Waits := fun hw => by rw [hw.1] at hresult; cases hresult
    have hkeeps : PackageDecoder.discards r.decoder = false := by
      by_contra hdiscards
      rw [trial, (law.discard hready (by simpa using hdiscards)).attempt] at hresult
      cases hresult
    obtain ⟨_, htrial⟩ := trial_extend law hready hmoves hkeeps more
    rw [← htrial] at hresult
    have hpass' := pass_of_error hresult
    rw [htrial] at hresult hpass'
    have hkind := ((law.resumableAt hready).error hresult).sameKind
    exact ⟨_, _, _, hpass', rfl, hkind, fun _ => ⟨rfl, rfl⟩⟩
  · by_cases hwaits : r.trial.Waits
    · -- This is the only failure whose kind alone is kept: its bytes waited for more.
      obtain ⟨replies, violation, s', hpass'⟩ :=
        pass_extend_of_overdue law hready hwaits hlimit more
      refine ⟨_, _, s', hpass', ?_, trivial, ?_⟩
      · rw [packagesOf_map_reply, packagesOf_map_reply]
      · intro hzero
        simp [exceeds, hzero] at hlimit
    · have hmoves : 0 < r.trial.consumed := ((law.resumableAt hready).progress hresult hwaits).1
      have hkeeps : PackageDecoder.discards r.decoder = false := by
        by_contra hdiscards
        have hstate : r.trial.state = r.decoder := by
          rw [trial, (law.discard hready (by simpa using hdiscards)).attempt, Attempt.progress]
        simp [exceeds, hstate, hdiscards] at hlimit
      obtain ⟨_, htrial⟩ := trial_extend law hready hwaits hkeeps more
      have hlimit' := (exceeds_extend_of_moves hmoves more).trans hlimit
      rw [← htrial] at hresult hlimit'
      have hpass' := pass_of_exceeds hresult hlimit'
      rw [htrial, measured_of_moves hmoves, ← measured_of_moves hmoves] at hpass'
      exact ⟨_, _, _, hpass', rfl, trivial, fun _ => ⟨rfl, rfl⟩⟩

/-- A run that fails still fails when more bytes are there. -/
theorem Runs.extend_failed {error : Error} (hrun : Runs r items (.failed error) s)
    (hready : Ready r.decoder r.pending.bytes) (more : Bytes) :
    ∃ items' error' s', Runs (r.extend more) items' (.failed error') s' ∧
      FailsAlike r.limit items items' error error' := by
  generalize hfailed : Verdict.failed error = reached at hrun
  induction hrun with
  | last hpass _ =>
    subst hfailed
    obtain ⟨items', error', s', hpass', halike⟩ := pass_extend_of_failed law hready hpass more
    exact ⟨items', error', s', .last hpass' (by simp), halike⟩
  | @more r s mid items rest reached hpass hrun ih =>
    subst hfailed
    have hkeeps : PackageDecoder.discards r.decoder = false := by
      by_contra hdiscards
      obtain ⟨_, hwait, _⟩ := runs_of_discarding (law.discard hready (by simpa using hdiscards))
      obtain ⟨_, hverdict, _⟩ := hwait.unique (.more hpass hrun)
      cases hverdict
    obtain ⟨hfirst, hagain, hbehind⟩ := pass_extend_of_again law hready hkeeps hpass more
    obtain ⟨rest', error', s₁, hrun₁, hpackages, hkind, hzero⟩ :=
      ih (ready_of_pass_eq_again law hready hpass).1 rfl
    obtain ⟨s₂, hrun₂, _⟩ := hrun₁.alike hbehind.symm
    have hlimit : s.limit = r.limit := by
      have hkept := limit_pass r
      rw [hpass] at hkept
      exact hkept
    refine ⟨items ++ rest', error', s₂, .more (Prod.ext hfirst (Prod.ext hagain rfl)) hrun₂, ?_,
      hkind, ?_⟩
    · rw [packagesOf_append, packagesOf_append, hpackages]
    · intro h
      obtain ⟨rfl, rfl⟩ := hzero (hlimit.trans h)
      exact ⟨rfl, rfl⟩

omit law in
theorem Runs.limit_eq (h : Runs r items verdict s) : s.limit = r.limit := by
  have hkept := fun t : Reassembly σ => limit_pass t
  induction h with
  | @last r _ _ _ hpass _ =>
    have := hkept r
    rwa [hpass] at this
  | @more r _ _ _ _ _ hpass _ ih =>
    have := hkept r
    rw [hpass] at this
    exact ih.trans this

/-! ## Segment after segment -/

omit law in
/-- All that the waiting bytes complete was handed out, and another pass would change nothing. -/
structure Settled (r : Reassembly σ) : Prop where
  items : r.pass.1 = []
  verdict : r.pass.2.1 = .waiting
  behind : Alike r r.pass.2.2

/-- A run that waits leaves nothing to do. -/
theorem Runs.settled (hrun : Runs r items .waiting s) (hready : Ready r.decoder r.pending.bytes) :
    Settled s := by
  generalize hwait : Verdict.waiting = reached at hrun
  induction hrun with
  | @last r s items reached hpass _ =>
    subst hwait
    obtain ⟨rfl, hbuffer, htrial⟩ := trial_of_waiting law hready hpass
    have hsame := htrial []
    simp only [trial, bytes_extend, List.append_nil] at hsame
    obtain ⟨hitems, hverdict, hbehind⟩ := pass_alike hbuffer hsame
    rw [hpass] at hitems hverdict hbehind
    exact ⟨hitems, hverdict, hbehind.symm⟩
  | more hpass _ ih => exact ih (ready_of_pass_eq_again law hready hpass).1 hwait

/-- What every segment that goes well preserves holds behind all of them. -/
theorem feed_induction {P : Reassembly σ → Prop}
    (hstep : ∀ {r s : Reassembly σ} {items : List (Item π)} (segment : Bytes),
      Ready (r.extend segment).decoder (r.extend segment).pending.bytes → P r →
        Runs (r.extend segment) items .waiting s → P s)
    {segments : List Bytes} (hready : Ready r.decoder r.pending.bytes) (hinv : P r)
    (hfeed : r.feed segments = (items, .waiting, s)) :
    Ready s.decoder s.pending.bytes ∧ P s := by
  induction segments generalizing r items with
  | nil =>
    cases hfeed
    exact ⟨hready, hinv⟩
  | cons segment rest ih =>
    have hready' := ready_extend law hready segment
    have hrun := runs_decode law hready'
    rw [feed] at hfeed
    split at hfeed
    · rename_i first mid hdecode
      rw [hdecode] at hrun
      obtain ⟨others, hrest⟩ : ∃ others, mid.feed rest = (others, .waiting, s) := by
        refine ⟨(mid.feed rest).1, ?_⟩
        simp only [Prod.mk.injEq] at hfeed
        rw [← hfeed.2.1, ← hfeed.2.2]
      exact ih (hrun.ready law hready') (hstep segment hready' hinv hrun) hrest
    · rename_i hlast
      exact absurd hfeed (hlast items s)

omit law in
/-- Two ways of decoding the same bytes came to the same: both wait in the same state, or both
failed. -/
inductive CutAlike (limit : Nat) :
    List (Item π) × Verdict × Reassembly σ → List (Item π) × Verdict × Reassembly σ → Prop where
  | waiting {items : List (Item π)} {r s : Reassembly σ} (h : Alike r s) :
      CutAlike limit (items, .waiting, r) (items, .waiting, s)
  | failed {items items' : List (Item π)} {error error' : Error} {r s : Reassembly σ}
      (h : FailsAlike limit items items' error error') :
      CutAlike limit (items, .failed error, r) (items', .failed error', s)

section CutAlike

omit law [PackageDecoder σ π]

variable {limit : Nat} {first second third : List (Item π) × Verdict × Reassembly σ}

theorem CutAlike.symm (h : CutAlike limit first second) : CutAlike limit second first := by
  cases h with
  | waiting h => exact .waiting h.symm
  | failed h =>
    exact .failed ⟨h.1.symm, h.2.1.symm, fun hzero => ⟨(h.2.2 hzero).1.symm, (h.2.2 hzero).2.symm⟩⟩

theorem CutAlike.trans (h : CutAlike limit first second) (h' : CutAlike limit second third) :
    CutAlike limit first third := by
  cases h with
  | waiting h =>
    cases h' with
    | waiting h' => exact .waiting (h.trans h')
  | failed h =>
    cases h' with
    | failed h' =>
      refine .failed ⟨h.1.trans h'.1, h.2.1.trans h'.2.1, fun hzero => ?_⟩
      exact ⟨(h.2.2 hzero).1.trans (h'.2.2 hzero).1, (h.2.2 hzero).2.trans (h'.2.2 hzero).2⟩

/-- What can be seen of two ways that came to the same. -/
theorem CutAlike.outcome (h : CutAlike limit first second) :
    packagesOf first.1 = packagesOf second.1 ∧
      (first.2.1 = .waiting ∧ second.2.1 = .waiting ∧ Alike first.2.2 second.2.2 ∨
        ∃ error error', first.2.1 = .failed error ∧ second.2.1 = .failed error' ∧
          error.SameKind error') ∧
      (limit = 0 → first.1 = second.1 ∧ first.2.1 = second.2.1) := by
  cases h with
  | waiting h => exact ⟨rfl, .inl ⟨rfl, rfl, h⟩, fun _ => ⟨rfl, rfl⟩⟩
  | failed h =>
    obtain ⟨hpackages, hkind, hzero⟩ := h
    refine ⟨hpackages, .inr ⟨_, _, rfl, rfl, hkind⟩, fun hlimit => ?_⟩
    obtain ⟨rfl, rfl⟩ := hzero hlimit
    exact ⟨rfl, rfl⟩

theorem CutAlike.eq_of_waiting (h : CutAlike limit first (items, .waiting, r)) :
    ∃ s, first = (items, .waiting, s) ∧ Alike s r := by
  cases h with
  | waiting h => exact ⟨_, rfl, h⟩

theorem CutAlike.alike (h : CutAlike limit first (items, verdict, r)) (halike : Alike r s) :
    CutAlike limit first (items, verdict, s) := by
  cases h with
  | waiting h => exact .waiting (h.trans halike)
  | failed h => exact .failed h

/-- Items that were handed out before make no difference. -/
theorem CutAlike.prepend {verdict verdict' : Verdict} {others' : List (Item π)}
    (h : CutAlike limit (others, verdict, r) (others', verdict', s)) (items : List (Item π)) :
    CutAlike limit (items ++ others, verdict, r) (items ++ others', verdict', s) := by
  cases h with
  | waiting h => exact .waiting h
  | failed h =>
    refine .failed ⟨?_, h.2.1, fun hzero => ⟨?_, (h.2.2 hzero).2⟩⟩
    · rw [packagesOf_append, packagesOf_append, h.1]
    · rw [(h.2.2 hzero).1]

end CutAlike

/-- Segment after segment comes to the same as all bytes in one segment. -/
theorem feed_cutAlike_decode (segments : List Bytes) (hready : Ready r.decoder r.pending.bytes)
    (hsettled : Settled r) :
    CutAlike r.limit (r.feed segments) (r.extend segments.flatten).decode := by
  induction segments generalizing r with
  | nil =>
    have hextend : Alike r (r.extend []) := ⟨⟨by simp, rfl, rfl, rfl⟩, rfl⟩
    have hrun : Runs r [] .waiting r.pass.2.2 :=
      .last (Prod.ext hsettled.items (Prod.ext hsettled.verdict rfl)) (by simp)
    obtain ⟨s, hrun', halike⟩ := hrun.alike hextend
    rw [feed, List.flatten_nil, decode_eq_of_runs law (ready_extend law hready []) hrun']
    exact .waiting (hsettled.behind.trans halike)
  | cons segment rest ih =>
    have hready' := ready_extend law hready segment
    have hreadyAll := ready_extend law hready (segment ++ rest.flatten)
    have hall := extend_append_alike r segment rest.flatten
    have hrun := runs_decode law hready'
    rw [List.flatten_cons, feed]
    rcases hdecode : (r.extend segment).decode with ⟨items, verdict, mid⟩
    rw [hdecode] at hrun
    cases verdict with
    | again => exact absurd rfl hrun.ne_again
    | waiting =>
      have hmid := hrun.ready law hready'
      have hrest := runs_decode law (ready_extend law hmid rest.flatten)
      obtain ⟨t, hboth, ht⟩ := hrun.resume law hready' rest.flatten hrest
      obtain ⟨t', hboth', ht'⟩ := hboth.alike hall.symm
      rw [decode_eq_of_runs law hreadyAll hboth']
      have hfeed := (ih hmid (hrun.settled law hready')).prepend items
      rw [hrun.limit_eq] at hfeed
      exact hfeed.alike (ht.trans ht')
    | failed error =>
      obtain ⟨items', error', s', hrun', halike⟩ := hrun.extend_failed law hready' rest.flatten
      obtain ⟨t, hall', _⟩ := hrun'.alike hall.symm
      rw [decode_eq_of_runs law hreadyAll hall']
      exact .failed halike

/-- Segment after segment comes to what a run over all bytes comes to. -/
theorem feed_cutAlike_runs {segments : List Bytes} (hready : Ready r.decoder r.pending.bytes)
    (hsettled : Settled r) (hruns : Runs (r.extend segments.flatten) items verdict t) :
    CutAlike r.limit (r.feed segments) (items, verdict, t) := by
  have hcut := feed_cutAlike_decode law segments hready hsettled
  rwa [decode_eq_of_runs law (ready_extend law hready _) hruns] at hcut

/-- Two cuts of the same bytes come to the same. -/
theorem feed_cutAlike_feed {left right : List Bytes} (hsame : left.flatten = right.flatten)
    (hready : Ready r.decoder r.pending.bytes) (hsettled : Settled r) :
    CutAlike r.limit (r.feed left) (r.feed right) := by
  have hleft := feed_cutAlike_decode law left hready hsettled
  have hright := feed_cutAlike_decode law right hready hsettled
  rw [hsame] at hleft
  exact hleft.trans hright.symm

/-- What a run comes to over bytes that arrive later is what it comes to over all bytes. -/
theorem Runs.behind (hrun : Runs r [] .waiting mid) (hready : Ready r.decoder r.pending.bytes)
    {more : Bytes} (hall : Runs (r.extend more) items verdict t) :
    ∃ t', Runs (mid.extend more) items verdict t' := by
  have hrest := runs_decode law (ready_extend law (hrun.ready law hready) more)
  obtain ⟨t', hboth, _⟩ := hrun.resume law hready more hrest
  obtain ⟨hitems, hverdict, _⟩ := hall.unique hboth
  rw [hitems, hverdict]
  exact ⟨_, hrest⟩

end Reassembly

end FramedChannel
