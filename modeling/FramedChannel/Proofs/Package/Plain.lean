import FramedChannel.Package.FixedSize
import FramedChannel.Proofs.Package.Cuts
import FramedChannel.Proofs.Package.Terminated

/-!
# Decoders that send no replies

Lines, terminated packages and packages of a fixed size are decoded in one
phase and without a word to the peer.

* `Plain` is what such a decoder owes.  `Plain.repliesOf_decode` and
  `Plain.packagesOf_feed_eq` are what it gets for that.
* `Searching` are the decoders that search for a terminator, and
  `Searching.plain` settles all of them; `FixedSize.plain` is the other one.
-/

namespace FramedChannel

open Reassembly

variable {σ π : Type} [PackageDecoder σ π]

/-- A decoder that has nothing to do before bytes arrive, whose reads can be cut anywhere and that
never sends a reply. -/
structure Plain (decoder : σ) : Prop where
  resumable : ∃ Ready : σ → Bytes → Prop, Resumable Ready ∧ Ready decoder []
  silent : ∀ (d : σ) (bytes : Bytes), (PackageDecoder.attempt d bytes).replies = []
  idle : PackageDecoder.attempt decoder [] = .needMore decoder
  next : PackageDecoder.next? decoder = none
  withLimit : ∀ limit, PackageDecoder.withLimit decoder limit = decoder

namespace Reassembly

variable (r : Reassembly σ)

@[simp] theorem repliesOf_append (items others : List (Item π)) :
    repliesOf (items ++ others) = repliesOf items ++ repliesOf others :=
  List.filterMap_append ..

@[simp] theorem repliesOf_map_reply (replies : List Bytes) :
    repliesOf (replies.map (Item.reply (π := π))) = replies := by
  simp [repliesOf, List.filterMap_map]

@[simp] theorem repliesOf_map_package (packages : List π) :
    repliesOf (packages.map Item.package) = [] := by
  simp [repliesOf, List.filterMap_map]

/-- The replies of a pass are those of its attempt. -/
theorem repliesOf_pass : repliesOf r.pass.1 = r.trial.replies := by
  cases hresult : r.trial.result with
  | error error => rw [pass_of_error hresult, repliesOf_map_reply]
  | ok package =>
    cases hlimit : r.exceeds r.trial with
    | true => rw [pass_of_exceeds hresult hlimit, repliesOf_map_reply]
    | false => simp [items_pass_of_ok hresult hlimit, handedOut]

end Reassembly

namespace Plain

variable {decoder : σ} {limit : Nat} {segments : List Bytes} {items : List (Item π)}
  {r : Reassembly σ}

theorem repliesOf_passes (h : Plain decoder) (count : Nat) (r : Reassembly σ) :
    repliesOf (r.passes count).1 = [] := by
  induction count generalizing r with
  | zero => rfl
  | succ count ih =>
    have hpass : repliesOf r.pass.1 = [] := by
      rw [repliesOf_pass]
      exact h.silent ..
    rw [passes]
    split
    · rename_i items s hsame
      rw [hsame] at hpass
      rw [repliesOf_append, hpass, ih, List.append_nil]
    · exact hpass

/-- Decoding hands out nothing but packages. -/
theorem repliesOf_decode (h : Plain decoder) (r : Reassembly σ) : repliesOf r.decode.1 = [] :=
  h.repliesOf_passes _ r

/-- A decoder that nothing was given to has nothing to do. -/
theorem settled (h : Plain decoder) (limit : Nat) : Settled (Reassembly.of decoder limit) := by
  have hreassembly : Reassembly.of decoder limit = { decoder, limit } := by
    rw [Reassembly.of, h.withLimit]
  have htrial : (Reassembly.of decoder limit).trial = .needMore decoder := by
    rw [hreassembly]
    exact h.idle
  have hwaits : (Reassembly.of decoder limit).trial.Waits := by
    rw [htrial]
    exact ⟨rfl, rfl⟩
  have hexceeds : (Reassembly.of decoder limit).exceeds (Reassembly.of decoder limit).trial =
      false := by
    rw [htrial, hreassembly]
    simp [exceeds, measured, Attempt.needMore]
  have hpass := pass_of_waits hwaits (by rw [htrial]; exact h.next) hexceeds
  rw [htrial, hreassembly] at hpass
  refine ⟨?_, ?_, ?_⟩ <;> rw [hreassembly, hpass]
  · rfl
  · exact ⟨⟨by simp, rfl, rfl, rfl⟩, rfl⟩

theorem ready_of (h : Plain decoder) {Ready : σ → Bytes → Prop} (hready : Ready decoder [])
    (limit : Nat) : Ready (Reassembly.of decoder limit).decoder
      (Reassembly.of decoder limit).pending.bytes := by
  rw [Reassembly.of, h.withLimit]
  exact hready

/-- The packages do not depend on where the bytes are cut. -/
theorem packagesOf_feed_eq (h : Plain decoder) (limit : Nat) {left right : List Bytes}
    (hsame : left.flatten = right.flatten) :
    packagesOf ((Reassembly.of decoder limit).feed left).1 =
      packagesOf ((Reassembly.of decoder limit).feed right).1 := by
  obtain ⟨Ready, law, hready⟩ := h.resumable
  exact (feed_cutAlike_feed law hsame (h.ready_of hready limit) (h.settled limit)).outcome.1

/-- Behind segments that went well, one more comes to an end. -/
theorem decode_ne_again (h : Plain decoder)
    (hfeed : (Reassembly.of decoder limit).feed segments = (items, .waiting, r)) (segment : Bytes) :
    (r.extend segment).decode.2.1 ≠ .again := by
  obtain ⟨Ready, law, hready⟩ := h.resumable
  obtain ⟨hready', _⟩ := feed_induction law (P := fun _ => True) (fun _ _ _ _ => trivial)
    (h.ready_of hready limit) trivial hfeed
  exact (runs_decode law (ready_extend law hready' segment)).ne_again

end Plain

/-! ## Packages of a fixed size -/

theorem FixedSize.resumableAt {d : FixedSize} {bytes : Bytes} (hsize : 0 < d.size) :
    ResumableAt (fun d _ => 0 < FixedSize.size d) d bytes := by
  have hattempt : ∀ bytes, PackageDecoder.attempt d bytes =
      if bytes.length < d.size then .needMore d else .complete d d.size (bytes.take d.size) :=
    fun _ => rfl
  by_cases hshort : bytes.length < d.size
  · have hneed : PackageDecoder.attempt d bytes = .needMore d := by rw [hattempt, if_pos hshort]
    refine .of_waits ?_ ?_ ?_ ?_ ?_ ?_
    · rw [hneed]
      exact ⟨rfl, rfl⟩
    · rw [hneed]
      rfl
    · rw [hneed]
      rfl
    · rw [hneed]
      exact hsize
    · intro more
      rw [hneed]
      rfl
    · intro _ more
      rw [hattempt]
      split
      · exact ⟨rfl, fun hused => absurd hused (Nat.lt_irrefl 0)⟩
      · exact ⟨rfl, fun _ => hshort⟩
  · have hcomplete : PackageDecoder.attempt d bytes = .complete d d.size (bytes.take d.size) := by
      rw [hattempt, if_neg hshort]
    refine .of_moves ?_ ?_ ?_ ?_ ?_ <;> rw [hcomplete]
    · intro hwaits
      cases hwaits.1
    · exact Nat.not_lt.1 hshort
    · intro _ more
      have hlong : ¬ (bytes ++ more).length < d.size := by
        rw [List.length_append]
        omega
      rw [hattempt, if_neg hlong, List.take_append_of_le_length (Nat.not_lt.1 hshort)]
    · intro _ _
      exact ⟨hsize, hsize⟩
    · intro _ herror
      cases herror

theorem FixedSize.resumable : Resumable fun d _ => 0 < FixedSize.size d where
  extend h _ := h
  resumableAt := FixedSize.resumableAt
  discard _ hdiscards := by cases hdiscards

theorem FixedSize.plain {d : FixedSize} (hsize : 0 < d.size) : Plain d where
  resumable := ⟨_, FixedSize.resumable, hsize⟩
  silent d bytes := by
    simp only [PackageDecoder.attempt]
    split <;> rfl
  idle := if_pos hsize
  next := rfl
  withLimit _ := rfl

/-! ## Packages before a terminator -/

/-- A decoder that searches for a terminator, and makes one attempt out of what is in front of
it. -/
structure Searching (wrap : Terminated → σ) (finish : Terminated → Bytes → Nat → Attempt σ π) :
    Prop where
  onto : ∀ d, ∃ t, d = wrap t
  attempt : ∀ t bytes, PackageDecoder.attempt (wrap t) bytes =
    match t.split bytes with
    | (after, some (package, used)) => finish after package used
    | (after, none) => .needMore (wrap after)
  finish : ∀ t block used, (∃ package, finish t block used = .complete (wrap t) used package) ∨
    ∃ violation, finish t block used = .fail (wrap t) used (.protocol violation)
  reset : ∀ t, PackageDecoder.reset (wrap t) = wrap t.reset
  next : ∀ t, PackageDecoder.next? (wrap t) = none
  discards : ∀ t, PackageDecoder.discards (wrap t) = false
  withLimit : ∀ t limit, PackageDecoder.withLimit (wrap t) limit = wrap t

namespace Searching

variable {wrap : Terminated → σ} {finish : Terminated → Bytes → Nat → Attempt σ π}
  {t after : Terminated} {bytes block : Bytes} {used : Nat}

/-- The search as the law for cuts wants it. -/
def Ready (wrap : Terminated → σ) (d : σ) (bytes : Bytes) : Prop :=
  ∃ t, d = wrap t ∧ t.Ready bytes

theorem attempt_of_none (h : Searching wrap finish) (hsplit : t.split bytes = (after, none)) :
    PackageDecoder.attempt (wrap t) bytes = .needMore (wrap after) := by
  rw [h.attempt, hsplit]

theorem attempt_of_some (h : Searching wrap finish)
    (hsplit : t.split bytes = (after, some (block, used))) :
    PackageDecoder.attempt (wrap t) bytes = finish after block used := by
  rw [h.attempt, hsplit]

theorem resumableAt (h : Searching wrap finish) (hready : t.Ready bytes) :
    ResumableAt (Ready wrap) (wrap t) bytes := by
  rcases hsplit : t.split bytes with ⟨after, _ | ⟨block, used⟩⟩
  · -- Nothing was found, and a terminator that more bytes complete ends in them.
    obtain ⟨_, hready', hsame⟩ := Terminated.split_eq_none hready hsplit
    have hneed := h.attempt_of_none hsplit
    refine .of_waits ?_ ?_ ?_ ?_ ?_ ?_
    · rw [hneed]
      exact ⟨rfl, rfl⟩
    · rw [hneed]
      rfl
    · rw [hneed]
      exact h.next after
    · rw [hneed]
      exact ⟨after, rfl, hready'⟩
    · intro more
      rw [hneed, Attempt.needMore, h.attempt, h.attempt, hsame more]
    · intro _ more
      rcases hmore : t.split (bytes ++ more) with ⟨later, _ | ⟨block, used⟩⟩
      · rw [h.attempt_of_none hmore]
        exact ⟨h.discards later, fun hused => absurd hused (Nat.lt_irrefl 0)⟩
      · have hlate := Terminated.length_lt_of_split_append hready (by rw [hsplit])
          (congrArg Prod.snd hmore)
        rw [h.attempt_of_some hmore]
        obtain ⟨package, hfinish⟩ | ⟨violation, hfinish⟩ := h.finish later block used <;>
          rw [hfinish]
        · exact ⟨h.discards later, fun _ => hlate⟩
        · exact ⟨violation, rfl⟩
  · obtain ⟨rfl, hpos, hle, _, hsame⟩ := Terminated.split_eq_some hready hsplit
    have hattempt := h.attempt_of_some hsplit
    have hmore : ∀ more, PackageDecoder.attempt (wrap t) (bytes ++ more) =
        finish t.reset block used := by
      intro more
      rw [h.attempt, hsame more, hsplit]
    obtain ⟨package, hfinish⟩ | ⟨violation, hfinish⟩ := h.finish t.reset block used <;>
      rw [hfinish] at hattempt hmore
    · have hbehind : (PackageDecoder.attempt (wrap t) bytes).behind = wrap t.reset := by
        rw [hattempt, Attempt.behind, Attempt.complete, h.next]
        exact h.reset t.reset
      refine .of_moves ?_ ?_ ?_ ?_ ?_
      · intro hwaits
        rw [hattempt] at hwaits
        cases hwaits.1
      · rw [hattempt]
        exact hle
      · intro _ more
        rw [hmore more, hattempt]
      · intro _ _
        rw [hbehind, hattempt]
        exact ⟨hpos, t.reset, rfl, Terminated.ready_of_scanned_eq_zero hready.terminator_ne_nil rfl⟩
      · intro error herror
        rw [hattempt] at herror
        cases herror
    · refine .of_moves ?_ ?_ ?_ ?_ ?_
      · intro hwaits
        rw [hattempt] at hwaits
        cases hwaits.1
      · rw [hattempt]
        exact hle
      · intro _ more
        rw [hmore more, hattempt]
      · intro package hresult
        rw [hattempt] at hresult
        cases hresult
      · intro error herror
        rw [hattempt] at herror
        cases herror
        trivial

theorem resumable (h : Searching wrap finish) : Resumable (Ready wrap) where
  extend := by
    rintro d bytes ⟨t, rfl, hready⟩ more
    exact ⟨t, rfl, hready.append more⟩
  resumableAt := by
    rintro d bytes ⟨t, rfl, hready⟩
    exact h.resumableAt hready
  discard := by
    rintro d bytes ⟨t, rfl, hready⟩ hdiscards
    rw [h.discards] at hdiscards
    cases hdiscards

/-- A search that begins with the first byte. -/
theorem plain (h : Searching wrap finish) {terminator : Bytes} (hne : terminator ≠ []) :
    Plain (wrap { terminator }) where
  resumable :=
    ⟨Ready wrap, h.resumable, _, rfl, Terminated.ready_of_scanned_eq_zero hne rfl⟩
  silent d bytes := by
    obtain ⟨t, rfl⟩ := h.onto d
    rcases hsplit : t.split bytes with ⟨after, _ | ⟨block, used⟩⟩
    · rw [h.attempt_of_none hsplit]
      rfl
    · rw [h.attempt_of_some hsplit]
      obtain ⟨package, hfinish⟩ | ⟨violation, hfinish⟩ := h.finish after block used <;>
        rw [hfinish] <;> rfl
  idle := by
    have hnone : Bytes.find terminator [] 0 = none := by
      rw [Bytes.find_eq_none_iff hne]
      intro i _ hprefix
      have hlength := hprefix.length_le
      simp at hlength
      exact hne hlength
    have hsplit : Terminated.split { terminator } [] = ({ terminator }, none) := by
      unfold Terminated.split
      simp [hnone]
    exact h.attempt_of_none hsplit
  next := h.next _
  withLimit := h.withLimit _

end Searching

theorem searching_terminated :
    Searching (σ := Terminated) id fun t block used => .complete t used block where
  onto d := ⟨d, rfl⟩
  attempt t bytes := by
    rcases hsplit : t.split bytes with ⟨after, _ | ⟨block, used⟩⟩ <;>
      simp [PackageDecoder.attempt, hsplit]
  finish t block used := .inl ⟨block, rfl⟩
  reset _ := rfl
  next _ := rfl
  discards _ := rfl
  withLimit _ _ := rfl

theorem searching_line :
    Searching LineDecoder.mk fun t block used =>
      match Utf8.decode block with
      | .ok text => .complete ⟨t⟩ used text
      | .error fault => .fail ⟨t⟩ used (.protocol (.lineNotText fault)) where
  onto d := ⟨d.packages, rfl⟩
  attempt t bytes := by
    rcases hsplit : t.split bytes with ⟨after, _ | ⟨block, used⟩⟩
    · simp [PackageDecoder.attempt, hsplit]
    · cases hdecode : Utf8.decode block <;> simp [PackageDecoder.attempt, hsplit, hdecode]
  finish t block used := by
    cases Utf8.decode block with
    | ok text => exact .inl ⟨text, rfl⟩
    | error fault => exact .inr ⟨_, rfl⟩
  reset _ := rfl
  next _ := rfl
  discards _ := rfl
  withLimit _ _ := rfl

/-! ## The decoders as they are made -/

theorem LineDecoder.plain : Plain ({} : LineDecoder) :=
  searching_line.plain (by decide)

theorem Terminated.plain {terminator : Bytes} {t : Terminated}
    (h : Terminated.of terminator = .ok t) : Plain t := by
  unfold Terminated.of at h
  split at h
  · cases h
  · rename_i hne
    cases h
    exact searching_terminated.plain (by simpa using hne)

theorem FixedSize.plain_of {size : Nat} {d : FixedSize} (h : FixedSize.of size = .ok d) :
    Plain d := by
  unfold FixedSize.of at h
  split at h
  · cases h
  · cases h
    exact FixedSize.plain (by simp; omega)

end FramedChannel
