import Mathlib.Data.List.TakeWhile
import FramedChannel.Proofs.Package.Plain
import FramedChannel.Proofs.Text.Utf8

/-!
# Packages as pieces of the bytes

Lines, terminated packages and packages of a fixed size are pieces of the
received bytes, in order and without a gap.  Here the pieces are said without a
decoder, and all three decoders are shown to hand out just these.

* `Bytes.pieces` cuts at the first occurrence of a terminator, again and again,
  and `Bytes.blocks` after every so many bytes.
* `Split` is what decoding owes for some pieces and a rest: a package for each
  piece, up to the first piece that is too long or unreadable.
* `Splitting` is the law of one attempt: it looks at the piece in front.
  `Splitting.runs` follows by induction over the pieces.
* `Splitting.feed` takes it to all cuts of the bytes into segments.
-/

namespace FramedChannel

/-! ## The reference -/

namespace Bytes

variable {needle bytes front back : Bytes}

/-- What is in front of the first occurrence of a needle, and what is behind it. -/
def divide? (needle : Bytes) : Bytes → Option (Bytes × Bytes)
  | [] => none
  | byte :: rest =>
    if needle.isPrefixOf (byte :: rest) then some ([], (byte :: rest).drop needle.length)
    else (divide? needle rest).map fun (front, back) => (byte :: front, back)

theorem eq_of_divide? (h : divide? needle bytes = some (front, back)) :
    bytes = front ++ (needle ++ back) := by
  induction bytes generalizing front with
  | nil => cases h
  | cons byte rest ih =>
    unfold divide? at h
    split at h
    · rename_i hprefix
      cases h
      obtain ⟨behind, hbehind⟩ := List.isPrefixOf_iff_prefix.1 hprefix
      rw [← hbehind, List.drop_left, List.nil_append]
    · cases hrest : divide? needle rest with
      | none => simp [hrest] at h
      | some parts =>
        obtain ⟨within, behind⟩ := parts
        simp only [hrest, Option.map_some, Option.some.injEq, Prod.mk.injEq] at h
        obtain ⟨rfl, rfl⟩ := h
        rw [ih hrest, List.cons_append]

/-- The pieces of some bytes between the occurrences of a needle, and the rest behind the last one.
An empty needle cuts nothing. -/
def pieces (needle bytes : Bytes) : List Bytes × Bytes :=
  if _hne : needle = [] then ([], bytes)
  else
    match _hdivide : divide? needle bytes with
    | none => ([], bytes)
    | some (front, back) =>
      let (more, rest) := pieces needle back
      (front :: more, rest)
termination_by bytes.length
decreasing_by
  have hlength := congrArg List.length (eq_of_divide? _hdivide)
  have hpos := List.length_pos_iff.2 _hne
  simp only [List.length_append] at hlength
  omega

/-- The blocks of `size` bytes that some bytes begin with. -/
def blocks (size : Nat) (bytes : Bytes) : List Bytes :=
  (List.range (bytes.length / size)).map fun i => (bytes.drop (i * size)).take size

/-- The bytes behind all blocks. -/
def restOfBlocks (size : Nat) (bytes : Bytes) : Bytes :=
  bytes.drop (bytes.length / size * size)

/-- The search is for the place where the reference cuts. -/
theorem find_eq_divide? (hne : needle ≠ []) :
    find needle bytes 0 = (divide? needle bytes).map (·.1.length) := by
  have hfrom : ∀ start, findFrom needle start bytes =
      (divide? needle bytes).map (start + ·.1.length) := by
    induction bytes with
    | nil => exact fun _ => rfl
    | cons byte rest ih =>
      intro start
      unfold findFrom divide?
      split
      · rfl
      · rw [ih, Option.map_map]
        congr 1
        funext parts
        simp only [Function.comp_apply, List.length_cons]
        omega
  have hneedle : needle.isEmpty = false := by simpa using hne
  rw [find, hneedle, if_neg Bool.false_ne_true, List.drop_zero, hfrom]
  simp

theorem pieces_of_none (h : divide? needle bytes = none) : pieces needle bytes = ([], bytes) := by
  rw [pieces]
  split
  · rfl
  · split
    · rfl
    · rename_i hdivide
      rw [h] at hdivide
      cases hdivide

theorem pieces_of_some (hne : needle ≠ []) (h : divide? needle bytes = some (front, back)) :
    pieces needle bytes = (front :: (pieces needle back).1, (pieces needle back).2) := by
  rw [pieces, dif_neg hne]
  split
  · rename_i hdivide
    rw [h] at hdivide
    cases hdivide
  · rename_i hdivide
    rw [h] at hdivide
    cases hdivide
    rfl

/-- A first block, and the blocks of the bytes behind it. -/
theorem blocks_of_le {size : Nat} (hpos : 0 < size) (hle : size ≤ bytes.length) :
    blocks size bytes = bytes.take size :: blocks size (bytes.drop size) ∧
      restOfBlocks size bytes = restOfBlocks size (bytes.drop size) := by
  have hcount : bytes.length / size = (bytes.drop size).length / size + 1 := by
    rw [List.length_drop, ← Nat.add_div_right _ hpos, Nat.sub_add_cancel hle]
  constructor
  · rw [blocks, hcount, List.range_succ_eq_map, List.map_cons, List.map_map, Nat.zero_mul,
      List.drop_zero, blocks]
    congr 1
    refine List.map_congr_left fun i _ => ?_
    rw [Function.comp_apply, List.drop_drop, Nat.succ_mul, Nat.add_comm size]
  · rw [restOfBlocks, hcount, restOfBlocks, List.drop_drop, Nat.succ_mul, Nat.add_comm size]

/-- Fewer bytes than a block has are the rest. -/
theorem blocks_of_lt {size : Nat} (hlt : bytes.length < size) :
    blocks size bytes = [] ∧ restOfBlocks size bytes = bytes := by
  have hcount : bytes.length / size = 0 := Nat.div_eq_of_lt hlt
  rw [blocks, restOfBlocks, hcount, Nat.zero_mul]
  exact ⟨rfl, rfl⟩

end Bytes

/-- So many bytes do not go past a limit. -/
def Fits (limit count : Nat) : Prop :=
  limit = 0 ∨ count ≤ limit

instance (limit count : Nat) : Decidable (Fits limit count) :=
  inferInstanceAs (Decidable (_ ∨ _))

variable {σ π : Type}

/-- The package that a piece makes under a limit, if it makes one.  The `width` bytes behind the
piece count as well. -/
def accept (limit width : Nat) (make : Bytes → Option π) (piece : Bytes) : Option π :=
  if Fits limit (piece.length + width) then make piece else none

/-- What decoding hands out for some pieces and the rest behind them, how it ends, and what it
leaves in the buffer. -/
structure Split (limit : Nat) (accept : Bytes → Option π) (pieces : List Bytes) (rest : Bytes)
    (outcome : List (Item π) × Verdict × Reassembly σ) : Prop where
  /-- A package for each piece in front of the first one that makes none. -/
  packages : Reassembly.packagesOf outcome.1 =
    (pieces.takeWhile fun piece => (accept piece).isSome).filterMap accept
  /-- If all pieces make one and the rest is not too long, exactly the rest stays. -/
  waiting : (∀ piece ∈ pieces, (accept piece).isSome) → Fits limit rest.length →
    outcome.2.1 = .waiting ∧ outcome.2.2.pending.bytes = rest
  /-- And if not, the peer broke the protocol. -/
  failed : ¬ ((∀ piece ∈ pieces, (accept piece).isSome) ∧ Fits limit rest.length) →
    ∃ violation, outcome.2.1 = .failed (.protocol violation)

/-! ## Decoders that cut off the piece in front -/

/-- The pieces that are cut off the front of some bytes, one after another, each with the `width`
bytes behind it, until there is none. -/
inductive Parts (first : Bytes → Option Bytes) (width : Nat) : Bytes → List Bytes → Bytes → Prop
  | rest {bytes : Bytes} (hnone : first bytes = none) : Parts first width bytes [] bytes
  | piece {bytes piece rest : Bytes} {pieces : List Bytes} (hfirst : first bytes = some piece)
      (hparts : Parts first width (bytes.drop (piece.length + width)) pieces rest) :
      Parts first width bytes (piece :: pieces) rest

/-- What an attempt owes that makes a package of the piece in front.  `State` are the states that
the decoder has in between. -/
structure Splitting [PackageDecoder σ π] (State : σ → Bytes → Prop)
    (first : Bytes → Option Bytes) (width : Nat) (make : Bytes → Option π) : Prop where
  keeps : ∀ d : σ, PackageDecoder.discards d = false
  next : ∀ d : σ, PackageDecoder.next? d = none
  waits : ∀ {d bytes}, State d bytes → first bytes = none → (PackageDecoder.attempt d bytes).Waits
  breaks : ∀ {d bytes piece}, State d bytes → first bytes = some piece → make piece = none →
    ∃ violation, (PackageDecoder.attempt d bytes).result = .error (.protocol violation)
  makes : ∀ {d bytes piece package}, State d bytes → first bytes = some piece →
    make piece = some package →
      (PackageDecoder.attempt d bytes).result = .ok (some package) ∧
      (PackageDecoder.attempt d bytes).consumed = piece.length + width ∧
      0 < piece.length + width ∧
      State (PackageDecoder.attempt d bytes).behind (bytes.drop (piece.length + width))

open Reassembly

namespace Splitting

variable [PackageDecoder σ π] {State : σ → Bytes → Prop} {first : Bytes → Option Bytes}
  {width : Nat} {make : Bytes → Option π} {bytes rest : Bytes} {pieces : List Bytes}
  {r : Reassembly σ}

theorem exceeds_iff (h : Splitting State first width make) (r : Reassembly σ) (a : Attempt σ π) :
    r.exceeds a = true ↔ ¬ Fits r.limit (r.measured a) := by
  rw [Reassembly.exceeds_iff (h.keeps _), Fits]
  omega

/-- With no piece in front, the bytes wait or are too many. -/
theorem runs_rest (h : Splitting State first width make) (hstate : State r.decoder r.pending.bytes)
    (hnone : first r.pending.bytes = none) :
    ∃ items verdict s, Runs r items verdict s ∧
      Split r.limit (accept r.limit width make) [] r.pending.bytes (items, verdict, s) := by
  have hwaits : r.trial.Waits := h.waits hstate hnone
  have hexceeds := h.exceeds_iff r r.trial
  rw [measured_of_waits hwaits, ← Sequence.length_bytes] at hexceeds
  by_cases hfits : Fits r.limit r.pending.bytes.length
  · have hwithin : r.exceeds r.trial = false := by
      rw [Bool.eq_false_iff]
      exact fun hover => hexceeds.1 hover hfits
    refine ⟨_, _, _, .last (pass_of_waits hwaits (h.next _) hwithin) (by simp), ?_⟩
    refine ⟨packagesOf_map_reply _, fun _ _ => ⟨rfl, by simp⟩, ?_⟩
    intro hbroken
    exact absurd ⟨by simp, hfits⟩ hbroken
  · refine ⟨_, _, _, .last (pass_of_exceeds hwaits.1 (hexceeds.2 hfits)) (by simp), ?_⟩
    refine ⟨packagesOf_map_reply _, ?_, fun _ => ⟨_, rfl⟩⟩
    exact fun _ hfits' => absurd hfits' hfits

/-- A piece in front that makes no package ends the run, and nothing behind it is looked at. -/
theorem runs_refused (h : Splitting State first width make)
    (hstate : State r.decoder r.pending.bytes) {piece : Bytes}
    (hfirst : first r.pending.bytes = some piece)
    (hrefused : accept r.limit width make piece = none) :
    ∃ items verdict s, Runs r items verdict s ∧
      Split r.limit (accept r.limit width make) (piece :: pieces) rest (items, verdict, s) := by
  have hsplit : ∀ (replies : List Bytes) (violation : Violation) (s : Reassembly σ),
      Split r.limit (accept r.limit width make) (piece :: pieces) rest
        (replies.map .reply, .failed (.protocol violation), s) := by
    intro replies violation s
    refine ⟨?_, ?_, fun _ => ⟨violation, rfl⟩⟩
    · simp [hrefused]
    · intro hall _
      have hmade := hall piece (.head _)
      rw [hrefused] at hmade
      cases hmade
  cases hmake : make piece with
  | none =>
    obtain ⟨violation, hresult⟩ := h.breaks hstate hfirst hmake
    exact ⟨_, _, _, .last (pass_of_error hresult) (by simp), hsplit ..⟩
  | some package =>
    obtain ⟨hresult, hconsumed, hpos, _⟩ := h.makes hstate hfirst hmake
    have hover : r.exceeds r.trial = true := by
      rw [h.exceeds_iff, measured_of_moves (by rw [trial, hconsumed]; exact hpos), trial, hconsumed]
      intro hfits
      rw [accept, if_pos hfits, hmake] at hrefused
      cases hrefused
    exact ⟨_, _, _, .last (pass_of_exceeds hresult hover) (by simp), hsplit ..⟩

/-- A piece in front that makes a package is handed out, and what follows is read on from there. -/
theorem pass_of_accepted (h : Splitting State first width make)
    (hstate : State r.decoder r.pending.bytes) {piece : Bytes} {package : π}
    (hfirst : first r.pending.bytes = some piece)
    (hmade : accept r.limit width make piece = some package) :
    ∃ items s, r.pass = (items, .again, s) ∧ packagesOf items = [package] ∧ s.limit = r.limit ∧
      s.pending.bytes = r.pending.bytes.drop (piece.length + width) ∧
      State s.decoder s.pending.bytes := by
  obtain ⟨hfits, hmake⟩ : Fits r.limit (piece.length + width) ∧ make piece = some package := by
    unfold accept at hmade
    split at hmade
    · rename_i hfits
      exact ⟨hfits, hmade⟩
    · cases hmade
  obtain ⟨hresult, hconsumed, hpos, hbehind⟩ := h.makes hstate hfirst hmake
  change r.trial.result = _ at hresult
  change r.trial.consumed = _ at hconsumed
  have hmoves : 0 < r.trial.consumed := hconsumed ▸ hpos
  have hwithin : r.exceeds r.trial = false := by
    rw [Bool.eq_false_iff]
    intro hover
    rw [h.exceeds_iff, measured_of_moves hmoves, hconsumed] at hover
    exact hover hfits
  have hbytes : (r.behind r.trial).pending.bytes =
      r.pending.bytes.drop (piece.length + width) := by
    rw [behind, Sequence.bytes_discard, hconsumed]
  refine ⟨_, _, pass_of_moves hresult hmoves hwithin, ?_, rfl, hbytes, ?_⟩
  · rw [handedOut, packagesOf_append, packagesOf_map_reply]
    rfl
  · rw [hbytes]
    exact hbehind

/-- One decode hands out what the pieces of the buffered bytes make. -/
theorem runs (h : Splitting State first width make) (hparts : Parts first width bytes pieces rest)
    (hbytes : r.pending.bytes = bytes) (hstate : State r.decoder bytes) :
    ∃ items verdict s, Runs r items verdict s ∧
      Split r.limit (accept r.limit width make) pieces rest (items, verdict, s) := by
  induction hparts generalizing r with
  | rest hnone =>
    subst hbytes
    exact h.runs_rest hstate hnone
  | @piece bytes piece rest pieces hfirst hparts ih =>
    subst hbytes
    cases hmade : accept r.limit width make piece with
    | none => exact h.runs_refused hstate hfirst hmade
    | some package =>
      obtain ⟨items, s, hpass, hpackages, hlimit, hrest, hstate'⟩ :=
        h.pass_of_accepted hstate hfirst hmade
      rw [hrest] at hstate'
      obtain ⟨others, verdict, t, hruns, hsplit⟩ := ih hrest hstate'
      rw [hlimit] at hsplit
      refine ⟨_, verdict, t, .more hpass hruns, ?_, ?_, ?_⟩
      · rw [packagesOf_append, hpackages, hsplit.packages]
        simp [hmade]
      · intro hall hfits
        exact hsplit.waiting (fun piece' hin => hall piece' (.tail _ hin)) hfits
      · intro hbroken
        refine hsplit.failed fun ⟨hall, hfits⟩ => hbroken ⟨?_, hfits⟩
        simpa [hmade] using hall

/-- Segments hand out what the pieces of all their bytes make. -/
theorem feed (h : Splitting State first width make) {decoder : σ} (hplain : Plain decoder)
    (limit : Nat) {segments : List Bytes} (hstate : State decoder segments.flatten)
    (hparts : Parts first width segments.flatten pieces rest) :
    Split limit (accept limit width make) pieces rest
      ((Reassembly.of decoder limit).feed segments) := by
  obtain ⟨Ready, law, hready⟩ := hplain.resumable
  have hready' := hplain.ready_of hready limit
  have hstate' : State ((Reassembly.of decoder limit).extend segments.flatten).decoder
      segments.flatten := by
    rw [Reassembly.of, hplain.withLimit]
    exact hstate
  obtain ⟨items, verdict, s, hruns, hsplit⟩ := h.runs hparts (by simp [Reassembly.of]) hstate'
  have hcut := feed_cutAlike_runs law hready' (hplain.settled limit) hruns
  obtain ⟨hpackages, houtcome, _⟩ := hcut.outcome
  refine ⟨hpackages.trans hsplit.packages, ?_, ?_⟩
  · intro hall hfits
    obtain ⟨hwaiting, hrest⟩ := hsplit.waiting hall hfits
    obtain ⟨hfeed, _, halike⟩ | ⟨_, _, _, hfails, _⟩ := houtcome
    · exact ⟨hfeed, halike.bytes.trans hrest⟩
    · rw [hwaiting] at hfails
      cases hfails
  · intro hbroken
    obtain ⟨violation, hfailed⟩ := hsplit.failed hbroken
    obtain ⟨_, hwaits, _⟩ | ⟨error, _, hfeed, hfails, hkind⟩ := houtcome
    · rw [hfailed] at hwaits
      cases hwaits
    · rw [hfailed] at hfails
      cases hfails
      cases error with
      | protocol violation' => exact ⟨violation', hfeed⟩
      | _ => exact absurd hkind (by simp [Error.SameKind])

end Splitting

/-! ## Pieces in front of a terminator -/

/-- What is in front of the first terminator. -/
def beforeFirst (terminator bytes : Bytes) : Option Bytes :=
  (Bytes.divide? terminator bytes).map Prod.fst

theorem parts_pieces {terminator : Bytes} (hne : terminator ≠ []) (bytes : Bytes) :
    Parts (beforeFirst terminator) terminator.length bytes (Bytes.pieces terminator bytes).1
      (Bytes.pieces terminator bytes).2 := by
  induction hlength : bytes.length using Nat.strongRecOn generalizing bytes with
  | _ length ih =>
    cases hdivide : Bytes.divide? terminator bytes with
    | none =>
      rw [Bytes.pieces_of_none hdivide]
      exact .rest (by rw [beforeFirst, hdivide]; rfl)
    | some parts =>
      obtain ⟨front, back⟩ := parts
      have hbytes := Bytes.eq_of_divide? hdivide
      have hback : bytes.drop (front.length + terminator.length) = back := by
        rw [hbytes, ← List.append_assoc, ← List.length_append, List.drop_left]
      have hshorter : back.length < length := by
        have hpos := List.length_pos_iff.2 hne
        rw [← hlength, hbytes, List.length_append, List.length_append]
        omega
      rw [Bytes.pieces_of_some hne hdivide]
      refine .piece (by rw [beforeFirst, hdivide]; rfl) ?_
      rw [hback]
      exact ih back.length hshorter back rfl

/-- The search finds the piece in front, from wherever it goes on. -/
theorem Terminated.split_eq {t : Terminated} {bytes : Bytes} (hready : t.Ready bytes) :
    (beforeFirst t.terminator bytes = none → ∃ after, t.split bytes = (after, none)) ∧
      ∀ piece, beforeFirst t.terminator bytes = some piece →
        t.split bytes = (t.reset, some (piece, piece.length + t.terminator.length)) := by
  have hne := hready.terminator_ne_nil
  have hfind : Bytes.find t.terminator bytes t.scanned =
      (Bytes.divide? t.terminator bytes).map (·.1.length) := by
    have hfrom := hready.find_eq []
    rw [List.append_nil] at hfrom
    rw [hfrom, Bytes.find_eq_divide? hne]
  unfold split beforeFirst
  rw [hfind]
  cases hdivide : Bytes.divide? t.terminator bytes with
  | none => exact ⟨fun _ => ⟨_, rfl⟩, fun _ hpiece => by cases hpiece⟩
  | some parts =>
    obtain ⟨front, back⟩ := parts
    refine ⟨fun hnone => (by cases hnone), ?_⟩
    intro piece hpiece
    cases hpiece
    rw [Bytes.eq_of_divide? hdivide]
    simp

/-- The states of a search for one terminator. -/
def Searching.State (wrap : Terminated → σ) (terminator : Bytes) (d : σ) (bytes : Bytes) : Prop :=
  ∃ t, d = wrap t ∧ t.terminator = terminator ∧ t.Ready bytes

/-- What a search finishes with depends on the piece in front of the terminator alone. -/
structure Making [PackageDecoder σ π] (wrap : Terminated → σ)
    (finish : Terminated → Bytes → Nat → Attempt σ π) (make : Bytes → Option π) : Prop where
  makes : ∀ t piece used package, make piece = some package →
    finish t piece used = .complete (wrap t) used package
  breaks : ∀ t piece used, make piece = none →
    ∃ violation, finish t piece used = .fail (wrap t) used (.protocol violation)

theorem making_terminated :
    Making id (fun t block used => (.complete t used block : Attempt Terminated Bytes)) some where
  makes _ _ _ _ hmake := by
    cases hmake
    rfl
  breaks _ _ _ hmake := by cases hmake

theorem making_line :
    Making LineDecoder.mk
      (fun t block used =>
        match Utf8.decode block with
        | .ok text => .complete ⟨t⟩ used text
        | .error fault => .fail ⟨t⟩ used (.protocol (.lineNotText fault)))
      fun piece => (Utf8.decode piece).toOption where
  makes _ block _ _ hmake := by
    cases hdecode : Utf8.decode block with
    | ok text =>
      rw [hdecode] at hmake
      cases hmake
      rfl
    | error fault =>
      rw [hdecode] at hmake
      cases hmake
  breaks _ block _ hmake := by
    cases hdecode : Utf8.decode block with
    | ok text =>
      rw [hdecode] at hmake
      cases hmake
    | error fault => exact ⟨_, rfl⟩

/-- A search makes packages of the pieces in front of its terminator. -/
theorem Searching.splitting [PackageDecoder σ π] {wrap : Terminated → σ}
    {finish : Terminated → Bytes → Nat → Attempt σ π} (h : Searching wrap finish)
    {make : Bytes → Option π} (hmaking : Making wrap finish make)
    (terminator : Bytes) :
    Splitting (State wrap terminator) (beforeFirst terminator) terminator.length make where
  keeps d := by
    obtain ⟨t, rfl⟩ := h.onto d
    exact h.discards t
  next d := by
    obtain ⟨t, rfl⟩ := h.onto d
    exact h.next t
  waits := by
    rintro d bytes ⟨t, rfl, rfl, hready⟩ hnone
    obtain ⟨after, hsplit⟩ := (Terminated.split_eq hready).1 hnone
    rw [h.attempt_of_none hsplit]
    exact ⟨rfl, rfl⟩
  breaks := by
    rintro d bytes piece ⟨t, rfl, rfl, hready⟩ hfirst hmake
    obtain ⟨violation, hfinish⟩ :=
      hmaking.breaks t.reset piece (piece.length + t.terminator.length) hmake
    rw [h.attempt_of_some ((Terminated.split_eq hready).2 piece hfirst), hfinish]
    exact ⟨violation, rfl⟩
  makes := by
    rintro d bytes piece package ⟨t, rfl, rfl, hready⟩ hfirst hmake
    have hne := hready.terminator_ne_nil
    have hpos := List.length_pos_iff.2 hne
    have hattempt := h.attempt_of_some ((Terminated.split_eq hready).2 piece hfirst)
    rw [hmaking.makes _ _ _ package hmake] at hattempt
    rw [hattempt]
    refine ⟨rfl, rfl, by omega, t.reset, ?_, rfl, Terminated.ready_of_scanned_eq_zero hne rfl⟩
    rw [Attempt.behind, Attempt.complete, h.next]
    exact h.reset t.reset

/-! ## Blocks -/

/-- The block in front. -/
def firstBlock (size : Nat) (bytes : Bytes) : Option Bytes :=
  if bytes.length < size then none else some (bytes.take size)

theorem parts_blocks {size : Nat} (hpos : 0 < size) (bytes : Bytes) :
    Parts (firstBlock size) 0 bytes (Bytes.blocks size bytes) (Bytes.restOfBlocks size bytes) := by
  induction hlength : bytes.length using Nat.strongRecOn generalizing bytes with
  | _ length ih =>
    by_cases hlt : bytes.length < size
    · obtain ⟨hblocks, hrest⟩ := Bytes.blocks_of_lt hlt
      rw [hblocks, hrest]
      exact .rest (if_pos hlt)
    · have hle : size ≤ bytes.length := Nat.not_lt.1 hlt
      obtain ⟨hblocks, hrest⟩ := Bytes.blocks_of_le hpos hle
      rw [hblocks, hrest]
      refine .piece (if_neg hlt) ?_
      rw [Nat.add_zero, List.length_take_of_le hle]
      refine ih _ ?_ _ rfl
      rw [List.length_drop]
      omega

theorem FixedSize.splitting {size : Nat} (hpos : 0 < size) :
    Splitting (fun (d : FixedSize) _ => d = { size }) (firstBlock size) 0 some where
  keeps _ := rfl
  next _ := rfl
  waits := by
    rintro _ bytes rfl hnone
    unfold firstBlock at hnone
    split at hnone
    · rename_i hlt
      rw [show PackageDecoder.attempt (FixedSize.mk size) bytes = .needMore { size } from
        if_pos hlt]
      exact ⟨rfl, rfl⟩
    · cases hnone
  breaks := by
    intro _ _ _ _ _ hmake
    cases hmake
  makes := by
    rintro _ bytes piece package rfl hfirst hmake
    cases hmake
    unfold firstBlock at hfirst
    split at hfirst
    · cases hfirst
    · rename_i hge
      cases hfirst
      have hlength : (bytes.take size).length = size := List.length_take_of_le (Nat.not_lt.1 hge)
      rw [show PackageDecoder.attempt (FixedSize.mk size) bytes =
        .complete { size } size (bytes.take size) from if_neg hge, hlength]
      exact ⟨rfl, rfl, hpos, rfl⟩

/-! ## The decoders as they are made -/

section Decoders

variable (limit : Nat) (segments : List Bytes)

theorem Terminated.feed_split {terminator : Bytes} (hne : terminator ≠ []) :
    ∃ t, Terminated.of terminator = .ok t ∧
      Split limit (accept limit terminator.length some)
        (Bytes.pieces terminator segments.flatten).1 (Bytes.pieces terminator segments.flatten).2
        ((Reassembly.of t limit).feed segments) := by
  have hof : Terminated.of terminator = .ok { terminator } := if_neg (by simpa using hne)
  have hsplitting : Splitting (Searching.State id terminator) (beforeFirst terminator)
      terminator.length some :=
    searching_terminated.splitting making_terminated terminator
  refine ⟨_, hof, hsplitting.feed (Terminated.plain hof) limit ?_ (parts_pieces hne _)⟩
  exact ⟨_, rfl, rfl, Terminated.ready_of_scanned_eq_zero hne rfl⟩

theorem LineDecoder.feed_split :
    Split limit (accept limit crlf.length fun piece => (Utf8.decode piece).toOption)
      (Bytes.pieces crlf segments.flatten).1 (Bytes.pieces crlf segments.flatten).2
      ((Reassembly.of ({} : LineDecoder) limit).feed segments) := by
  have hne : crlf ≠ [] := by decide
  have hsplitting : Splitting (Searching.State LineDecoder.mk crlf) (beforeFirst crlf) crlf.length
      fun piece => (Utf8.decode piece).toOption := searching_line.splitting making_line crlf
  refine hsplitting.feed LineDecoder.plain limit ?_ (parts_pieces hne _)
  exact ⟨_, rfl, rfl, Terminated.ready_of_scanned_eq_zero hne rfl⟩

theorem FixedSize.feed_split {size : Nat} (hpos : 0 < size) :
    ∃ d, FixedSize.of size = .ok d ∧
      Split limit (accept limit 0 some) (Bytes.blocks size segments.flatten)
        (Bytes.restOfBlocks size segments.flatten) ((Reassembly.of d limit).feed segments) := by
  have hof : FixedSize.of size = .ok { size } := if_neg (by omega)
  exact ⟨_, hof, (FixedSize.splitting hpos).feed (FixedSize.plain hpos) limit rfl
    (parts_blocks hpos _)⟩

end Decoders

/-- All blocks have one size, so that a limit allows all of them or none. -/
theorem Split.of_blocks {limit size : Nat} {bytes : Bytes}
    {outcome : List (Item Bytes) × Verdict × Reassembly σ} (hpos : 0 < size)
    (h : Split limit (accept limit 0 some) (Bytes.blocks size bytes)
      (Bytes.restOfBlocks size bytes) outcome) :
    (0 < limit ∧ limit < size ∧ limit < bytes.length →
        packagesOf outcome.1 = [] ∧ ∃ violation, outcome.2.1 = .failed (.protocol violation)) ∧
      (¬ (0 < limit ∧ limit < size ∧ limit < bytes.length) →
        packagesOf outcome.1 = Bytes.blocks size bytes ∧ outcome.2.1 = .waiting ∧
          outcome.2.2.pending.bytes = Bytes.restOfBlocks size bytes) := by
  have hblock : ∀ block ∈ Bytes.blocks size bytes, block.length = size ∧ size ≤ bytes.length := by
    intro block hin
    obtain ⟨i, hi, rfl⟩ := List.mem_map.1 hin
    rw [List.mem_range] at hi
    have hend : (i + 1) * size ≤ bytes.length :=
      Nat.le_trans (Nat.mul_le_mul_right size hi) (Nat.div_mul_le_self ..)
    rw [Nat.succ_mul] at hend
    refine ⟨?_, by omega⟩
    rw [List.length_take_of_le]
    rw [List.length_drop]
    omega
  constructor
  · rintro ⟨hlimit, hsmall, hlong⟩
    have hnone : ∀ block ∈ Bytes.blocks size bytes, accept limit 0 some block = none := by
      intro block hin
      refine if_neg ?_
      rw [(hblock block hin).1, Fits]
      omega
    constructor
    · rw [h.packages]
      cases hblocks : Bytes.blocks size bytes with
      | nil => rfl
      | cons block more =>
        rw [hblocks] at hnone
        simp [hnone block (.head _)]
    · refine h.failed fun ⟨hall, hfits⟩ => ?_
      by_cases hlt : bytes.length < size
      · rw [(Bytes.blocks_of_lt hlt).2, Fits] at hfits
        omega
      · have hin : bytes.take size ∈ Bytes.blocks size bytes := by
          rw [(Bytes.blocks_of_le hpos (Nat.not_lt.1 hlt)).1]
          exact .head _
        have hmade := hall _ hin
        rw [hnone _ hin] at hmade
        cases hmade
  · intro hallowed
    have hsome : ∀ block ∈ Bytes.blocks size bytes, accept limit 0 some block = some block := by
      intro block hin
      obtain ⟨hlength, hle⟩ := hblock block hin
      refine if_pos ?_
      rw [hlength, Fits]
      omega
    have hall : ∀ block ∈ Bytes.blocks size bytes, (accept limit 0 some block).isSome := by
      intro block hin
      rw [hsome block hin]
      rfl
    have hrest : Fits limit (Bytes.restOfBlocks size bytes).length := by
      have hshort : (Bytes.restOfBlocks size bytes).length = bytes.length % size := by
        rw [Bytes.restOfBlocks, List.length_drop, Nat.mul_comm, Nat.mod_eq_sub]
      have hlt := Nat.mod_lt bytes.length hpos
      have hle := Nat.mod_le bytes.length size
      rw [hshort, Fits]
      omega
    refine ⟨?_, h.waiting hall hrest⟩
    rw [h.packages, List.takeWhile_eq_self_iff.2 hall, List.filterMap_congr hsome,
      List.filterMap_some]

/-- From whatever segments bytes come, the package decoders hand out the pieces of the reference:
what is in front of each terminator, the texts that are in front of each CR LF, and block after
block.  They fail at the first piece that is too long under the limit, or no text, or when the rest
is too long, and if they do not fail the buffer holds the rest. -/
theorem feed_splits (limit : Nat) (segments : List Bytes) :
    (∀ terminator, terminator ≠ [] → ∃ t, Terminated.of terminator = .ok t ∧
      Split limit (accept limit terminator.length some)
        (Bytes.pieces terminator segments.flatten).1 (Bytes.pieces terminator segments.flatten).2
        ((Reassembly.of t limit).feed segments)) ∧
    (∃ textOf : Bytes → Option String,
      (∀ piece text, textOf piece = some text ↔ Utf8.encode text = piece) ∧
      Split limit (accept limit crlf.length textOf) (Bytes.pieces crlf segments.flatten).1
        (Bytes.pieces crlf segments.flatten).2
        ((Reassembly.of ({} : LineDecoder) limit).feed segments)) ∧
    ∀ size, 0 < size → ∃ d, FixedSize.of size = .ok d ∧
      let outcome := (Reassembly.of d limit).feed segments
      (0 < limit ∧ limit < size ∧ limit < segments.flatten.length →
        packagesOf outcome.1 = [] ∧ ∃ violation, outcome.2.1 = .failed (.protocol violation)) ∧
      (¬ (0 < limit ∧ limit < size ∧ limit < segments.flatten.length) →
        packagesOf outcome.1 = Bytes.blocks size segments.flatten ∧ outcome.2.1 = .waiting ∧
          outcome.2.2.pending.bytes = Bytes.restOfBlocks size segments.flatten) := by
  refine ⟨fun _ hne => Terminated.feed_split limit segments hne,
    ⟨_, ?_, LineDecoder.feed_split limit segments⟩, ?_⟩
  · intro piece text
    rw [← Utf8.decode_eq_ok_iff]
    cases Utf8.decode piece <;> simp [Except.toOption]
  · intro size hpos
    obtain ⟨d, hof, hsplit⟩ := FixedSize.feed_split limit segments hpos
    exact ⟨d, hof, hsplit.of_blocks hpos⟩

/-- A terminator that overlaps itself, cut in the middle of its second occurrence. -/
theorem feed_splits_overlapping :
    ([1, 1] : Bytes) ≠ [] ∧ 0 < 2 ∧
      (∃ t, Terminated.of [1, 1] = .ok t ∧
        Split 3 (accept 3 2 some) [[0], []] [1, 2]
          ((Reassembly.of t 3).feed [[0, 1], [1, 1], [1, 1, 2]])) ∧
      ∃ d, FixedSize.of 2 = .ok d ∧
        packagesOf ((Reassembly.of d 3).feed [[0, 1], [1, 1], [1, 1, 2]]).1 =
          [[0, 1], [1, 1], [1, 1]] := by
  have hpieces : Bytes.pieces [1, 1] [0, 1, 1, 1, 1, 1, 2] = ([[0], []], [1, 2]) := by cbv
  obtain ⟨hterminated, _, hblocks⟩ := feed_splits 3 [[0, 1], [1, 1], [1, 1, 2]]
  obtain ⟨t, hof, hsplit⟩ := hterminated [1, 1] (by decide)
  obtain ⟨d, hsize, _, hwaiting⟩ := hblocks 2 (by decide)
  rw [show ([[0, 1], [1, 1], [1, 1, 2]] : List Bytes).flatten = [0, 1, 1, 1, 1, 1, 2] from rfl,
    hpieces] at hsplit
  exact ⟨by decide, by decide, ⟨t, hof, hsplit⟩, d, hsize, (hwaiting (by decide)).1⟩

end FramedChannel
