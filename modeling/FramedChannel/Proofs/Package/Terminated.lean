import FramedChannel.Package.Terminated
import FramedChannel.Proofs.Bytes.FirstOccurrence

/-!
# Searching on where the last search stopped

`Terminated.split` starts at the offset that the last search left.  Here that
offset is shown to be harmless: `Terminated.Ready` says that no terminator
starts in front of it, whatever bytes come, and every search that finds
nothing keeps this (`split_eq_none`).  `split_eq_some` and
`length_lt_of_split_append` say what a search that finds a terminator has seen.
-/

namespace FramedChannel.Terminated

variable {t after : Terminated} {bytes package : Bytes} {used : Nat}

/-- The bytes in front of the offset at which the search goes on start no terminator, and will not
when more bytes are there. -/
structure Ready (t : Terminated) (bytes : Bytes) : Prop where
  terminator_ne_nil : t.terminator ≠ []
  scanned : ∀ more, ∀ i < t.scanned, ¬ t.terminator <+: (bytes ++ more).drop i

theorem Ready.append (h : Ready t bytes) (more : Bytes) : Ready t (bytes ++ more) := by
  refine ⟨h.terminator_ne_nil, fun later => ?_⟩
  rw [List.append_assoc]
  exact h.scanned (more ++ later)

theorem ready_of_scanned_eq_zero (hne : t.terminator ≠ []) (hzero : t.scanned = 0) :
    Ready t bytes :=
  ⟨hne, fun _ i hi => absurd hi (by omega)⟩

/-- The search from the offset finds what a search from the first byte would. -/
theorem Ready.find_eq (h : Ready t bytes) (more : Bytes) :
    Bytes.find t.terminator (bytes ++ more) t.scanned =
      Bytes.find t.terminator (bytes ++ more) 0 :=
  Bytes.find_eq_of_forall_lt h.terminator_ne_nil (h.scanned more)

/-- A search that finds a terminator starts anew behind it, and has no use for later bytes. -/
theorem split_eq_some (h : Ready t bytes) (hsplit : t.split bytes = (after, some (package, used))) :
    after = t.reset ∧ 0 < used ∧ used ≤ bytes.length ∧ package.length < used ∧
      ∀ more, t.split (bytes ++ more) = t.split bytes := by
  have hne := h.terminator_ne_nil
  have hpos : 0 < t.terminator.length := List.length_pos_iff.2 hne
  unfold split at hsplit ⊢
  cases hfind : Bytes.find t.terminator bytes t.scanned with
  | none => simp [hfind] at hsplit
  | some position =>
    simp only [hfind, Prod.mk.injEq, Option.some.injEq] at hsplit
    obtain ⟨rfl, rfl, rfl⟩ := hsplit
    have hin : position + t.terminator.length ≤ bytes.length :=
      Bytes.add_length_le_of_find hfind
    refine ⟨rfl, by omega, hin, ?_, ?_⟩
    · rw [List.length_take]
      omega
    · intro more
      rw [Bytes.find_append_of_eq_some hne hfind more]
      dsimp only
      rw [List.take_append_of_le_length (by omega)]

/-- A search that finds nothing can go on from the offset that it leaves. -/
theorem split_eq_none (h : Ready t bytes) (hsplit : t.split bytes = (after, none)) :
    after.terminator = t.terminator ∧ Ready after bytes ∧
      ∀ more, after.split (bytes ++ more) = t.split (bytes ++ more) := by
  have hne := h.terminator_ne_nil
  have hnone : Bytes.find t.terminator bytes 0 = none := by
    have hfrom := h.find_eq []
    rw [List.append_nil] at hfrom
    unfold split at hsplit
    cases hfind : Bytes.find t.terminator bytes t.scanned with
    | none => rw [← hfrom, hfind]
    | some position => simp [hfind] at hsplit
  have hafter : after = { t with scanned := bytes.length - (t.terminator.length - 1) } := by
    have hfrom := h.find_eq []
    rw [List.append_nil, hnone] at hfrom
    unfold split at hsplit
    rw [hfrom] at hsplit
    exact (congrArg Prod.fst hsplit).symm
  have hready : Ready after bytes := by
    rw [hafter]
    refine ⟨hne, ?_⟩
    intro more i hi
    exact Bytes.not_prefix_drop_append_of_find_eq_none hne hnone more hi
  refine ⟨by rw [hafter], hready, ?_⟩
  intro more
  have hfrom := hready.find_eq more
  rw [hafter] at hfrom ⊢
  unfold split
  rw [hfrom, h.find_eq more]
  rfl

/-- A terminator that more bytes complete ends in them. -/
theorem length_lt_of_split_append (h : Ready t bytes) (hsplit : (t.split bytes).2 = none)
    {more : Bytes} (hmore : (t.split (bytes ++ more)).2 = some (package, used)) :
    bytes.length < used := by
  have hne := h.terminator_ne_nil
  have hnow := h.find_eq []
  rw [List.append_nil] at hnow
  unfold split at hsplit hmore
  rw [hnow] at hsplit
  rw [h.find_eq more] at hmore
  cases hfirst : Bytes.find t.terminator bytes 0 with
  | some position => simp [hfirst] at hsplit
  | none =>
    cases hlater : Bytes.find t.terminator (bytes ++ more) 0 with
    | none => simp [hlater] at hmore
    | some position =>
      simp only [hlater, Option.some.injEq, Prod.mk.injEq] at hmore
      have := Bytes.length_lt_of_find_append_eq_some hne hfirst hlater
      omega

end FramedChannel.Terminated
