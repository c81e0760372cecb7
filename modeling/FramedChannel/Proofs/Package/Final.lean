import FramedChannel.Proofs.Package.Bounded
import FramedChannel.Proofs.Package.Splitting

/-!
# What follows an error

Behind an error the bytes stay where they are, and the decoder keeps the state
in which it failed.  Calls that go on all the same then fail again, and hand out
no package, if that state leads to nothing but errors.

* `Reassembly.Final` says this of a reassembly, for all calls that can follow.
* `Dooming` is what shows it: a property of reassemblies that survives new bytes
  and the failing pass itself.
* `Ending` follows a decoder from its beginning.  A state is alive, as long as
  passes go well, or it is doomed.  An error may leave it alive in the cases of
  `Exempt` only (`Ending.final`).
* `Seeking` settles a search for a terminator, whatever is made of what is in
  front of it, and `FixedSize.final` packages of a fixed size.
-/

namespace FramedChannel

open Reassembly

variable {σ π : Type} [PackageDecoder σ π]

namespace Reassembly

variable {r s t : Reassembly σ} {items others : List (Item π)} {verdict : Verdict} {error : Error}

/-- Whatever calls follow, they fail and hand out no package. -/
def Final (r : Reassembly σ) : Prop :=
  ∀ s, r.Later s → packagesOf s.decode.1 = [] ∧ (∃ error, s.decode.2.1 = .failed error) ∧
    ∀ segment, ∃ error, (s.push segment).1 = .error error

/-- A run ends with one pass. -/
theorem Runs.last_pass (h : Runs r items verdict s) :
    ∃ begun last t, Leads r begun t ∧ t.pass = (last, verdict, s) := by
  induction h with
  | last hpass _ => exact ⟨[], _, _, .refl _, hpass⟩
  | more hpass _ ih =>
    obtain ⟨begun, last, t, hleads, hlast⟩ := ih
    exact ⟨_, last, t, .more hpass hleads, hlast⟩

/-- The attempt fails, or goes past the limit. -/
def Fails (r : Reassembly σ) : Prop :=
  (∃ error, r.trial.result = .error error) ∨ r.exceeds r.trial = true

theorem pass_of_fails (h : r.Fails) : ∃ error, r.pass =
    (r.trial.replies.map .reply, .failed error, { r with decoder := r.trial.state }) := by
  cases hresult : r.trial.result with
  | error error => exact ⟨error, pass_of_error hresult⟩
  | ok package =>
    rcases h with ⟨error, herror⟩ | hlimit
    · rw [hresult] at herror
      cases herror
    · exact ⟨_, pass_of_exceeds hresult hlimit⟩

/-- A pass fails for nothing else, and leaves all but the state of the decoder. -/
theorem error_of_pass (hpass : r.pass = (items, .failed error, s)) :
    (r.trial.result = .error error ∨ r.exceeds r.trial = true ∧
      error = .protocol (.packageTooLong (r.measured r.trial) r.limit)) ∧
      s = { r with decoder := r.trial.state } := by
  cases hresult : r.trial.result with
  | error error =>
    rw [pass_of_error hresult] at hpass
    cases hpass
    exact ⟨.inl rfl, rfl⟩
  | ok package =>
    cases hlimit : r.exceeds r.trial with
    | true =>
      rw [pass_of_exceeds hresult hlimit] at hpass
      cases hpass
      exact ⟨.inr ⟨rfl, rfl⟩, rfl⟩
    | false =>
      obtain ⟨verdict, hpass', hverdict⟩ := pass_of_ok hresult hlimit
      rw [hpass] at hpass'
      cases hpass'
      simp at hverdict

theorem fails_of_pass (hpass : r.pass = (items, .failed error, s)) :
    r.Fails ∧ s = { r with decoder := r.trial.state } := by
  obtain ⟨herror | ⟨hlimit, _⟩, hs⟩ := error_of_pass hpass
  · exact ⟨.inl ⟨error, herror⟩, hs⟩
  · exact ⟨.inr hlimit, hs⟩

/-- An attempt that waits only fails if too many bytes wait. -/
theorem fails_iff_of_waits (hwaits : r.trial.Waits)
    (hkeeps : PackageDecoder.discards r.trial.state = false) :
    r.Fails ↔ 0 < r.limit ∧ r.limit < r.pending.bytes.length := by
  rw [Fails, exceeds_iff hkeeps, measured_of_waits hwaits, hwaits.1, Sequence.length_bytes]
  simp

/-- Nothing follows a first pass that fails. -/
theorem decode_of_fails (h : r.Fails) : ∃ error, r.decode =
    (r.trial.replies.map .reply, .failed error, { r with decoder := r.trial.state }) := by
  obtain ⟨error, hpass⟩ := pass_of_fails h
  exact ⟨error, by rw [Reassembly.decode, passes, hpass]⟩

/-! ## Properties that lead to nothing but errors -/

/-- What shows that a reassembly is final. -/
structure Dooming (Doomed : Reassembly σ → Prop) : Prop where
  extend : ∀ {r}, Doomed r → ∀ segment, Doomed (r.extend segment)
  replies : ∀ {r}, Doomed r → ∀ replies, Doomed { r with replies }
  fails : ∀ {r}, Doomed r → r.Fails
  stays : ∀ {r}, Doomed r → Doomed { r with decoder := r.trial.state }

namespace Dooming

variable {Doomed : Reassembly σ → Prop}

theorem decode (law : Dooming Doomed) (h : Doomed r) : packagesOf r.decode.1 = [] ∧
    (∃ error, r.decode.2.1 = .failed error) ∧ Doomed r.decode.2.2 := by
  obtain ⟨error, hdecode⟩ := decode_of_fails (law.fails h)
  rw [hdecode]
  exact ⟨packagesOf_map_reply _, ⟨error, rfl⟩, law.stays h⟩

theorem push (law : Dooming Doomed) (h : Doomed r) (segment : Bytes) :
    (∃ error, (r.push segment).1 = .error error) ∧ Doomed (r.push segment).2 := by
  obtain ⟨_, ⟨error, hfailed⟩, hdoomed⟩ := law.decode (law.extend h segment)
  unfold Reassembly.push
  dsimp only
  rw [hfailed]
  exact ⟨⟨error, rfl⟩, law.replies hdoomed _⟩

theorem later (law : Dooming Doomed) (h : Doomed r) (hlater : Later r s) : Doomed s := by
  induction hlater with
  | refl => exact h
  | extend _ segment ih => exact law.extend ih segment
  | decode _ ih => exact (law.decode ih).2.2
  | push _ segment ih => exact (law.push ih segment).2
  | takeReplies _ ih => exact law.replies ih _

theorem final (law : Dooming Doomed) (h : Doomed r) : r.Final := by
  intro s hlater
  have hdoomed := law.later h hlater
  obtain ⟨hpackages, hfailed, _⟩ := law.decode hdoomed
  exact ⟨hpackages, hfailed, fun segment => (law.push hdoomed segment).1⟩

theorem or {Other : Reassembly σ → Prop} (law : Dooming Doomed) (other : Dooming Other) :
    Dooming fun r => Doomed r ∨ Other r where
  extend h segment := h.imp (law.extend · segment) (other.extend · segment)
  replies h replies := h.imp (law.replies · replies) (other.replies · replies)
  fails h := h.elim law.fails other.fails
  stays h := h.imp law.stays other.stays

end Dooming

/-- The decoder fails on the bytes that are there, and stays as it is. -/
def Stuck (r : Reassembly σ) : Prop :=
  ∃ used error, ∀ more,
    PackageDecoder.attempt r.decoder (r.pending.bytes ++ more) = .fail r.decoder used error

theorem Stuck.trial (h : r.Stuck) : ∃ used error, r.trial = .fail r.decoder used error := by
  obtain ⟨used, error, hattempt⟩ := h
  have hnow := hattempt []
  rw [List.append_nil] at hnow
  exact ⟨used, error, hnow⟩

theorem dooming_stuck : Dooming (Stuck (σ := σ) (π := π)) where
  extend := by
    rintro r ⟨used, error, hattempt⟩ segment
    refine ⟨used, error, ?_⟩
    intro more
    rw [bytes_extend, List.append_assoc]
    exact hattempt (segment ++ more)
  replies h _ := h
  fails := by
    intro r h
    obtain ⟨used, error, htrial⟩ := h.trial
    exact .inl ⟨error, by rw [htrial]; rfl⟩
  stays := by
    intro r h
    obtain ⟨used, error, htrial⟩ := h.trial
    rw [htrial]
    exact h

/-! ## From the beginning -/

/-- What becomes of reassemblies that are alive.  Those on which no pass has failed are, and an
error leaves one alive in the exempted cases only. -/
structure Ending (Alive Doomed : Reassembly σ → Prop) (Exempt : Reassembly σ → Error → Prop) :
    Prop where
  dooming : Dooming Doomed
  ready : ∃ Ready : σ → Bytes → Prop, Resumable Ready ∧
    ∀ r, Alive r → Ready r.decoder r.pending.bytes
  extend : ∀ {r}, Alive r → ∀ segment, Alive (r.extend segment)
  replies : ∀ {r}, Alive r → ∀ replies, Alive { r with replies }
  pass : ∀ {r items verdict s}, Alive r → r.pass = (items, verdict, s) →
    (∀ error, verdict ≠ .failed error) → Alive s
  failed : ∀ {r items error s}, Alive r → r.pass = (items, .failed error, s) →
    Doomed s ∨ Alive s ∧ Exempt r error

namespace Ending

variable {Alive Doomed : Reassembly σ → Prop} {Exempt : Reassembly σ → Error → Prop}

theorem leads (law : Ending Alive Doomed Exempt) (h : Alive r) (hleads : Leads r items t) :
    Alive t := by
  induction hleads with
  | refl => exact h
  | more hpass _ ih => exact ih (law.pass h hpass (by simp))

/-- A call of `decode` ends in one pass, on a reassembly that is still alive. -/
theorem last_pass (law : Ending Alive Doomed Exempt) (h : Alive r) :
    ∃ begun last t, Leads r begun t ∧ Alive t ∧ t.pass = (last, r.decode.2) := by
  obtain ⟨Ready, hresumable, hready⟩ := law.ready
  obtain ⟨begun, last, t, hleads, hpass⟩ := (runs_decode hresumable (hready r h)).last_pass
  exact ⟨begun, last, t, hleads, law.leads h hleads, hpass⟩

theorem decode (law : Ending Alive Doomed Exempt) (h : Alive r) :
    Alive r.decode.2.2 ∨ Doomed r.decode.2.2 := by
  obtain ⟨_, last, t, _, halive, hpass⟩ := law.last_pass h
  cases hverdict : r.decode.2.1 with
  | failed error =>
    rcases law.failed halive (hpass.trans (by rw [← hverdict])) with hdoomed | ⟨hstill, _⟩
    · exact .inr hdoomed
    · exact .inl hstill
  | again => exact .inl (law.pass halive hpass (by simp [hverdict]))
  | waiting => exact .inl (law.pass halive hpass (by simp [hverdict]))

/-- Whatever calls were made, a reassembly is alive or doomed. -/
theorem later (law : Ending Alive Doomed Exempt) (h : Alive r) (hlater : Later r s) :
    Alive s ∨ Doomed s := by
  induction hlater with
  | refl => exact .inl h
  | extend _ segment ih =>
    exact ih.imp (law.extend · segment) (law.dooming.extend · segment)
  | decode _ ih =>
    rcases ih with halive | hdoomed
    · exact law.decode halive
    · exact .inr (law.dooming.decode hdoomed).2.2
  | @push s _ segment ih =>
    rcases ih with halive | hdoomed
    · have hdecoded := law.decode (law.extend halive segment)
      unfold Reassembly.push
      dsimp only
      split <;> exact hdecoded.imp (law.replies · _) (law.dooming.replies · _)
    · exact .inr (law.dooming.push hdoomed segment).2
  | takeReplies _ ih => exact ih.imp (law.replies · _) (law.dooming.replies · _)

/-- Behind an error a reassembly is final, but for the exempted cases. -/
theorem final (law : Ending Alive Doomed Exempt) (h : Alive r) (hlater : Later r s)
    (hfailed : s.decode.2.1 = .failed error) :
    s.decode.2.2.Final ∨ ∃ begun last t, Leads s begun t ∧
      t.pass = (last, .failed error, s.decode.2.2) ∧ Exempt t error := by
  rcases law.later h hlater with halive | hdoomed
  · obtain ⟨begun, last, t, hleads, halive', hpass⟩ := law.last_pass halive
    have hpass' : t.pass = (last, .failed error, s.decode.2.2) := hpass.trans (by rw [← hfailed])
    rcases law.failed halive' hpass' with hdoomed | ⟨_, hexempt⟩
    · exact .inl (law.dooming.final hdoomed)
    · exact .inr ⟨begun, last, t, hleads, hpass', hexempt⟩
  · exact .inl (law.dooming.final (law.dooming.decode hdoomed).2.2)

end Ending

end Reassembly

/-! ## Searches for a terminator -/

/-- A search can be made again behind itself, and finds the same. -/
theorem Terminated.split_again {t after : Terminated} {bytes : Bytes}
    {found : Option (Bytes × Nat)} (h : t.Ready bytes) (hsplit : t.split bytes = (after, found)) :
    after.Ready bytes ∧ ∀ more, after.split (bytes ++ more) = t.split (bytes ++ more) := by
  cases found with
  | none =>
    obtain ⟨_, hready, hsame⟩ := split_eq_none h hsplit
    exact ⟨hready, hsame⟩
  | some found =>
    obtain ⟨rfl, _⟩ := split_eq_some h hsplit
    refine ⟨ready_of_scanned_eq_zero h.terminator_ne_nil rfl, ?_⟩
    intro more
    have hfind : Bytes.find t.reset.terminator (bytes ++ more) t.reset.scanned =
        Bytes.find t.terminator (bytes ++ more) t.scanned := (h.find_eq more).symm
    unfold split
    rw [hfind]
    rfl

/-- A decoder that searches for a terminator, at least for now.  `Shows d t` says that `d` searches
with `t`, and `Breaks` which blocks in front of a terminator are no packages. -/
structure Seeking (Shows : σ → Terminated → Prop) (Breaks : Bytes → Prop) : Prop where
  keeps : ∀ {d t}, Shows d t → PackageDecoder.discards d = false
  unfound : ∀ {d t bytes after}, Shows d t → t.split bytes = (after, none) →
    (PackageDecoder.attempt d bytes).Waits ∧ Shows (PackageDecoder.attempt d bytes).state after
  found : ∀ {d t bytes after block used}, Shows d t →
    t.split bytes = (after, some (block, used)) →
      (PackageDecoder.attempt d bytes).consumed = used ∧
      ((∃ error, (PackageDecoder.attempt d bytes).result = .error error) ↔ Breaks block) ∧
      Shows (PackageDecoder.attempt d bytes).state after

/-- What a search found is refused: the bytes up to the terminator are no package or too many, or
too many bytes wait for one. -/
def Refused (limit : Nat) (Breaks : Bytes → Prop) (waiting : Nat) : Option (Bytes × Nat) → Prop
  | none => 0 < limit ∧ limit < waiting
  | some (block, used) => Breaks block ∨ 0 < limit ∧ limit < used

namespace Seeking

variable {Shows : σ → Terminated → Prop} {Breaks : Bytes → Prop} {r s : Reassembly σ}
  {t : Terminated} {items : List (Item π)} {error : Error}

/-- Whatever bytes come, what the search finds is refused. -/
def Doomed (Shows : σ → Terminated → Prop) (Breaks : Bytes → Prop) (r : Reassembly σ) : Prop :=
  ∃ t, Shows r.decoder t ∧ t.Ready r.pending.bytes ∧ ∀ more,
    Refused r.limit Breaks (r.pending.bytes ++ more).length (t.split (r.pending.bytes ++ more)).2

/-- An attempt fails if what it finds is refused, and for no other reason. -/
theorem fails_iff (law : Seeking Shows Breaks) (h : Shows r.decoder t)
    (hready : t.Ready r.pending.bytes) :
    r.Fails ↔ Refused r.limit Breaks r.pending.bytes.length (t.split r.pending.bytes).2 := by
  rcases hsplit : t.split r.pending.bytes with ⟨after, _ | ⟨block, used⟩⟩
  · obtain ⟨hwaits, hstate⟩ := law.unfound h hsplit
    change r.trial.Waits at hwaits
    change Shows r.trial.state after at hstate
    exact fails_iff_of_waits hwaits (law.keeps hstate)
  · obtain ⟨hconsumed, hbreaks, hstate⟩ := law.found h hsplit
    change r.trial.consumed = used at hconsumed
    change Shows r.trial.state after at hstate
    change (∃ error, r.trial.result = .error error) ↔ Breaks block at hbreaks
    obtain ⟨_, hpos, _⟩ := Terminated.split_eq_some hready hsplit
    have hmoves : 0 < r.trial.consumed := hconsumed ▸ hpos
    rw [Fails, exceeds_iff (law.keeps hstate), hbreaks, measured_of_moves hmoves, hconsumed,
      Refused]

/-- The decoder goes on to search, and finds the same. -/
theorem shows_trial (law : Seeking Shows Breaks) (h : Shows r.decoder t)
    (hready : t.Ready r.pending.bytes) :
    ∃ after, Shows r.trial.state after ∧ after.Ready r.pending.bytes ∧
      ∀ more, after.split (r.pending.bytes ++ more) = t.split (r.pending.bytes ++ more) := by
  rcases hsplit : t.split r.pending.bytes with ⟨after, found⟩
  obtain ⟨hready', hsame⟩ := Terminated.split_again hready hsplit
  refine ⟨after, ?_, hready', hsame⟩
  rcases found with _ | ⟨block, used⟩
  · exact (law.unfound h hsplit).2
  · exact (law.found h hsplit).2.2

theorem dooming (law : Seeking Shows Breaks) : Dooming (Doomed Shows Breaks) where
  extend := by
    rintro r ⟨t, hshows, hready, hrefused⟩ segment
    refine ⟨t, hshows, ?_, ?_⟩
    · rw [bytes_extend]
      exact hready.append segment
    · intro more
      rw [bytes_extend, List.append_assoc]
      exact hrefused (segment ++ more)
  replies hdoomed _ := hdoomed
  fails := by
    rintro r ⟨t, hshows, hready, hrefused⟩
    have hnow := hrefused []
    rw [List.append_nil] at hnow
    exact (law.fails_iff hshows hready).2 hnow
  stays := by
    rintro r ⟨t, hshows, hready, hrefused⟩
    obtain ⟨after, hshows', hready', hsame⟩ := law.shows_trial hshows hready
    refine ⟨after, hshows', hready', ?_⟩
    intro more
    rw [hsame more]
    exact hrefused more

/-- A search that failed is doomed.  More bytes do not help it: if it went too far without a
terminator, it only goes further. -/
theorem doomed_of_pass (law : Seeking Shows Breaks) (h : Shows r.decoder t)
    (hready : t.Ready r.pending.bytes) (hpass : r.pass = (items, .failed error, s)) :
    Doomed Shows Breaks s := by
  obtain ⟨hfails, rfl⟩ := fails_of_pass hpass
  rw [law.fails_iff h hready] at hfails
  obtain ⟨after, hshows, hready', hsame⟩ := law.shows_trial h hready
  refine ⟨after, hshows, hready', ?_⟩
  intro more
  rw [hsame more]
  rcases hsplit : t.split r.pending.bytes with ⟨_, _ | ⟨block, used⟩⟩
  · rw [hsplit] at hfails
    obtain ⟨hpositive, hlong⟩ := hfails
    rcases hmore : t.split (r.pending.bytes ++ more) with ⟨_, _ | ⟨block, used⟩⟩
    · refine ⟨hpositive, ?_⟩
      show r.limit < (r.pending.bytes ++ more).length
      rw [List.length_append]
      omega
    · have hlate := Terminated.length_lt_of_split_append hready (by rw [hsplit])
        (congrArg Prod.snd hmore)
      exact .inr ⟨hpositive, Nat.lt_trans hlong hlate⟩
  · obtain ⟨_, _, _, _, hfound⟩ := Terminated.split_eq_some hready hsplit
    rw [hfound more, hsplit]
    rw [hsplit] at hfails
    exact hfails

end Seeking

/-- A decoder that can be cut anywhere is alive as long as it is ready. -/
theorem Resumable.ending {Ready : σ → Bytes → Prop} (law : Resumable Ready)
    {Doomed : Reassembly σ → Prop} (hdooming : Dooming Doomed)
    (hfailed : ∀ {r s : Reassembly σ} {items : List (Item π)} {error : Error},
      Ready r.decoder r.pending.bytes → r.pass = (items, .failed error, s) → Doomed s) :
    Ending (fun r => Ready r.decoder r.pending.bytes) Doomed fun _ _ => False where
  dooming := hdooming
  ready := ⟨Ready, law, fun _ h => h⟩
  extend h segment := ready_extend law h segment
  replies h _ := h
  pass := by
    intro r items verdict s hready hpass hok
    cases verdict with
    | again => exact (ready_of_pass_eq_again law hready hpass).1
    | waiting => exact ready_of_pass_eq_waiting law hready hpass
    | failed error => exact absurd rfl (hok error)
  failed hready hpass := .inl (hfailed hready hpass)

/-- Behind an error of such a decoder, the reassembly is final. -/
theorem Resumable.final {Ready : σ → Bytes → Prop} (law : Resumable Ready)
    {Doomed : Reassembly σ → Prop} (hdooming : Dooming Doomed)
    (hfailed : ∀ {r s : Reassembly σ} {items : List (Item π)} {error : Error},
      Ready r.decoder r.pending.bytes → r.pass = (items, .failed error, s) → Doomed s)
    {r s : Reassembly σ} {error : Error} (hready : Ready r.decoder r.pending.bytes)
    (hlater : Later r s) (herror : s.decode.2.1 = .failed error) : s.decode.2.2.Final := by
  rcases (law.ending hdooming hfailed).final hready hlater herror with hfinal | ⟨_, _, _, _, _, h⟩
  · exact hfinal
  · exact absurd h id

/-! ## The decoders of one phase -/

theorem Searching.seeking {wrap : Terminated → σ}
    {finish : Terminated → Bytes → Nat → Attempt σ π} (h : Searching wrap finish)
    {make : Bytes → Option π} (hmaking : Making wrap finish make) :
    Seeking (fun d t => d = wrap t) fun block => make block = none where
  keeps := by
    rintro d t rfl
    exact h.discards t
  unfound := by
    rintro d t bytes after rfl hsplit
    rw [h.attempt_of_none hsplit]
    exact ⟨⟨rfl, rfl⟩, rfl⟩
  found := by
    rintro d t bytes after block used rfl hsplit
    rw [h.attempt_of_some hsplit]
    cases hmake : make block with
    | none =>
      obtain ⟨violation, hfinish⟩ := hmaking.breaks after block used hmake
      rw [hfinish]
      exact ⟨rfl, iff_of_true ⟨_, rfl⟩ rfl, rfl⟩
    | some package =>
      rw [hmaking.makes after block used package hmake]
      exact ⟨rfl, iff_of_false (fun ⟨_, herror⟩ => by cases herror) (by simp), rfl⟩

/-- Behind an error of a search, the reassembly is final. -/
theorem Searching.final {wrap : Terminated → σ}
    {finish : Terminated → Bytes → Nat → Attempt σ π} (h : Searching wrap finish)
    {make : Bytes → Option π} (hmaking : Making wrap finish make) {terminator : Bytes}
    (hne : terminator ≠ []) {limit : Nat} {r : Reassembly σ} {error : Error}
    (hlater : Later (.of (wrap { terminator }) limit) r) (hfailed : r.decode.2.1 = .failed error) :
    r.decode.2.2.Final := by
  have hseeking := h.seeking hmaking
  have hready : Searching.Ready wrap (Reassembly.of (wrap { terminator }) limit).decoder
      (Reassembly.of (wrap { terminator }) limit).pending.bytes := by
    rw [Reassembly.of, h.withLimit]
    exact ⟨_, rfl, Terminated.ready_of_scanned_eq_zero hne rfl⟩
  refine h.resumable.final hseeking.dooming ?_ hready hlater hfailed
  rintro s s' items error ⟨t, hdecoder, hready⟩ hpass
  exact hseeking.doomed_of_pass hdecoder hready hpass

/-- A limit is too small for packages of a fixed size, and was passed. -/
def FixedSize.Doomed (r : Reassembly FixedSize) : Prop :=
  0 < r.limit ∧ r.limit < r.decoder.size ∧ r.limit < r.pending.bytes.length

theorem FixedSize.fails_iff {r : Reassembly FixedSize} (hpos : 0 < r.decoder.size) :
    (r.Fails ↔ FixedSize.Doomed r) ∧ r.trial.state = r.decoder := by
  by_cases hshort : r.pending.bytes.length < r.decoder.size
  · have htrial : r.trial = .needMore r.decoder := if_pos hshort
    have hwaits : r.trial.Waits := by
      rw [htrial]
      exact ⟨rfl, rfl⟩
    refine ⟨?_, by rw [htrial]; rfl⟩
    rw [fails_iff_of_waits hwaits rfl, Doomed]
    omega
  · have htrial : r.trial = .complete r.decoder r.decoder.size
        (r.pending.bytes.take r.decoder.size) := if_neg hshort
    have hmeasured : r.measured r.trial = r.decoder.size := by
      rw [measured_of_moves] <;> rw [htrial]
      · rfl
      · exact hpos
    rw [Fails, Doomed, exceeds_iff rfl, hmeasured, htrial]
    simp only [Attempt.complete, reduceCtorEq, exists_false, false_or, and_true]
    omega

theorem FixedSize.dooming : Dooming FixedSize.Doomed where
  extend := by
    rintro r ⟨hpositive, hsmall, hlong⟩ segment
    refine ⟨hpositive, hsmall, ?_⟩
    rw [bytes_extend, List.length_append]
    exact Nat.lt_add_right _ hlong
  replies h _ := h
  fails h := (FixedSize.fails_iff (Nat.lt_trans h.1 h.2.1)).1.2 h
  stays := by
    intro r h
    rw [(FixedSize.fails_iff (Nat.lt_trans h.1 h.2.1)).2]
    exact h

/-- Behind an error of packages of a fixed size, the reassembly is final. -/
theorem FixedSize.final {size limit : Nat} (hpos : 0 < size) {r : Reassembly FixedSize}
    {error : Error} (hlater : Later (.of { size } limit) r)
    (hfailed : r.decode.2.1 = .failed error) : r.decode.2.2.Final := by
  refine FixedSize.resumable.final FixedSize.dooming ?_ hpos hlater hfailed
  intro s s' items error hready hpass
  obtain ⟨hfails, rfl⟩ := fails_of_pass hpass
  obtain ⟨hiff, hstate⟩ := FixedSize.fails_iff hready
  rw [hstate]
  exact hiff.1 hfails

end FramedChannel
