import FramedChannel.Proofs.Package.Cuts

/-!
# What all items have in common

A property that every attempt gives to what it hands out is a property of all
items, from whatever segments they were decoded.

* `Vouches` is the law of one attempt, with the states in which it holds.
* `Vouches.pass`, `Vouches.passes` and `Vouches.feed` take it to one pass, to
  repeated passes and to all segments.
-/

namespace FramedChannel

open Reassembly

variable {σ π : Type} [PackageDecoder σ π]

/-- An attempt in a state of a given kind hands out good items only, and goes on in such a state if
it does not fail. -/
structure Vouches (State : σ → Prop) (Good : Item π → Prop) : Prop where
  replies : ∀ d bytes, State d →
    ∀ reply ∈ (PackageDecoder.attempt d bytes).replies, Good (.reply reply)
  package : ∀ d bytes package, State d →
    (PackageDecoder.attempt d bytes).result = .ok (some package) → Good (.package package)
  behind : ∀ d bytes package, State d → (PackageDecoder.attempt d bytes).result = .ok package →
    State (PackageDecoder.attempt d bytes).behind

namespace Vouches

variable {State : σ → Prop} {Good : Item π → Prop} {r : Reassembly σ}

/-- What holds of good items, and of the state unless decoding failed. -/
structure Vouched (State : σ → Prop) (Good : Item π → Prop)
    (outcome : List (Item π) × Verdict × Reassembly σ) : Prop where
  items : ∀ item ∈ outcome.1, Good item
  state : (∀ error, outcome.2.1 ≠ .failed error) → State outcome.2.2.decoder

/-- A pass that goes well leaves the decoder as the attempt does. -/
theorem decoder_pass_of_ok {package : Option π} (h : r.trial.result = .ok package)
    (hlimit : r.exceeds r.trial = false) : r.pass.2.2.decoder = r.trial.behind := by
  unfold trial at h hlimit ⊢
  cases hnext : PackageDecoder.next? (PackageDecoder.attempt r.decoder r.pending.bytes).state <;>
    cases package <;> simp [Reassembly.pass, conclude, h, hlimit, hnext, Attempt.behind]

theorem pass (h : Vouches State Good) (hstate : State r.decoder) :
    Vouched State Good r.pass := by
  have hreplies : ∀ item ∈ r.trial.replies.map .reply, Good item := by
    rw [List.forall_mem_map]
    exact h.replies _ _ hstate
  cases hresult : r.trial.result with
  | error error =>
    rw [pass_of_error hresult]
    exact ⟨hreplies, fun hok => absurd rfl (hok error)⟩
  | ok package =>
    cases hlimit : r.exceeds r.trial with
    | true =>
      rw [pass_of_exceeds hresult hlimit]
      exact ⟨hreplies, fun hok => absurd rfl (hok _)⟩
    | false =>
      constructor
      · rw [items_pass_of_ok hresult hlimit, handedOut, List.forall_mem_append]
        refine ⟨hreplies, ?_⟩
        rw [List.forall_mem_map]
        intro other hmem
        rw [Option.mem_toList] at hmem
        exact h.package _ _ other hstate (hmem ▸ hresult)
      · rw [decoder_pass_of_ok hresult hlimit]
        exact fun _ => h.behind _ _ package hstate hresult

theorem passes (h : Vouches State Good) (hstate : State r.decoder) (count : Nat) :
    Vouched State Good (r.passes count) := by
  induction count generalizing r with
  | zero => exact ⟨fun _ hmem => (List.not_mem_nil hmem).elim, fun _ => hstate⟩
  | succ count ih =>
    have hpass := h.pass hstate
    rw [Reassembly.passes]
    split
    · rename_i items s heq
      rw [heq] at hpass
      have hrest := ih (hpass.state (by simp))
      exact ⟨List.forall_mem_append.2 ⟨hpass.items, hrest.items⟩, hrest.state⟩
    · exact hpass

/-- All items that segments complete are good. -/
theorem feed (h : Vouches State Good) (hstate : State r.decoder) (segments : List Bytes) :
    Vouched State Good (r.feed segments) := by
  induction segments generalizing r with
  | nil => exact ⟨fun _ hmem => (List.not_mem_nil hmem).elim, fun _ => hstate⟩
  | cons segment rest ih =>
    have hstate' : State (r.extend segment).decoder := hstate
    have hdecode : Vouched State Good (r.extend segment).decode := h.passes hstate' _
    rw [Reassembly.feed]
    split
    · rename_i items s heq
      rw [heq] at hdecode
      have hrest := ih (hdecode.state (by simp))
      exact ⟨List.forall_mem_append.2 ⟨hdecode.items, hrest.items⟩, hrest.state⟩
    · exact hdecode

end Vouches

end FramedChannel
