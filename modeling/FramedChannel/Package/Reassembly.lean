import FramedChannel.Package.Decoder

/-!
# Reassembly

A reassembly holds the received bytes that no package has used yet, and the
decoder that looks for the next package.  `Reassembly.decode` calls the decoder
until it needs more bytes.

* `pass` is one call of the decoder, and `conclude` all that follows from it:
  the limit is checked, used bytes are dropped, and the phase or the package
  ends.
* `passes` repeats it, at most a given number of times.
* `decode` allows one pass more than there are bytes, which is enough for every
  decoder whose repeated passes use at least one byte each.
-/

namespace FramedChannel

/-- What a pass hands out. -/
inductive Item (π : Type) where
  /-- Bytes that go back to the peer. -/
  | reply (bytes : Bytes)
  | package (package : π)
  deriving DecidableEq, Repr

/-- How a pass ended. -/
inductive Verdict where
  /-- Another pass follows at once. -/
  | again
  /-- More bytes are needed. -/
  | waiting
  | failed (error : Error)
  deriving DecidableEq, Repr

/-- Unconsumed bytes and the decoder that reads them. -/
structure Reassembly (σ : Type) where
  pending : Sequence := .empty
  decoder : σ
  /-- The most bytes that a package may need, and 0 for no limit. -/
  limit : Nat
  /-- How often the decoder went over to another phase. -/
  switches : Nat := 0
  /-- Replies kept for `takeReplies`. -/
  replies : List Bytes := []

namespace Reassembly

variable {σ π : Type} [PackageDecoder σ π]

/-- A reassembly without bytes. -/
def of (decoder : σ) (limit : Nat) : Reassembly σ :=
  { decoder := PackageDecoder.withLimit decoder limit, limit }

/-- The reassembly behind another received segment. -/
def extend (r : Reassembly σ) (segment : Bytes) : Reassembly σ :=
  { r with pending := r.pending.push segment }

/-- The number of bytes that count towards the limit: those that the attempt used, or all that
wait when it used none. -/
def measured (r : Reassembly σ) (attempt : Attempt σ π) : Nat :=
  if attempt.consumed > 0 then attempt.consumed else r.pending.length

/-- Whether an attempt went past the limit. -/
def exceeds (r : Reassembly σ) (attempt : Attempt σ π) : Bool :=
  r.limit > 0 && r.measured attempt > r.limit && !PackageDecoder.discards attempt.state

/-- What follows from a call of the decoder.  On failure the bytes stay where they are, and the
decoder keeps the state in which it failed. -/
def conclude (r : Reassembly σ) (attempt : Attempt σ π) :
    List (Item π) × Verdict × Reassembly σ :=
  let replies := attempt.replies.map Item.reply
  let tried := { r with decoder := attempt.state }
  match attempt.result with
  | .error error => (replies, .failed error, tried)
  | .ok package =>
    if r.exceeds attempt then
      (replies, .failed (.protocol (.packageTooLong (r.measured attempt) r.limit)), tried)
    else
      let rest := { tried with pending := r.pending.discard attempt.consumed }
      match PackageDecoder.next? attempt.state, package with
      | some phase, some package =>
        (replies ++ [.package package], .again,
          { rest with decoder := phase, switches := r.switches + 1 })
      | some phase, none =>
        (replies, .again, { rest with decoder := phase, switches := r.switches + 1 })
      | none, some package =>
        (replies ++ [.package package], .again,
          { rest with decoder := PackageDecoder.reset attempt.state })
      | none, none => (replies, if attempt.consumed = 0 then .waiting else .again, rest)

/-- One call of the decoder, with all that follows from it. -/
def pass (r : Reassembly σ) : List (Item π) × Verdict × Reassembly σ :=
  r.conclude (PackageDecoder.attempt r.decoder r.pending.bytes)

/-- Passes until one is the last, or until their number is used up. -/
def passes : Nat → Reassembly σ → List (Item π) × Verdict × Reassembly σ
  | 0, r => ([], .again, r)
  | count + 1, r =>
    match r.pass with
    | (items, .again, r) =>
      let (more, verdict, r) := passes count r
      (items ++ more, verdict, r)
    | ended => ended

/-- Everything that the buffered bytes complete. -/
def decode (r : Reassembly σ) : List (Item π) × Verdict × Reassembly σ :=
  r.passes (r.pending.length + 1)

/-- The packages among some items. -/
def packagesOf (items : List (Item π)) : List π :=
  items.filterMap fun
    | .reply _ => none
    | .package package => some package

/-- The replies among some items. -/
def repliesOf (items : List (Item π)) : List Bytes :=
  items.filterMap fun
    | .reply bytes => some bytes
    | .package _ => none

/-- Appends a segment and gives the packages that it completes, or the error that ends them.
Replies are kept. -/
def push (r : Reassembly σ) (segment : Bytes) : Except Error (List π) × Reassembly σ :=
  let (items, verdict, r) := (r.extend segment).decode
  let r := { r with replies := r.replies ++ repliesOf items }
  match verdict with
  | .failed error => (.error error, r)
  | _ => (.ok (packagesOf items), r)

/-- The replies kept so far, and the reassembly without them. -/
def takeReplies (r : Reassembly σ) : List Bytes × Reassembly σ :=
  (r.replies, { r with replies := [] })

end Reassembly

end FramedChannel
