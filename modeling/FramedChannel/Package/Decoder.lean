import FramedChannel.Sequence

/-!
# Package decoders

A package decoder cuts packages out of received bytes.  It is a state and one
function, `PackageDecoder.attempt`, which looks at all unconsumed bytes and
says how many of them it used and whether they complete a package.

| result         | bytes used | meaning                                    |
|----------------|------------|--------------------------------------------|
| a package      | any        | the package is complete                    |
| nothing        | some       | a stage is done, try again at once         |
| nothing        | none       | more bytes are needed                      |
| an error       |            | no package will follow                     |

A decoder with phases names the next one in `PackageDecoder.next?`; the next
phase starts on the same unconsumed bytes.
-/

namespace FramedChannel

/-- What one attempt to decode a package did. -/
structure Attempt (σ π : Type) where
  /-- The state behind the attempt, whether it failed or not. -/
  state : σ
  /-- How many bytes were used. -/
  consumed : Nat
  /-- Bytes that the peer has to get before any package of this attempt is delivered. -/
  replies : List Bytes
  result : Except Error (Option π)

namespace Attempt

variable {σ π : Type}

/-- The attempt found that more bytes are needed. -/
def needMore (state : σ) : Attempt σ π :=
  ⟨state, 0, [], .ok none⟩

/-- The attempt used bytes and completed no package. -/
def progress (state : σ) (consumed : Nat) : Attempt σ π :=
  ⟨state, consumed, [], .ok none⟩

/-- The attempt completed a package. -/
def complete (state : σ) (consumed : Nat) (package : π) : Attempt σ π :=
  ⟨state, consumed, [], .ok (some package)⟩

/-- The attempt failed. -/
def fail (state : σ) (consumed : Nat) (error : Error) : Attempt σ π :=
  ⟨state, consumed, [], .error error⟩

end Attempt

/-- A type of states that decode packages of type `π`. -/
class PackageDecoder (σ : Type) (π : outParam Type) where
  /-- Try to decode one package from the unconsumed bytes. -/
  attempt : σ → Bytes → Attempt σ π
  /-- The phase that replaces this one, if it is over. -/
  next? : σ → Option σ
  /-- The state that looks for the next package. -/
  reset : σ → σ
  /-- Whether the state throws away what it reads.  Such bytes have no length limit. -/
  discards : σ → Bool
  /-- The state told of the package limit, for packages that several attempts put together. -/
  withLimit : σ → Nat → σ

end FramedChannel
