import FramedChannel.Bytes

/-!
# Padding of a message to blocks

Both digests of the library cut their input into blocks of 64 bytes.  The
input is followed by the byte `0x80`, by the fewest zero bytes that leave room
for eight more in the last block, and by its length in bits; the digests differ
in the order of those eight bytes.
-/

namespace FramedChannel.Digest

/-- The padding of a message of `length` bytes, whose bit count is written by `writeLength`. -/
def padding (writeLength : Nat → Bytes) (length : Nat) : Bytes :=
  0x80 :: List.replicate ((119 - length % 64) % 64) 0 ++ writeLength (length * 8)

/-- The consecutive pieces of `size` elements, `count` of them. -/
def pieces {α : Type} (size : Nat) : Nat → List α → List (List α)
  | 0, _ => []
  | count + 1, items => items.take size :: pieces size count (items.drop size)

/-- The padded blocks of a message. -/
def blocks (writeLength : Nat → Bytes) (message : Bytes) : List Bytes :=
  let padded := message ++ padding writeLength message.length
  pieces 64 (padded.length / 64) padded

/-- Padding makes the length a multiple of the block size. -/
theorem length_padded (writeLength : Nat → Bytes) (h : ∀ n, (writeLength n).length = 8)
    (message : Bytes) :
    (message ++ padding writeLength message.length).length % 64 = 0 := by
  simp [padding, h]
  omega

/-- A word rotated to the left by `n` bits, for `n` below 32. -/
def rotateLeft (word n : UInt32) : UInt32 :=
  (word <<< n) ||| (word >>> (32 - n))

end FramedChannel.Digest
