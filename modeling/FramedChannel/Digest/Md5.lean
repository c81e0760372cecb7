import FramedChannel.Digest.Block

/-!
# MD5

The digest of RFC 1321: a chaining value of four words, folded over the padded
blocks.  Words and the bit count are little-endian.
-/

namespace FramedChannel.Digest.Md5

/-- The chaining value. -/
structure State where
  a : UInt32
  b : UInt32
  c : UInt32
  d : UInt32
  deriving DecidableEq, Repr

/-- The chaining value before the first block. -/
def initial : State :=
  ⟨0x67452301, 0xEFCDAB89, 0x98BADCFE, 0x10325476⟩

/-- A number with the least significant byte first. -/
def littleEndian (width n : Nat) : Bytes :=
  (Bytes.ofNat width n).reverse

/-- The sixteen little-endian words of a block. -/
def words (block : Bytes) : List UInt32 :=
  (pieces 4 16 block).map fun piece => UInt32.ofNat (Bytes.toNat piece.reverse)

/-- The whole parts of `2 ^ 32 * |sin i|` for `i` from 1 to 64. -/
def sines : List UInt32 := [
  0xD76AA478, 0xE8C7B756, 0x242070DB, 0xC1BDCEEE, 0xF57C0FAF, 0x4787C62A, 0xA8304613, 0xFD469501,
  0x698098D8, 0x8B44F7AF, 0xFFFF5BB1, 0x895CD7BE, 0x6B901122, 0xFD987193, 0xA679438E, 0x49B40821,
  0xF61E2562, 0xC040B340, 0x265E5A51, 0xE9B6C7AA, 0xD62F105D, 0x02441453, 0xD8A1E681, 0xE7D3FBC8,
  0x21E1CDE6, 0xC33707D6, 0xF4D50D87, 0x455A14ED, 0xA9E3E905, 0xFCEFA3F8, 0x676F02D9, 0x8D2A4C8A,
  0xFFFA3942, 0x8771F681, 0x6D9D6122, 0xFDE5380C, 0xA4BEEA44, 0x4BDECFA9, 0xF6BB4B60, 0xBEBFBC70,
  0x289B7EC6, 0xEAA127FA, 0xD4EF3085, 0x04881D05, 0xD9D4D039, 0xE6DB99E5, 0x1FA27CF8, 0xC4AC5665,
  0xF4292244, 0x432AFF97, 0xAB9423A7, 0xFC93A039, 0x655B59C3, 0x8F0CCC92, 0xFFEFF47D, 0x85845DD1,
  0x6FA87E4F, 0xFE2CE6E0, 0xA3014314, 0x4E0811A1, 0xF7537E82, 0xBD3AF235, 0x2AD7D2BB, 0xEB86D391]

/-- The rotations of the four passes over a block. -/
def rotations : List (List UInt32) :=
  [[7, 12, 17, 22], [5, 9, 14, 20], [4, 11, 16, 23], [6, 10, 15, 21]]

/-- The choice function of a round and the word it takes. -/
def round (index : Nat) (s : State) : UInt32 × Nat :=
  if index < 16 then ((s.b &&& s.c) ||| (~~~s.b &&& s.d), index)
  else if index < 32 then ((s.d &&& s.b) ||| (~~~s.d &&& s.c), (5 * index + 1) % 16)
  else if index < 48 then (s.b ^^^ s.c ^^^ s.d, (3 * index + 5) % 16)
  else (s.c ^^^ (s.b ||| ~~~s.d), (7 * index) % 16)

/-- One round, given by its constant and its index. -/
def step (block : List UInt32) (s : State) (turn : UInt32 × Nat) : State :=
  let (choice, position) := round turn.2 s
  let rotation := (rotations.getD (turn.2 / 16) []).getD (turn.2 % 4) 0
  let sum := s.a + choice + turn.1 + block.getD position 0
  ⟨s.d, s.b + rotateLeft sum rotation, s.b, s.c⟩

/-- The chaining value behind one block. -/
def compress (s : State) (block : Bytes) : State :=
  let t := sines.zipIdx.foldl (step (words block)) s
  ⟨s.a + t.a, s.b + t.b, s.c + t.c, s.d + t.d⟩

/-- The sixteen bytes of the digest. -/
def digest (message : Bytes) : Bytes :=
  let s := (blocks (littleEndian 8) message).foldl compress initial
  [s.a, s.b, s.c, s.d].flatMap fun word => littleEndian 4 word.toNat

/-- The digest has sixteen bytes. -/
theorem length_digest (message : Bytes) : (digest message).length = 16 := by
  simp [digest, littleEndian]

end FramedChannel.Digest.Md5
