import FramedChannel.Digest.Block

/-!
# SHA-1

The digest of FIPS 180-4, section 6.1: a chaining value of five words, folded
over the padded blocks, each of which is stretched to eighty words.
-/

namespace FramedChannel.Digest.Sha1

/-- The chaining value. -/
structure State where
  a : UInt32
  b : UInt32
  c : UInt32
  d : UInt32
  e : UInt32
  deriving DecidableEq, Repr

/-- The chaining value before the first block. -/
def initial : State :=
  ⟨0x67452301, 0xEFCDAB89, 0x98BADCFE, 0x10325476, 0xC3D2E1F0⟩

/-- The sixteen big-endian words of a block. -/
def words (block : Bytes) : List UInt32 :=
  (pieces 4 16 block).map fun piece => UInt32.ofNat (Bytes.toNat piece)

/-- The schedule: every word from the seventeenth on is the rotated sum, without carries, of four
earlier ones.  `recent` holds the sixteen words before the next one, the latest first. -/
def stretch : Nat → List UInt32 → List UInt32
  | 0, _ => []
  | count + 1, recent =>
    let word :=
      rotateLeft (recent.getD 2 0 ^^^ recent.getD 7 0 ^^^ recent.getD 13 0 ^^^ recent.getD 15 0) 1
    word :: stretch count (word :: recent.take 15)

/-- The eighty words of a block. -/
def schedule (block : Bytes) : List UInt32 :=
  words block ++ stretch 64 (words block).reverse

/-- The choice function and the constant of a round. -/
def round (index : Nat) (s : State) : UInt32 × UInt32 :=
  if index < 20 then ((s.b &&& s.c) ||| (~~~s.b &&& s.d), 0x5A827999)
  else if index < 40 then (s.b ^^^ s.c ^^^ s.d, 0x6ED9EBA1)
  else if index < 60 then ((s.b &&& s.c) ||| (s.b &&& s.d) ||| (s.c &&& s.d), 0x8F1BBCDC)
  else (s.b ^^^ s.c ^^^ s.d, 0xCA62C1D6)

/-- One round with its scheduled word. -/
def step (s : State) (word : UInt32 × Nat) : State :=
  let (choice, constant) := round word.2 s
  ⟨rotateLeft s.a 5 + choice + s.e + constant + word.1, s.a, rotateLeft s.b 30, s.c, s.d⟩

/-- The chaining value behind one block. -/
def compress (s : State) (block : Bytes) : State :=
  let t := (schedule block).zipIdx.foldl step s
  ⟨s.a + t.a, s.b + t.b, s.c + t.c, s.d + t.d, s.e + t.e⟩

/-- The twenty bytes of the digest. -/
def digest (message : Bytes) : Bytes :=
  let s := (blocks (Bytes.ofNat 8) message).foldl compress initial
  [s.a, s.b, s.c, s.d, s.e].flatMap fun word => Bytes.ofNat 4 word.toNat

/-- The digest has twenty bytes. -/
theorem length_digest (message : Bytes) : (digest message).length = 20 := by
  simp [digest]

end FramedChannel.Digest.Sha1
