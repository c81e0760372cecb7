import FramedChannel.Bytes

/-!
# Base64

The standard alphabet of RFC 4648 with padding: three bytes become four
characters, and one or two bytes at the end are filled up with `=`.
-/

namespace FramedChannel.Base64

/-- The alphabet in the order of its digits. -/
def alphabet : List Char :=
  "ABCDEFGHIJKLMNOPQRSTUVWXYZabcdefghijklmnopqrstuvwxyz0123456789+/".toList

/-- The character of a digit below 64. -/
def digit (n : Nat) : Char :=
  alphabet.getD (n % 64) '='

/-- The characters of a byte string. -/
def encode : Bytes → List Char
  | [] => []
  | [a] =>
    let n := a.toNat * 16
    [digit (n / 64), digit n, '=', '=']
  | [a, b] =>
    let n := (a.toNat * 256 + b.toNat) * 4
    [digit (n / 4096), digit (n / 64), digit n, '=']
  | a :: b :: c :: rest =>
    let n := (a.toNat * 256 + b.toNat) * 256 + c.toNat
    [digit (n / 262144), digit (n / 4096), digit (n / 64), digit n] ++ encode rest

end FramedChannel.Base64
