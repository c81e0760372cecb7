/-!
# Byte strings

Byte strings are lists of bytes.  This module adds what every wire format of
the library needs: big-endian numbers and the first occurrence of one byte
string in another.

* `Bytes.ofNat` and `Bytes.toNat` write and read a number with the most
  significant byte first (`toNat_ofNat`, `ofNat_toNat`).
* `Bytes.find` gives the smallest offset at which a byte string occurs, and
  `Bytes.slide` finds it with a window that moves along the bytes.
-/

namespace FramedChannel

/-- A byte string. -/
abbrev Bytes := List UInt8

namespace Bytes

/-! ## Big-endian numbers -/

/-- The last `8 * width` bits of a number in `width` bytes, the most significant byte first. -/
def ofNat : Nat → Nat → Bytes
  | 0, _ => []
  | width + 1, n => UInt8.ofNat (n >>> (8 * width)) :: ofNat width n

/-- The number that a byte string writes with its most significant byte first. -/
def toNat (bytes : Bytes) : Nat :=
  bytes.foldl (fun n byte => n * 256 + byte.toNat) 0

@[simp] theorem length_ofNat (width n : Nat) : (ofNat width n).length = width := by
  induction width with
  | zero => rfl
  | succ width ih => simp [ofNat, ih]

private theorem foldl_ofNat_aux (width n start : Nat) :
    (ofNat width n).foldl (fun m byte => m * 256 + byte.toNat) start =
      start * 1 <<< (8 * width) + n % 1 <<< (8 * width) := by
  induction width generalizing start with
  | zero => simp [ofNat, Nat.mod_one]
  | succ width ih =>
    have hbyte : (UInt8.ofNat (n >>> (8 * width))).toNat = n / 1 <<< (8 * width) % 256 := by
      rw [UInt8.toNat_ofNat', Nat.shiftRight_eq_div_pow, Nat.one_shiftLeft]
    have hnext : 1 <<< (8 * (width + 1)) = 1 <<< (8 * width) * 256 := by
      rw [Nat.mul_succ, Nat.shiftLeft_add, Nat.shiftLeft_eq _ 8]
    simp only [ofNat, List.foldl_cons, ih, hbyte, hnext]
    generalize 1 <<< (8 * width) = unit
    rw [Nat.mod_mul, Nat.add_mul, Nat.mul_assoc, Nat.mul_comm 256 unit,
      Nat.mul_comm (n / unit % 256)]
    omega

/-- Reading a written number gives the number back, modulo what the width can hold. -/
theorem toNat_ofNat (width n : Nat) : toNat (ofNat width n) = n % 1 <<< (8 * width) := by
  simp [toNat, foldl_ofNat_aux]

private theorem foldl_toNat_aux (start : Nat) (bytes : Bytes) :
    bytes.foldl (fun n byte => n * 256 + byte.toNat) start =
      start * 1 <<< (8 * bytes.length) + toNat bytes := by
  induction bytes generalizing start with
  | nil => simp [toNat]
  | cons byte rest ih =>
    have hnext : 1 <<< (8 * (rest.length + 1)) = 256 * 1 <<< (8 * rest.length) := by
      rw [Nat.mul_succ, Nat.add_comm, Nat.shiftLeft_add, Nat.shiftLeft_eq (1 <<< 8) _,
        Nat.one_shiftLeft (8 * rest.length), Nat.one_shiftLeft 8]
    rw [toNat, List.foldl_cons, List.foldl_cons, ih, ih, List.length_cons, hnext]
    grind

/-- The first byte counts the units that the bytes behind it cannot write. -/
theorem toNat_cons (byte : UInt8) (rest : Bytes) :
    toNat (byte :: rest) = byte.toNat * 1 <<< (8 * rest.length) + toNat rest := by
  rw [toNat, List.foldl_cons, foldl_toNat_aux, Nat.zero_mul, Nat.zero_add]

theorem toNat_lt (bytes : Bytes) : toNat bytes < 1 <<< (8 * bytes.length) := by
  induction bytes with
  | nil => decide
  | cons byte rest ih =>
    rw [toNat_cons, List.length_cons, Nat.mul_succ, Nat.shiftLeft_add, Nat.shiftLeft_eq _ 8]
    have hbyte := Nat.mul_le_mul_right (1 <<< (8 * rest.length)) (Nat.le_of_lt_succ byte.toNat_lt)
    omega

/-- Byte strings of one length that write one number are the same. -/
theorem toNat_inj {bytes other : Bytes} (hlength : bytes.length = other.length)
    (h : toNat bytes = toNat other) : bytes = other := by
  induction bytes generalizing other with
  | nil => exact (List.length_eq_zero_iff.1 hlength.symm).symm
  | cons byte rest ih =>
    cases other with
    | nil => cases hlength
    | cons byte' rest' =>
      have hlength : rest.length = rest'.length := Nat.succ.inj hlength
      have hlt := toNat_lt rest
      have hlt' := toNat_lt rest'
      rw [toNat_cons, toNat_cons, ← hlength] at h
      rw [← hlength] at hlt'
      have hunit := Nat.zero_lt_of_lt hlt
      have hrest := congrArg (· % 1 <<< (8 * rest.length)) h
      simp only [Nat.mul_add_mod_self_right, Nat.mod_eq_of_lt hlt, Nat.mod_eq_of_lt hlt'] at hrest
      rw [hrest, Nat.add_right_cancel_iff] at h
      rw [UInt8.toNat_inj.1 (Nat.mul_right_cancel hunit h), ih hlength hrest]

/-- Writing a number that was read gives the bytes back. -/
theorem ofNat_toNat (bytes : Bytes) : ofNat bytes.length (toNat bytes) = bytes :=
  toNat_inj (length_ofNat _ _) (by rw [toNat_ofNat, Nat.mod_eq_of_lt (toNat_lt bytes)])

/-! ## Lengths -/

/-- The number of bytes of some byte strings. -/
def total : List Bytes → Nat
  | [] => 0
  | bytes :: rest => bytes.length + total rest

theorem length_flatten (parts : List Bytes) : parts.flatten.length = total parts := by
  induction parts with
  | nil => rfl
  | cons bytes rest ih => rw [List.flatten_cons, List.length_append, ih, total]

theorem total_concat (parts : List Bytes) (bytes : Bytes) :
    total (parts ++ [bytes]) = total parts + bytes.length := by
  rw [← length_flatten, List.flatten_concat, List.length_append, length_flatten]

/-! ## The first occurrence -/

/-- The smallest offset of `needle` in the byte string, counted from `start`. -/
def findFrom (needle : Bytes) (start : Nat) : Bytes → Option Nat
  | [] => none
  | byte :: rest =>
    if needle.isPrefixOf (byte :: rest) then some start else findFrom needle (start + 1) rest

/-- The smallest offset, not below `start`, at which `needle` occurs in `bytes`.
An empty needle occurs nowhere. -/
def find (needle bytes : Bytes) (start : Nat) : Option Nat :=
  if needle.isEmpty then none else findFrom needle start (bytes.drop start)

/-- The offset at which `needle` stands in a window of its length that slides over the bytes, the
next of which has offset `index`.  The window has the bytes in front of it, as far as it is long. -/
def slide (needle : Bytes) : Bytes → Nat → Bytes → Option Nat
  | _, _, [] => none
  | window, index, byte :: rest =>
    let window := (if window.length = needle.length then window.drop 1 else window) ++ [byte]
    if window = needle then some (index + 1 - needle.length)
    else slide needle window (index + 1) rest

end Bytes

end FramedChannel
