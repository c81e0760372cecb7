import FramedChannel.WebSocket.Upgrade
import Mathlib.Data.List.Induction
import Mathlib.Data.Nat.Digits.Defs

/-!
# The number of a draft-00 key

A key hides a number: its digits, read in base ten, divided by its spaces.

* `decimal_eq_ofDigits` says that the digits are read in base ten, and
  `written key` is the number that those of a key write.
* `HidesNumber` are the keys that have a number.  `keyNumber_of_hidesNumber` and
  `keyNumber_of_not_hidesNumber` say what `keyNumber` makes of a key.
* `keyNumber_keeps` says that 32 bits of the number are kept, and when that is
  all of it.
-/

namespace FramedChannel.WebSocket

/-! ## Digits -/

/-- The value of a decimal digit. -/
def digitValue (c : Char) : Nat :=
  c.toNat - '0'.toNat

theorem decimal_concat (digits : List Char) (c : Char) :
    decimal (digits ++ [c]) = decimal digits * 10 + digitValue c := by
  rw [decimal, List.foldl_append]
  rfl

/-- Digits are read in base ten, the most significant one first. -/
theorem decimal_eq_ofDigits (digits : List Char) :
    decimal digits = Nat.ofDigits 10 (digits.map digitValue).reverse := by
  induction digits using List.reverseRecOn with
  | nil => rfl
  | append_singleton digits c ih =>
    rw [decimal_concat, ih, List.map_append, List.map_singleton, List.reverse_concat,
      Nat.ofDigits_cons, Nat.mul_comm, Nat.add_comm]

/-! ## Keys -/

/-- The digits of a key, in order. -/
def digitsOf (key : String) : List Char :=
  key.toList.filter Char.isDigit

/-- The number that the digits of a key write. -/
def written (key : String) : Nat :=
  Nat.ofDigits 10 ((digitsOf key).map digitValue).reverse

/-- How many spaces a key has. -/
def spacesOf (key : String) : Nat :=
  key.toList.count ' '

/-- A key with a space and a digit at least, whose digits write a number of 64 bits. -/
structure HidesNumber (key : String) : Prop where
  spaced : ' ' ∈ key.toList
  digits : ∃ c ∈ key.toList, c.isDigit = true
  fits : written key < UInt64.size

variable {key : String}

theorem spacesOf_eq_zero_iff : spacesOf key = 0 ↔ ' ' ∉ key.toList :=
  List.count_eq_zero

theorem digitsOf_eq_nil_iff : digitsOf key = [] ↔ ¬ ∃ c ∈ key.toList, c.isDigit = true := by
  rw [digitsOf, List.filter_eq_nil_iff]
  simp only [not_exists, not_and]

theorem keyNumber_eq (key : String) :
    keyNumber key =
      if spacesOf key = 0 then .error (.protocol .keyWithoutSpaces)
      else if digitsOf key = [] ∨ UInt64.size ≤ written key then
        .error (.protocol .keyWithoutNumber)
      else .ok (UInt32.ofNat (written key / spacesOf key)) := by
  simp only [keyNumber, written, ← decimal_eq_ofDigits, spacesOf, digitsOf, Bool.or_eq_true,
    List.isEmpty_iff, decide_eq_true_eq, ge_iff_le]

theorem keyNumber_of_hidesNumber (h : HidesNumber key) :
    keyNumber key = .ok (UInt32.ofNat (written key / spacesOf key)) := by
  have hspaces : spacesOf key ≠ 0 := fun hzero => spacesOf_eq_zero_iff.1 hzero h.spaced
  have hfound : ¬ (digitsOf key = [] ∨ UInt64.size ≤ written key) := by
    rintro (hnil | hlarge)
    · exact digitsOf_eq_nil_iff.1 hnil h.digits
    · exact Nat.not_le.2 h.fits hlarge
  rw [keyNumber_eq, if_neg hspaces, if_neg hfound]

theorem keyNumber_of_not_hidesNumber (h : ¬ HidesNumber key) :
    ∃ violation, keyNumber key = .error (.protocol violation) := by
  rw [keyNumber_eq]
  by_cases hspaces : spacesOf key = 0
  · exact ⟨_, if_pos hspaces⟩
  by_cases hfound : digitsOf key = [] ∨ UInt64.size ≤ written key
  · exact ⟨_, by rw [if_neg hspaces, if_pos hfound]⟩
  rw [not_or, Nat.not_le] at hfound
  refine absurd ⟨?_, ?_, hfound.2⟩ h
  · exact not_not.1 fun hmem => hspaces (spacesOf_eq_zero_iff.2 hmem)
  · exact not_not.1 fun hdigit => hfound.1 (digitsOf_eq_nil_iff.2 hdigit)

/-! ## The number -/

/-- A key that hides a number is read, and no other key is.  What is read of it is the number as
long as that has no more than 32 bits. -/
theorem keyNumber_keeps (key : String) :
    (∀ n, keyNumber key = .ok n ↔
        HidesNumber key ∧ n.toNat = written key / spacesOf key % UInt32.size) ∧
      (∀ n, keyNumber key = .ok n →
        (n.toNat = written key / spacesOf key ↔ written key / spacesOf key < UInt32.size)) ∧
      (¬ HidesNumber key → ∃ violation, keyNumber key = .error (.protocol violation)) := by
  have hread : ∀ n, keyNumber key = .ok n ↔
      HidesNumber key ∧ n.toNat = written key / spacesOf key % UInt32.size := by
    intro n
    by_cases hkey : HidesNumber key
    · rw [keyNumber_of_hidesNumber hkey, Except.ok.injEq, ← UInt32.toNat_inj,
        UInt32.toNat_ofNat']
      exact ⟨fun h => ⟨hkey, h.symm⟩, fun h => h.2.symm⟩
    · obtain ⟨violation, herror⟩ := keyNumber_of_not_hidesNumber hkey
      rw [herror]
      constructor
      · rintro ⟨⟩
      · rintro ⟨h, _⟩
        exact absurd h hkey
  refine ⟨hread, fun n h => ?_, keyNumber_of_not_hidesNumber⟩
  rw [((hread n).1 h).2]
  exact Nat.mod_eq_iff_lt (by decide)

/-- The first key of the example in the draft. -/
theorem keyNumber_keeps_example :
    HidesNumber "18x 6]8vM;54 *(5:  \x7b   U1]8  z [  8" ∧
      keyNumber "18x 6]8vM;54 *(5:  \x7b   U1]8  z [  8" = .ok 155712099 := by
  have hkey : HidesNumber "18x 6]8vM;54 *(5:  \x7b   U1]8  z [  8" :=
    ⟨by decide +kernel, ⟨'1', by decide +kernel, rfl⟩, by decide +kernel⟩
  exact ⟨hkey, ((keyNumber_keeps _).1 155712099).2 ⟨hkey, by decide +kernel⟩⟩

/-- A number of 33 bits is read as another one. -/
theorem keyNumber_wraps :
    HidesNumber "4 294967296" ∧ keyNumber "4 294967296" = .ok 0 ∧
      written "4 294967296" / spacesOf "4 294967296" = 4294967296 :=
  have hkey : HidesNumber "4 294967296" :=
    ⟨by decide +kernel, ⟨'4', by decide +kernel, rfl⟩, by decide +kernel⟩
  ⟨hkey, by decide +kernel, by decide +kernel⟩

end FramedChannel.WebSocket
