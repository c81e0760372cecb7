import Mathlib.Data.List.Basic
import FramedChannel.Text.Utf8

/-!
# Text and its bytes

Decoding and encoding undo each other: text is written as the bytes that it was
read from (`encode_of_decode`), and read back from its own bytes
(`decode_encode`).  So bytes are the encoding of a text just if they can be
decoded, and then of the text that was decoded (`decode_eq_ok_iff`).

A character that is open will be one of a range of code points.  `Open.Reads`
says that the bytes of all of them begin with those that were read.  A lead byte
opens such a range (`reads_of_lead`), and a continuation byte narrows it
(`Open.Reads.next`).

All bytes of a longer character are out of ASCII, so a mark in ASCII stands in
the bytes of a text only where it stands in the text (`prefix_drop_of_encode`).
-/

namespace FramedChannel.Utf8

/-! ## The bytes of a character -/

/-- How many code points a number of continuation bytes can tell apart. -/
def reach : Nat → Nat
  | 0 => 1
  | count + 1 => 64 * reach count

/-- The last bytes of the character with a code point, so many of them. -/
def continuation (n : Nat) : Nat → Bytes
  | 0 => []
  | count + 1 => UInt8.ofNat (n / reach count % 64 + 128) :: continuation n count

section Characters

variable {n : Nat}

theorem toNat_val_ofNat (h : n.isValidChar) : (Char.ofNat n).val.toNat = n := by
  rw [Char.ofNat, dif_pos h]
  exact UInt32.toNat_ofNatLT

theorem encodeChar_one (h : n < 0x80) :
    String.utf8EncodeChar (Char.ofNat n) = [UInt8.ofNat n] := by
  have hval := toNat_val_ofNat (n := n) (.inl (by omega))
  unfold String.utf8EncodeChar
  rw [hval, if_pos (Nat.le_of_lt_succ h)]

theorem encodeChar_two (h : 0x80 ≤ n) (h' : n < 0x800) :
    String.utf8EncodeChar (Char.ofNat n) = UInt8.ofNat (n / 64 + 192) :: continuation n 1 := by
  have hval := toNat_val_ofNat (n := n) (.inl (by omega))
  have hlead : n / 64 % 32 = n / 64 := by omega
  unfold String.utf8EncodeChar
  dsimp only
  rw [hval, if_neg (by omega), if_pos (by omega), hlead]
  simp [continuation, reach]

theorem encodeChar_three (h : 0x800 ≤ n) (h' : n < 0xD800 ∨ 0xDFFF < n ∧ n < 0x10000) :
    String.utf8EncodeChar (Char.ofNat n) = UInt8.ofNat (n / 4096 + 224) :: continuation n 2 := by
  have hval := toNat_val_ofNat (n := n) (h'.imp id fun h => ⟨h.1, by omega⟩)
  have hlead : n / 4096 % 16 = n / 4096 := by omega
  unfold String.utf8EncodeChar
  dsimp only
  rw [hval, if_neg (by omega), if_neg (by omega), if_pos (by omega), hlead]
  simp [continuation, reach]

theorem encodeChar_four (h : 0x10000 ≤ n) (h' : n < 0x110000) :
    String.utf8EncodeChar (Char.ofNat n) = UInt8.ofNat (n / 262144 + 240) :: continuation n 3 := by
  have hval := toNat_val_ofNat (n := n) (.inr ⟨by omega, h'⟩)
  have hlead : n / 262144 % 8 = n / 262144 := by omega
  unfold String.utf8EncodeChar
  dsimp only
  rw [hval, if_neg (by omega), if_neg (by omega), if_neg (by omega), hlead]
  simp [continuation, reach]

/-- The bytes of a code point behind one byte more. -/
theorem continuation_succ {byte : UInt8} {count value : Nat} (hlow : 0x80 ≤ byte.toNat)
    (hhigh : byte.toNat < 0xC0) (hvalue : n / reach count = value * 64 + (byte.toNat - 0x80)) :
    continuation n (count + 1) = byte :: continuation n count := by
  have hbyte : n / reach count % 64 + 128 = byte.toNat := by omega
  rw [continuation, hbyte, UInt8.ofNat_toNat]

end Characters

/-! ## Open characters -/

namespace Open

variable {c : Open} {byte : UInt8} {read : Bytes}

/-- The least code point that an open character can come to. -/
def least (c : Open) : Nat :=
  c.value * reach c.owed + (c.low.toNat - 0x80) * reach (c.owed - 1)

/-- The first code point behind all that an open character can come to. -/
def bound (c : Open) : Nat :=
  c.value * reach c.owed + (c.high.toNat - 0x80 + 1) * reach (c.owed - 1)

/-- Whatever an open character comes to begins with the bytes that were read of it, and only
continuation bytes are owed. -/
structure Reads (c : Open) (read : Bytes) : Prop where
  owed : 0 < c.owed
  low : 0x80 ≤ c.low.toNat
  high : c.high.toNat < 0xC0
  bytes : ∀ n, c.least ≤ n → n < c.bound →
    String.utf8EncodeChar (Char.ofNat n) = read ++ continuation n c.owed

/-- The value behind another byte of an open character. -/
def valueBehind (c : Open) (byte : UInt8) : Nat :=
  c.value * 64 + (byte.toNat - 0x80)

/-- An open character behind a byte that is not its last one. -/
def behind (c : Open) (byte : UInt8) : Open :=
  ⟨c.owed - 1, 0x80, 0xBF, c.valueBehind byte, c.taken + 1⟩

/-- The last byte of a character completes its bytes. -/
theorem Reads.last (h : c.Reads read) (hone : c.owed ≤ 1) (hlow : c.low ≤ byte)
    (hhigh : byte ≤ c.high) :
    String.utf8EncodeChar (Char.ofNat (c.valueBehind byte)) = read ++ [byte] := by
  have hone : c.owed = 1 := Nat.le_antisymm hone h.owed
  have hle := UInt8.le_iff_toNat_le.1 hlow
  have hge := UInt8.le_iff_toNat_le.1 hhigh
  have hleast : c.least = c.value * 64 + (c.low.toNat - 0x80) := by simp [least, reach, hone]
  have hbound : c.bound = c.value * 64 + (c.high.toNat - 0x80 + 1) := by simp [bound, reach, hone]
  have hvalue : c.valueBehind byte = c.value * 64 + (byte.toNat - 0x80) := rfl
  have hstart : 0x80 ≤ byte.toNat := Nat.le_trans h.low hle
  have hend : byte.toNat < 0xC0 := Nat.lt_of_le_of_lt hge h.high
  rw [h.bytes _ (by omega) (by omega), hone,
    continuation_succ hstart hend ((Nat.div_one _).trans hvalue), continuation]

/-- Any byte but the last one leaves the character open, in a range inside the old one. -/
theorem Reads.next (h : c.Reads read) (hmore : ¬ c.owed ≤ 1) (hlow : c.low ≤ byte)
    (hhigh : byte ≤ c.high) : (c.behind byte).Reads (read ++ [byte]) := by
  obtain ⟨owed, howed⟩ : ∃ owed, c.owed = owed + 2 := ⟨c.owed - 2, by omega⟩
  have hle := UInt8.le_iff_toNat_le.1 hlow
  have hge := UInt8.le_iff_toNat_le.1 hhigh
  have hstart : 0x80 ≤ byte.toNat := Nat.le_trans h.low hle
  have hend : byte.toNat < 0xC0 := Nat.lt_of_le_of_lt hge h.high
  refine ⟨by simp [behind, howed], by simp [behind], by simp [behind], fun n hn hn' => ?_⟩
  -- The old range is made of as many parts as there are bytes, and the new one is such a part.
  have hleast : c.least =
      c.value * reach (owed + 2) + (c.low.toNat - 0x80) * reach (owed + 1) := by
    simp [least, howed]
  have hbound : c.bound =
      c.value * reach (owed + 2) + (c.high.toNat - 0x80 + 1) * reach (owed + 1) := by
    simp [bound, howed]
  have hvalue : c.valueBehind byte * reach (owed + 1) =
      c.value * reach (owed + 2) + (byte.toNat - 0x80) * reach (owed + 1) := by
    have hparts : reach (owed + 2) = 64 * reach (owed + 1) := rfl
    unfold valueBehind
    rw [hparts, Nat.add_mul, Nat.mul_assoc]
  have hfirst : (c.behind byte).least = c.valueBehind byte * reach (owed + 1) := by
    simp [least, behind, howed]
  have hlast : (c.behind byte).bound =
      c.valueBehind byte * reach (owed + 1) + reach (owed + 1) := by
    simp [bound, behind, howed, reach]
  have hmin : (c.low.toNat - 0x80) * reach (owed + 1) ≤ (byte.toNat - 0x80) * reach (owed + 1) :=
    Nat.mul_le_mul_right _ (by omega)
  have hmax : (byte.toNat - 0x80 + 1) * reach (owed + 1) ≤
      (c.high.toNat - 0x80 + 1) * reach (owed + 1) := Nat.mul_le_mul_right _ (by omega)
  rw [Nat.add_mul _ 1, Nat.one_mul] at hmax
  have hquotient : n / reach (owed + 1) = c.value * 64 + (byte.toNat - 0x80) := by
    apply Nat.div_eq_of_lt_le
    · exact hfirst ▸ hn
    · rw [Nat.succ_mul]
      exact hlast ▸ hn'
  have howed' : (c.behind byte).owed = owed + 1 := by simp [behind, howed]
  rw [h.bytes n (by omega) (by omega), howed, howed', continuation_succ hstart hend hquotient,
    List.append_assoc, List.singleton_append]

end Open

/-- A byte that is a whole character. -/
theorem encodeChar_of_lead {byte : UInt8} {c : Char} (h : lead byte = some (.inl c)) :
    String.utf8EncodeChar c = [byte] := by
  unfold lead at h
  dsimp only at h
  split_ifs at h with hascii <;> cases h
  rw [encodeChar_one hascii, UInt8.ofNat_toNat]

/-- A byte that opens a character opens a range of them. -/
theorem reads_of_lead {byte : UInt8} {c : Open} (h : lead byte = some (.inr c)) :
    c.Reads [byte] := by
  have hbyte : ∀ {n}, n = byte.toNat → UInt8.ofNat n = byte := by
    rintro _ rfl
    exact UInt8.ofNat_toNat
  unfold lead at h
  dsimp only at h
  split_ifs at h <;> cases h <;>
    refine ⟨Nat.succ_pos _, by simp, by simp, fun n hn hn' => ?_⟩ <;>
    simp [Open.least, Open.bound, reach] at hn hn'
  · rw [encodeChar_two (by omega) (by omega), hbyte (by omega)]
    rfl
  · rw [encodeChar_three (by omega) (.inl (by omega)), hbyte (by omega)]
    rfl
  · rw [encodeChar_three (by omega) (.inl (by omega)), hbyte (by omega)]
    rfl
  · rw [encodeChar_three (by omega) (by omega), hbyte (by omega)]
    rfl
  · rw [encodeChar_four (by omega) (by omega), hbyte (by omega)]
    rfl
  · rw [encodeChar_four (by omega) (by omega), hbyte (by omega)]
    rfl
  · rw [encodeChar_four (by omega) (by omega), hbyte (by omega)]
    rfl

/-! ## Decoded text -/

/-- The bytes that were read of the character that is open, if one is. -/
def Reading (cursor : Option Open) (read : Bytes) : Prop :=
  match cursor with
  | none => read = []
  | some c => c.Reads read

private theorem encode_decodeFrom_aux {start : Nat} {cursor : Option Open} {done chars : List Char}
    {bytes read : Bytes} (hcursor : Reading cursor read)
    (h : decodeFrom start cursor done bytes = .ok chars) :
    chars.flatMap String.utf8EncodeChar =
      done.reverse.flatMap String.utf8EncodeChar ++ (read ++ bytes) := by
  induction bytes generalizing start cursor done read with
  | nil =>
    unfold decodeFrom at h
    split at h
    · cases h
      rw [show read = [] from hcursor, List.append_nil, List.append_nil]
    · cases h
  | cons byte rest ih =>
    unfold decodeFrom at h
    cases cursor with
    | none =>
      have hnone : read = [] := hcursor
      dsimp only at h
      split at h
      · cases h
      · rename_i c hlead
        rw [ih (show Reading none [] from rfl) h, hnone]
        simp [encodeChar_of_lead hlead]
      · rename_i c hlead
        rw [ih (show Reading (some c) [byte] from reads_of_lead hlead) h, hnone]
        rfl
    | some c =>
      have hreads : c.Reads read := hcursor
      dsimp only at h
      split_ifs at h with hrange hone
      · have hlast : String.utf8EncodeChar
            (Char.ofNat (c.value * 64 + (byte.toNat - 0x80))) = read ++ [byte] :=
          hreads.last hone hrange.1 hrange.2
        rw [ih (show Reading none [] from rfl) h]
        simp [hlast]
      · have hnext := hreads.next hone hrange.1 hrange.2
        rw [ih (show Reading (some (c.behind byte)) _ from hnext) h]
        simp

/-- Text is written as the bytes that it was read from. -/
theorem encode_of_decode {bytes : Bytes} {text : String} (h : decode bytes = .ok text) :
    encode text = bytes := by
  unfold decode at h
  cases hchars : decodeFrom 0 none [] bytes with
  | error fault =>
    rw [hchars] at h
    cases h
  | ok chars =>
    rw [hchars] at h
    cases h
    have hbytes := encode_decodeFrom_aux (show Reading none [] from rfl) hchars
    simpa [encode] using hbytes

/-! ## Encoded text -/

section Encoded

variable {n start : Nat} {done : List Char} {rest : Bytes}

theorem lead_one (h : n < 0x80) : lead (UInt8.ofNat n) = some (.inl (Char.ofNat n)) := by
  have hsame : (UInt8.ofNat n).toNat = n := UInt8.toNat_ofNat_of_lt' (by change n < 256; omega)
  rw [lead, hsame, if_pos h]

theorem lead_two : ∀ {n : Nat}, n < 32 → 2 ≤ n →
    lead (UInt8.ofNat (n + 192)) = some (.inr ⟨1, 0x80, 0xBF, n, 1⟩) := by
  decide

theorem lead_three : ∀ {n : Nat}, n < 16 →
    lead (UInt8.ofNat (n + 224)) = some (.inr
      ⟨2, if n = 0 then 0xA0 else 0x80, if n = 13 then 0x9F else 0xBF, n, 1⟩) := by
  decide

theorem lead_four : ∀ {n : Nat}, n < 5 →
    lead (UInt8.ofNat (n + 240)) = some (.inr
      ⟨3, if n = 0 then 0x90 else 0x80, if n = 4 then 0x8F else 0xBF, n, 1⟩) := by
  decide

/-- A byte in the range of an open character. -/
theorem decodeFrom_in_range {c : Open} (hn : n < 64) (hlow : c.low.toNat ≤ n + 128)
    (hhigh : n + 128 ≤ c.high.toNat) :
    decodeFrom start (some c) done (UInt8.ofNat (n + 128) :: rest) =
      if c.owed ≤ 1 then
        decodeFrom (start + c.taken + 1) none (Char.ofNat (c.value * 64 + n) :: done) rest
      else
        decodeFrom start (some ⟨c.owed - 1, 0x80, 0xBF, c.value * 64 + n, c.taken + 1⟩) done
          rest := by
  have hsame : (UInt8.ofNat (n + 128)).toNat = n + 128 :=
    UInt8.toNat_ofNat_of_lt' (by change n + 128 < 256; omega)
  have hvalue : (UInt8.ofNat (n + 128)).toNat - 128 = n := by omega
  have hrange : c.low ≤ UInt8.ofNat (n + 128) ∧ UInt8.ofNat (n + 128) ≤ c.high := by
    rw [UInt8.le_iff_toNat_le, UInt8.le_iff_toNat_le, hsame]
    exact ⟨hlow, hhigh⟩
  simp only [decodeFrom, if_pos hrange, hvalue]

/-- The bytes of a character are read as that character. -/
theorem decodeFrom_encodeChar (c : Char) :
    ∃ behind, decodeFrom start none done (String.utf8EncodeChar c ++ rest) =
      decodeFrom behind none (c :: done) rest := by
  have hchar : Char.ofNat c.val.toNat = c := Char.ofNat_toNat c
  have hvalid : c.val.toNat < 0xD800 ∨ 0xDFFF < c.val.toNat ∧ c.val.toNat < 0x110000 := c.valid
  unfold String.utf8EncodeChar
  generalize c.val.toNat = v at hchar hvalid ⊢
  subst hchar
  dsimp only
  split_ifs with hone htwo hthree
  · refine ⟨start + 1, ?_⟩
    simp only [List.singleton_append, decodeFrom, lead_one (Nat.lt_succ_of_le hone)]
  · have hlead : lead _ = _ := lead_two (n := v / 64 % 32) (by omega) (by omega)
    have hvalue : v / 64 % 32 * 64 + v % 64 = v := by omega
    refine ⟨start + 1 + 1, ?_⟩
    simp only [List.cons_append, List.nil_append]
    rw [decodeFrom, hlead]
    dsimp only
    rw [decodeFrom_in_range (by omega) (by simp) (by simp; omega), hvalue]
    rfl
  · have hlead : lead _ = _ := lead_three (n := v / 4096 % 16) (by omega)
    have hvalue : (v / 4096 % 16 * 64 + v / 64 % 64) * 64 + v % 64 = v := by omega
    refine ⟨start + 2 + 1, ?_⟩
    simp only [List.cons_append, List.nil_append]
    rw [decodeFrom, hlead]
    dsimp only
    rw [decodeFrom_in_range (by omega) (by split_ifs <;> simp <;> omega)
      (by split_ifs <;> simp <;> omega)]
    rw [if_neg (by simp), decodeFrom_in_range (by omega) (by simp) (by simp; omega), hvalue]
    rfl
  · have hlead : lead _ = _ := lead_four (n := v / 262144 % 8) (by omega)
    have hvalue :
        ((v / 262144 % 8 * 64 + v / 4096 % 64) * 64 + v / 64 % 64) * 64 + v % 64 = v := by omega
    refine ⟨start + 3 + 1, ?_⟩
    simp only [List.cons_append, List.nil_append]
    rw [decodeFrom, hlead]
    dsimp only
    rw [decodeFrom_in_range (by omega) (by split_ifs <;> simp <;> omega)
      (by split_ifs <;> simp <;> omega)]
    rw [if_neg (by simp), decodeFrom_in_range (by omega) (by simp) (by simp; omega),
      if_neg (by simp), decodeFrom_in_range (by omega) (by simp) (by simp; omega), hvalue]
    rfl

private theorem decodeFrom_flatMap (chars : List Char) :
    decodeFrom start none done (chars.flatMap String.utf8EncodeChar) =
      .ok (done.reverse ++ chars) := by
  induction chars generalizing start done with
  | nil => simp [decodeFrom]
  | cons c chars ih =>
    obtain ⟨behind, hread⟩ :
        ∃ behind, decodeFrom start none done ((c :: chars).flatMap String.utf8EncodeChar) =
          decodeFrom behind none (c :: done) (chars.flatMap String.utf8EncodeChar) :=
      decodeFrom_encodeChar c
    rw [hread, ih, List.reverse_cons, List.append_assoc, List.singleton_append]

/-- Text is read back from its bytes. -/
theorem decode_encode (text : String) : decode (encode text) = .ok text := by
  rw [decode, encode, decodeFrom_flatMap]
  exact congrArg Except.ok String.ofList_toList

/-- Bytes are decoded to the text that they encode, and to nothing else. -/
theorem decode_eq_ok_iff {bytes : Bytes} {text : String} :
    decode bytes = .ok text ↔ encode text = bytes := by
  refine ⟨encode_of_decode, ?_⟩
  rintro rfl
  exact decode_encode text

theorem isText_encode (text : String) : isText (encode text) = true := by
  rw [isText, decode_encode]
  rfl

end Encoded

/-! ## Marks in ASCII -/

section Marks

/-- A character is a byte of its own, or none of its bytes is a character. -/
theorem encodeChar_cases (c : Char) :
    c.val.toNat < 0x80 ∧ String.utf8EncodeChar c = [UInt8.ofNat c.val.toNat] ∨
      String.utf8EncodeChar c ≠ [] ∧ ∀ byte ∈ String.utf8EncodeChar c, 0x80 ≤ byte.toNat := by
  unfold String.utf8EncodeChar
  dsimp only
  split_ifs
  · exact .inl ⟨by omega, rfl⟩
  all_goals
    right
    refine ⟨List.cons_ne_nil _ _, ?_⟩
    simp only [List.mem_cons, List.not_mem_nil, or_false]
    intro byte hbyte
    rcases hbyte with rfl | rfl | rfl | rfl <;> rw [UInt8.toNat_ofNat'] <;> omega

/-- No byte of a character is above the ones that begin the longest characters. -/
theorem toNat_lt_of_mem_encodeChar {c : Char} {byte : UInt8}
    (h : byte ∈ String.utf8EncodeChar c) : byte.toNat < 0xF8 := by
  revert h
  unfold String.utf8EncodeChar
  dsimp only
  split_ifs
  all_goals
    simp only [List.mem_cons, List.not_mem_nil, or_false]
    intro hbyte
    rcases hbyte with rfl | rfl | rfl | rfl <;> rw [UInt8.toNat_ofNat'] <;> omega

/-- A character that is a byte is known by it. -/
theorem eq_of_byte_eq {a c : Char} (ha : a.val.toNat < 0x80) (hc : c.val.toNat < 0x80)
    (h : UInt8.ofNat a.val.toNat = UInt8.ofNat c.val.toNat) : a = c := by
  have hsame := congrArg UInt8.toNat h
  rw [UInt8.toNat_ofNat', UInt8.toNat_ofNat', Nat.mod_eq_of_lt (by omega),
    Nat.mod_eq_of_lt (by omega)] at hsame
  exact Char.ext (UInt32.toNat_inj.1 hsame)

variable {mark text : List Char} (hascii : ∀ c ∈ mark, c.val.toNat < 0x80)

include hascii

theorem encodeChar_of_mem {c : Char} (h : c ∈ mark) :
    String.utf8EncodeChar c = [UInt8.ofNat c.val.toNat] := by
  unfold String.utf8EncodeChar
  dsimp only
  rw [if_pos (Nat.le_of_lt_succ (hascii c h))]

/-- No byte of a longer character is the first one of a text in ASCII. -/
theorem ne_of_mem_encodeChar {a c : Char} (ha : a ∈ mark)
    (hlong : ∀ byte ∈ String.utf8EncodeChar c, 0x80 ≤ byte.toNat) :
    UInt8.ofNat a.val.toNat ∉ String.utf8EncodeChar c := by
  intro hmem
  have hbyte := hlong _ hmem
  have hsmall := hascii a ha
  rw [UInt8.toNat_ofNat', Nat.mod_eq_of_lt (by omega)] at hbyte
  omega

/-- A text in ASCII at the beginning of some bytes is one at the beginning of their text. -/
theorem prefix_of_encode
    (h : mark.flatMap String.utf8EncodeChar <+: text.flatMap String.utf8EncodeChar) :
    mark <+: text := by
  induction mark generalizing text with
  | nil => exact List.nil_prefix
  | cons a mark ih =>
    have ha := encodeChar_of_mem hascii List.mem_cons_self
    rw [List.flatMap_cons, ha, List.singleton_append] at h
    cases text with
    | nil => exact absurd h.length_le (by simp)
    | cons c text =>
      rw [List.flatMap_cons] at h
      rcases encodeChar_cases c with ⟨hc, hone⟩ | ⟨hsome, hlong⟩
      · rw [hone, List.singleton_append, List.cons_prefix_cons] at h
        obtain rfl := eq_of_byte_eq (hascii a List.mem_cons_self) hc h.1
        have hrest := ih (fun _ hmem => hascii _ (List.mem_cons_of_mem _ hmem)) h.2
        exact List.cons_prefix_cons.2 ⟨rfl, hrest⟩
      · obtain ⟨byte, bytes, hbytes⟩ := List.exists_cons_of_ne_nil hsome
        have hnot := ne_of_mem_encodeChar hascii List.mem_cons_self hlong
        rw [hbytes, List.cons_append, List.cons_prefix_cons] at h
        rw [hbytes, h.1] at hnot
        exact absurd List.mem_cons_self hnot

/-- Where it stands in the bytes of a text, it stands in the text. -/
theorem prefix_drop_of_encode (hne : mark ≠ []) {i : Nat}
    (h : mark.flatMap String.utf8EncodeChar <+: (text.flatMap String.utf8EncodeChar).drop i) :
    ∃ k, i = ((text.take k).flatMap String.utf8EncodeChar).length ∧ mark <+: text.drop k := by
  obtain ⟨a, mark, rfl⟩ := List.exists_cons_of_ne_nil hne
  have ha := encodeChar_of_mem hascii List.mem_cons_self
  induction text generalizing i with
  | nil =>
    rw [List.flatMap_nil, List.drop_nil, List.flatMap_cons, ha] at h
    exact absurd h.length_le (by simp)
  | cons c text ih =>
    have htext : (c :: text).flatMap String.utf8EncodeChar =
        String.utf8EncodeChar c ++ text.flatMap String.utf8EncodeChar := List.flatMap_cons
    rw [htext] at h
    by_cases hzero : i = 0
    · subst hzero
      refine ⟨0, rfl, prefix_of_encode hascii ?_⟩
      rw [List.drop_zero, htext]
      exact h
    · by_cases hin : i < (String.utf8EncodeChar c).length
      · -- Only a longer character has a byte there.
        exfalso
        rw [List.drop_append_of_le_length (Nat.le_of_lt hin), List.flatMap_cons, ha,
          List.singleton_append, List.drop_eq_getElem_cons hin, List.cons_append,
          List.cons_prefix_cons] at h
        rcases encodeChar_cases c with ⟨_, hone⟩ | ⟨_, hlong⟩
        · rw [hone, List.length_singleton] at hin
          omega
        · apply ne_of_mem_encodeChar hascii List.mem_cons_self hlong
          rw [h.1]
          exact List.getElem_mem hin
      · obtain ⟨count, rfl⟩ := Nat.exists_eq_add_of_le (Nat.not_lt.1 hin)
        rw [← List.drop_drop, List.drop_left] at h
        obtain ⟨k, rfl, hmark⟩ := ih h
        refine ⟨k + 1, ?_, hmark⟩
        rw [List.take_succ_cons, List.flatMap_cons, List.length_append]

end Marks

end FramedChannel.Utf8
