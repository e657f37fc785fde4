/-
Byte strings and decimal text.

A `std::string` of the source, or a Python 2 `str`, is a list of bytes.
The decimal layer is the part of the C library the framing and the XML
readers go through: a number printed by a stream or a `%d`, and
`strtoul` in base 10 with its blanks, sign, saturation and wrap. Both
directions rest on Mathlib's `Nat.digits`, least significant digit
first, so the text is a reversal away.
-/
import Mathlib.Data.List.TakeWhile
import Mathlib.Data.Nat.Digits.Lemmas

namespace Sandesh.Lib

/-- A string of bytes. -/
abbrev Bytes : Type := List UInt8

/-- The bytes of an ASCII literal. -/
def lit (s : String) : Bytes := s.toList.map Char.toUInt8

/-- The nul byte, where `c_str()` ends. -/
def nul : UInt8 := 0

/-- A check of every byte of a string goes over the string, not over the
256 bytes. -/
instance (priority := 2000) decidableForallMem (s : Bytes)
    (p : UInt8 → Prop) [DecidablePred p] : Decidable (∀ c, c ∈ s → p c) :=
  List.decidableBAll p s

-- ============================================================== digits

/-- `isdigit`. -/
def isDigit (b : UInt8) : Bool := decide (48 ≤ b.toNat ∧ b.toNat ≤ 57)

/-- The digit byte of a number below ten. -/
def digit (d : Nat) : UInt8 := UInt8.ofNat (48 + d)

/-- The number a digit byte stands for. -/
def digitVal (b : UInt8) : Nat := b.toNat - 48

/-- The code of a digit. -/
theorem digit_toNat {d : Nat} (hd : d < 10) : (digit d).toNat = 48 + d := by
  simp only [digit, UInt8.toNat_ofNat']
  omega

/-- Its value. -/
theorem digitVal_digit {d : Nat} (hd : d < 10) : digitVal (digit d) = d := by
  rw [digitVal, digit_toNat hd]
  omega

/-- It is one. -/
theorem isDigit_digit {d : Nat} (hd : d < 10) : isDigit (digit d) = true := by
  rw [isDigit, digit_toNat hd]
  simp only [decide_eq_true_eq]
  omega

-- ======================================================== decimal text

/-- The value of a string of decimal digits, most significant first. -/
def decVal (s : Bytes) : Nat := Nat.ofDigits 10 (s.reverse.map digitVal)

/-- The decimal text of a number. -/
def decimal (n : Nat) : Bytes :=
  if n = 0 then [digit 0] else ((Nat.digits 10 n).map digit).reverse

/-- The decimal text of a signed number. -/
def decimalInt (i : Int) : Bytes :=
  if i < 0 then 45 :: decimal i.natAbs else decimal i.natAbs

/-- The decimal text of a number, filled on the left with zeros up to
the given width (`std::setfill('0')`, `str.zfill`). -/
def zfill (width : Nat) (s : Bytes) : Bytes :=
  List.replicate (width - s.length) (digit 0) ++ s

/-- A decimal text is not empty. -/
theorem decimal_ne_nil (n : Nat) : decimal n ≠ [] := by
  unfold decimal
  split
  · simp
  next h =>
    simpa [Nat.digits_eq_nil_iff_eq_zero] using h

/-- It consists of digits. -/
theorem isDigit_of_mem_decimal {n : Nat} {b : UInt8} (hb : b ∈ decimal n) :
    isDigit b = true := by
  unfold decimal at hb
  split at hb
  · obtain rfl := List.mem_singleton.mp hb
    exact isDigit_digit (by decide)
  · rw [List.mem_reverse] at hb
    obtain ⟨d, hd, rfl⟩ := List.mem_map.mp hb
    exact isDigit_digit (Nat.digits_lt_base (by decide) hd)

/-- Its value is the number. -/
theorem decVal_decimal (n : Nat) : decVal (decimal n) = n := by
  unfold decimal
  split
  next h =>
    subst h
    decide
  · have hmap : ((Nat.digits 10 n).map digit).map digitVal
        = Nat.digits 10 n := by
      rw [List.map_map]
      refine (List.map_congr_left fun d hd => ?_).trans (List.map_id _)
      exact digitVal_digit (Nat.digits_lt_base (by decide) hd)
    rw [decVal, List.reverse_reverse, hmap, Nat.ofDigits_digits]

/-- Numbers below `10 ^ k` have at most `k` digits. -/
theorem decimal_length_le {n k : Nat} (hk : 0 < k) (h : n < 10 ^ k) :
    (decimal n).length ≤ k := by
  unfold decimal
  split
  · exact hk
  · rw [List.length_reverse, List.length_map]
    exact (Nat.digits_length_le_iff (by decide) n).mpr h

/-- A text that fits is filled up to the width. -/
theorem zfill_length {width : Nat} {s : Bytes} (h : s.length ≤ width) :
    (zfill width s).length = width := by
  simp only [zfill, List.length_append, List.length_replicate]
  omega

/-- It is filled with digits. -/
theorem isDigit_of_mem_zfill {width n : Nat} {b : UInt8}
    (hb : b ∈ zfill width (decimal n)) : isDigit b = true := by
  rcases List.mem_append.mp hb with hb | hb
  · rw [(List.mem_replicate.mp hb).2]
    exact isDigit_digit (by decide)
  · exact isDigit_of_mem_decimal hb

/-- Leading zeros do not change the value. -/
theorem decVal_zfill (width n : Nat) : decVal (zfill width (decimal n)) = n := by
  have hz : digitVal (digit 0) = 0 := by decide
  rw [decVal, zfill, List.reverse_append, List.reverse_replicate,
    List.map_append, List.map_replicate, hz, Nat.ofDigits_append,
    Nat.ofDigits_replicate_zero, Nat.mul_zero, Nat.add_zero]
  exact decVal_decimal n

-- ============================================================= strtoul

/-- `isspace` in the C locale. -/
def isSpace (b : UInt8) : Bool :=
  decide (b.toNat = 32 ∨ (9 ≤ b.toNat ∧ b.toNat ≤ 13))

/-- The optional sign in front of a number: is it negative, and what
follows. -/
def takeSign : Bytes → Bool × Bytes
  | b :: t => if b = 45 then (true, t) else if b = 43 then (false, t)
      else (false, b :: t)
  | [] => (false, [])

/-- The digits `strtoul` reads, with their sign. -/
def numeral (s : Bytes) : Bool × Bytes :=
  let (neg, t) := takeSign (s.dropWhile isSpace)
  (neg, t.takeWhile isDigit)

/-- What is left of the string where `strtoul` sets `endptr`: the whole
string when there is no number in it. -/
def strtoulEnd (s : Bytes) : Bytes :=
  let (_, t) := takeSign (s.dropWhile isSpace)
  if t.takeWhile isDigit = [] then s else t.dropWhile isDigit

/-- `strtoul(s, endptr, 10)` with a 64-bit `unsigned long`: blanks, a
sign, digits; `ULONG_MAX` when the digits overflow, and a minus sign
negates modulo 2^64. -/
def strtoul (s : Bytes) : Nat :=
  let v := decVal (numeral s).2
  if 2 ^ 64 ≤ v then 2 ^ 64 - 1
  else if (numeral s).1 then (2 ^ 64 - v) % 2 ^ 64 else v

/-- Nothing is dropped. -/
theorem dropWhile_none {p : UInt8 → Bool} {s : Bytes}
    (h : ∀ c ∈ s, p c = false) : s.dropWhile p = s := by
  cases s with
  | nil => rfl
  | cons c s =>
      rw [List.dropWhile_cons, h c List.mem_cons_self,
        if_neg Bool.false_ne_true]

/-- A digit is no space. -/
theorem isSpace_of_isDigit {c : UInt8} (h : isDigit c = true) :
    isSpace c = false := by
  simp only [isDigit, decide_eq_true_eq] at h
  simp only [isSpace, decide_eq_false_iff_not]
  omega

/-- There is no space in a decimal text. -/
theorem isSpace_of_mem_decimal {n : Nat} :
    ∀ c ∈ decimal n, isSpace c = false := fun _ hc =>
  isSpace_of_isDigit (isDigit_of_mem_decimal hc)

/-- Nor with a sign. -/
theorem isSpace_of_mem_decimalInt {i : Int} :
    ∀ c ∈ decimalInt i, isSpace c = false := by
  intro c hc
  unfold decimalInt at hc
  by_cases hi : i < 0
  · rw [if_pos hi] at hc
    rcases List.mem_cons.mp hc with rfl | hc
    · decide
    · exact isSpace_of_mem_decimal c hc
  · rw [if_neg hi] at hc
    exact isSpace_of_mem_decimal c hc

/-- A digit is no sign. -/
theorem takeSign_digits {s : Bytes} (hs : ∀ b ∈ s, isDigit b = true) :
    takeSign s = (false, s) := by
  cases s with
  | nil => rfl
  | cons c t =>
      have hc := hs c List.mem_cons_self
      have hminus : c ≠ 45 := by
        intro heq
        subst heq
        revert hc
        decide
      have hplus : c ≠ 43 := by
        intro heq
        subst heq
        revert hc
        decide
      rw [takeSign, if_neg hminus, if_neg hplus]

/-- A natural number has no sign. -/
theorem takeSign_decimal (n : Nat) :
    takeSign (decimal n) = (false, decimal n) :=
  takeSign_digits fun _ hb => isDigit_of_mem_decimal hb

/-- The sign comes off. -/
theorem takeSign_decimalInt (i : Int) :
    takeSign (decimalInt i) = (decide (i < 0), decimal i.natAbs) := by
  unfold decimalInt
  by_cases hi : i < 0
  · simp [hi, takeSign]
  · rw [if_neg hi, takeSign_decimal, decide_eq_false hi]

/-- The text of a number is all number. -/
theorem strtoulEnd_decimalInt (i : Int) : strtoulEnd (decimalInt i) = [] := by
  have hdigits : ∀ b ∈ decimal i.natAbs, isDigit b = true := fun _ hb =>
    isDigit_of_mem_decimal hb
  unfold strtoulEnd
  rw [dropWhile_none isSpace_of_mem_decimalInt, takeSign_decimalInt]
  dsimp only
  rw [List.takeWhile_eq_self_iff.mpr hdigits, if_neg (decimal_ne_nil _)]
  exact List.dropWhile_eq_nil_iff.mpr hdigits

/-- A digit is neither a blank nor a sign. -/
theorem numeral_of_digits {s : Bytes} (hs : ∀ b ∈ s, isDigit b = true) :
    numeral s = (false, s) := by
  have hspace : s.dropWhile isSpace = s :=
    dropWhile_none fun c hc => isSpace_of_isDigit (hs c hc)
  have htake : s.takeWhile isDigit = s := List.takeWhile_eq_self_iff.mpr hs
  simp only [numeral, hspace, takeSign_digits hs, htake]

/-- A string of decimal digits parses to its value. -/
theorem strtoul_digits {s : Bytes} (hs : ∀ b ∈ s, isDigit b = true)
    (hv : decVal s < 2 ^ 64) : strtoul s = decVal s := by
  rw [strtoul, numeral_of_digits hs]
  dsimp only
  rw [if_neg (by omega)]
  rfl

/-- The text of a number of at most 64 bits, with its sign, parses to the
number modulo its width. -/
theorem strtoul_decimalInt {w : Nat} (v : BitVec w) (hw : w ≤ 64) :
    BitVec.ofNat w (strtoul (decimalInt v.toInt)) = v := by
  have hv := v.isLt
  have hpow : (2 : Nat) ^ w ≤ 2 ^ 64 := Nat.pow_le_pow_right (by decide) hw
  have hdigits : ∀ n, ∀ b ∈ decimal n, isDigit b = true := fun _ _ =>
    isDigit_of_mem_decimal
  apply BitVec.eq_of_toNat_eq
  rw [BitVec.toNat_ofNat, decimalInt, BitVec.toInt_eq_toNat_cond]
  by_cases hpos : 2 * v.toNat < 2 ^ w
  · rw [if_pos hpos, if_neg (by omega), Int.natAbs_natCast,
      strtoul_digits (hdigits _) (by rw [decVal_decimal]; omega),
      decVal_decimal, Nat.mod_eq_of_lt hv]
  · -- the minus sign negates modulo 2^64, of which 2^w is a divisor
    obtain ⟨k, hk⟩ : 2 ^ w ∣ 2 ^ 64 := Nat.pow_dvd_pow 2 hw
    have habs : ((v.toNat : Int) - (2 ^ w : Nat)).natAbs
        = 2 ^ w - v.toNat := by omega
    rw [if_neg hpos, if_pos (by omega), habs]
    have htake : (decimal (2 ^ w - v.toNat)).takeWhile isDigit
        = decimal (2 ^ w - v.toNat) :=
      List.takeWhile_eq_self_iff.mpr (hdigits _)
    have hnum : numeral (45 :: decimal (2 ^ w - v.toNat))
        = (true, decimal (2 ^ w - v.toNat)) := by
      simp [numeral, takeSign, isSpace, htake]
    rw [strtoul, hnum]
    dsimp only
    rw [decVal_decimal, if_neg (by omega), if_pos rfl,
      Nat.mod_eq_of_lt (show 2 ^ 64 - (2 ^ w - v.toNat) < 2 ^ 64 by omega)]
    obtain ⟨j, rfl⟩ : ∃ j, k = j + 1 := by
      refine ⟨k - 1, ?_⟩
      cases k with
      | zero => omega
      | succ k => rfl
    have hsub : 2 ^ 64 - (2 ^ w - v.toNat) = v.toNat + 2 ^ w * j := by
      rw [hk, Nat.mul_succ]
      omega
    rw [hsub, Nat.add_mul_mod_self_left, Nat.mod_eq_of_lt hv]

end Sandesh.Lib
