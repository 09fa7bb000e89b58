import HubScope.Lib.Bytes
import Mathlib.Data.Nat.Digits.Lemmas

/-!
# Numerals in bytes

Decimal numerals of 64-bit integers, and bytes in hexadecimal. What was written is read back. The
readers are more lenient than the writers: a numeral may carry a plus sign or leading zeros, and
hexadecimal digits may be upper case.

## Main definitions

* `Numerals.formatInt`, `Numerals.parseInt` — 64-bit integers in decimal
* `Numerals.encodeHex`, `Numerals.decodeHex` — bytes in hexadecimal

## Main results

* `Numerals.parseInt_formatInt`, `Numerals.formatInt_injective` — an integer is read back
* `Numerals.decodeHex_encodeHex` — bytes are read back
-/

set_option autoImplicit false

namespace Numerals

/-- The byte of a decimal digit. -/
def digit (d : ℕ) : Byte := Fin.ofNat 256 (48 + d)

/-- The value of a decimal digit. -/
def digitVal (b : Byte) : Option ℕ := if 48 ≤ b.val ∧ b.val ≤ 57 then some (b.val - 48) else none

/-- The decimal numeral of a natural number. -/
def decimal (n : ℕ) : Bytes := if n = 0 then [digit 0] else (Nat.digits 10 n).reverse.map digit

/-- The number a row of digits stands for, behind what was read so far. -/
def readDigits : ℕ → Bytes → Option ℕ
  | n, [] => some n
  | n, b :: s => (digitVal b).bind fun d => readDigits (10 * n + d) s

/-- The decimal numeral of an integer. -/
def formatInt (z : Int64) : Bytes :=
  if z.toInt < 0 then 45 :: decimal z.toInt.natAbs else decimal z.toInt.natAbs

/-- The sign of a numeral, and its digits. -/
def splitSign : Bytes → Bool × Bytes
  | [] => (false, [])
  | b :: s => if b = 43 then (false, s) else if b = 45 then (true, s) else (false, b :: s)

/-- The integer of 64 bits that a numeral stands for. -/
def parseInt (s : Bytes) : Option Int64 :=
  let (neg, digits) := splitSign s
  if digits = [] then none
  else
    match readDigits 0 digits with
    | none => none
    | some n =>
      if neg then if n ≤ 2 ^ 63 then some (Int64.ofInt (-n)) else none
      else if n < 2 ^ 63 then some (Int64.ofInt n) else none

/-- The byte of a hexadecimal digit. -/
def hexDigit (d : ℕ) : Byte := Fin.ofNat 256 (if d < 10 then 48 + d else 87 + d)

/-- Bytes in hexadecimal. -/
def encodeHex (s : Bytes) : Bytes :=
  s.flatMap fun b => [hexDigit (b.val / 16), hexDigit (b.val % 16)]

/-- The bytes that a text in hexadecimal stands for. -/
def decodeHex : Bytes → Option Bytes
  | [] => some []
  | [_] => none
  | a :: b :: s =>
    match Bytes.hexVal a.val, Bytes.hexVal b.val with
    | some x, some y => (decodeHex s).map fun t => Fin.ofNat 256 (16 * x + y) :: t
    | _, _ => none

/-! ### Decimal numerals -/

variable {n d : ℕ} {b : Byte} {s : Bytes} {z : Int64}

theorem digitVal_digit (hd : d < 10) : digitVal (digit d) = some d := by
  have hval : (digit d).val = 48 + d := Nat.mod_eq_of_lt (by omega)
  rw [digitVal, hval, if_pos (by omega), Nat.add_sub_cancel_left]

theorem readDigits_append (n : ℕ) (s t : Bytes) :
    readDigits n (s ++ t) = (readDigits n s).bind fun m => readDigits m t := by
  induction s generalizing n with
  | nil => rfl
  | cons b s ih =>
    rw [List.cons_append, readDigits, readDigits]
    cases digitVal b with
    | none => rfl
    | some d => exact ih _

/-- Digits are read back, whatever stands in front of them. -/
theorem readDigits_reverse_map (ds : List ℕ) (hds : ∀ d ∈ ds, d < 10) :
    readDigits 0 (ds.reverse.map digit) = some (Nat.ofDigits 10 ds) := by
  induction ds with
  | nil => rfl
  | cons d ds ih =>
    rw [List.reverse_cons, List.map_append, readDigits_append,
      ih fun d hd => hds d (List.mem_cons_of_mem _ hd), Nat.ofDigits_cons]
    simp only [Option.bind_some, List.map_cons, List.map_nil, readDigits,
      digitVal_digit (hds d List.mem_cons_self)]
    rw [Nat.add_comm]

theorem readDigits_decimal (n : ℕ) : readDigits 0 (decimal n) = some n := by
  rw [decimal]
  split_ifs with hn
  · rw [hn]
    rfl
  · rw [readDigits_reverse_map _ fun d hd => Nat.digits_lt_base (by decide) hd,
      Nat.ofDigits_digits]

theorem mem_decimal (hb : b ∈ decimal n) : 48 ≤ b.val ∧ b.val ≤ 57 := by
  have hdigit : ∀ d < 10, 48 ≤ (digit d).val ∧ (digit d).val ≤ 57 := by decide
  rw [decimal] at hb
  split_ifs at hb
  · rw [List.mem_singleton.mp hb]
    exact hdigit 0 (by decide)
  · obtain ⟨d, hd, rfl⟩ := List.mem_map.mp hb
    exact hdigit d (Nat.digits_lt_base (by decide) (List.mem_reverse.mp hd))

theorem decimal_ne_nil (n : ℕ) : decimal n ≠ [] := by
  rw [decimal]
  split_ifs with hn
  · exact List.cons_ne_nil _ _
  · simpa using Nat.digits_ne_nil_iff_ne_zero.mpr hn

theorem splitSign_decimal (n : ℕ) : splitSign (decimal n) = (false, decimal n) := by
  cases h : decimal n with
  | nil => rfl
  | cons b s =>
    have hb : b ∈ decimal n := h ▸ List.mem_cons_self
    have hdigit := mem_decimal hb
    have hplus : b ≠ 43 := by
      rintro rfl
      exact absurd hdigit (by decide)
    have hminus : b ≠ 45 := by
      rintro rfl
      exact absurd hdigit (by decide)
    rw [splitSign, if_neg hplus, if_neg hminus]

/-- **Integers are read back.** -/
theorem parseInt_formatInt (z : Int64) : parseInt (formatInt z) = some z := by
  have hmin := z.le_toInt
  have hmax := z.toInt_lt
  rw [formatInt]
  split_ifs with hneg
  · have hsign : splitSign (45 :: decimal z.toInt.natAbs) = (true, decimal z.toInt.natAbs) := rfl
    have hvalue : -(z.toInt.natAbs : ℤ) = z.toInt := by omega
    simp only [parseInt, hsign, if_neg (decimal_ne_nil _), readDigits_decimal, if_true]
    rw [if_pos (by omega), hvalue, Int64.ofInt_toInt]
  · have hvalue : (z.toInt.natAbs : ℤ) = z.toInt := by omega
    simp only [parseInt, splitSign_decimal, if_neg (decimal_ne_nil _), readDigits_decimal,
      Bool.false_eq_true, if_false]
    rw [if_pos (by omega), hvalue, Int64.ofInt_toInt]

theorem formatInt_injective : Function.Injective formatInt := by
  intro z z' h
  have hparse := parseInt_formatInt z
  rw [h, parseInt_formatInt] at hparse
  exact (Option.some.inj hparse).symm

theorem formatInt_ne_nil (z : Int64) : formatInt z ≠ [] := by
  rw [formatInt]
  split_ifs
  · exact List.cons_ne_nil _ _
  · exact decimal_ne_nil _

/-- A numeral holds no dot. -/
theorem dot_notMem_formatInt (z : Int64) : (46 : Byte) ∉ formatInt z := by
  have hdecimal : ∀ n, (46 : Byte) ∉ decimal n := fun n h => absurd (mem_decimal h) (by decide)
  rw [formatInt]
  split_ifs
  · rw [List.mem_cons, not_or]
    exact ⟨by decide, hdecimal _⟩
  · exact hdecimal _

/-! ### Hexadecimal -/

theorem hexVal_hexDigit : ∀ d < 16, Bytes.hexVal (hexDigit d).val = some d := by decide

/-- **Bytes are read back.** -/
theorem decodeHex_encodeHex (s : Bytes) : decodeHex (encodeHex s) = some s := by
  induction s with
  | nil => rfl
  | cons b s ih =>
    have hhigh : b.val / 16 < 16 := by omega
    have hlow : b.val % 16 < 16 := Nat.mod_lt _ (by decide)
    have hbyte : Fin.ofNat 256 (16 * (b.val / 16) + b.val % 16) = b := by
      rw [Nat.div_add_mod]
      exact Fin.ofNat_val_eq_self b
    rw [encodeHex, List.flatMap_cons]
    change decodeHex (hexDigit (b.val / 16) :: hexDigit (b.val % 16) :: encodeHex s) = some (b :: s)
    simp only [decodeHex, hexVal_hexDigit _ hhigh, hexVal_hexDigit _ hlow, ih, hbyte,
      Option.map_some]

/-- A text in hexadecimal holds no dot. -/
theorem dot_notMem_of_decodeHex {t : Bytes} (h : decodeHex s = some t) : (46 : Byte) ∉ s := by
  have hdigit : Bytes.hexVal (46 : Byte).val = none := by decide
  induction s using decodeHex.induct generalizing t with
  | case1 => exact List.not_mem_nil
  | case2 => nomatch h
  | case3 a b s x y hb ha ih =>
    simp only [decodeHex, ha, hb] at h
    obtain ⟨t', ht', -⟩ := Option.map_eq_some_iff.mp h
    simp only [List.mem_cons, not_or]
    refine ⟨?_, ?_, ih ht'⟩
    · rintro rfl
      nomatch hdigit.symm.trans ha
    · rintro rfl
      nomatch hdigit.symm.trans hb
  | case4 a b s hnone =>
    rw [decodeHex] at h
    split at h
    · rename_i x y ha hb
      exact (hnone x y ha hb).elim
    · nomatch h

theorem encodeHex_ne_nil (hs : s ≠ []) : encodeHex s ≠ [] := by
  obtain ⟨b, s, rfl⟩ := List.exists_cons_of_ne_nil hs
  exact List.cons_ne_nil _ _

end Numerals
