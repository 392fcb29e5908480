/-
Decimal digits.

A natural number is written with one digit or more (`Bytes.digits_ofNat`), and these denote it
(`Bytes.digitsToNat_ofNat`): the digits are read as bytes in the same way as they are read as
characters (`Bytes.foldl_toUInt8`), and for characters that is known.

A decimal is written with zeros to fill up its places, before or after its digits. Zeros before them
change nothing (`Bytes.digitsToNat_zeros_append`), and each zero after them is a factor of ten
(`Bytes.digitsToNat_append_zeros`); both come from reading on from a number through zeros
(`Bytes.foldl_zeros`).
-/
import Mathlib.Tactic.Ring
import Lox.Proofs.Token.Lexeme

namespace Lox

namespace Bytes

/-- Zeros read on from a number. -/
theorem foldl_zeros (n k : Nat) :
    (List.replicate k 48).foldl (fun n (b : UInt8) => 10 * n + (b.toNat - 48)) n =
      n * Nat.pow 10 k := by
  induction k generalizing n with
  | zero => exact (Nat.mul_one n).symm
  | succ k ih =>
      have hzero : (48 : UInt8).toNat - 48 = 0 := rfl
      rw [List.replicate_succ, List.foldl_cons, ih, hzero, Nat.add_zero]
      show _ = n * (Nat.pow 10 k * 10)
      ring

/-- Zeros at the end multiply by powers of ten. -/
theorem digitsToNat_append_zeros (digits : Bytes) (k : Nat) :
    digitsToNat (digits ++ List.replicate k 48) = digitsToNat digits * Nat.pow 10 k := by
  unfold digitsToNat
  rw [List.foldl_append, foldl_zeros]

/-- Zeros in front change nothing. -/
theorem digitsToNat_zeros_append (k : Nat) (digits : Bytes) :
    digitsToNat (List.replicate k 48 ++ digits) = digitsToNat digits := by
  unfold digitsToNat
  rw [List.foldl_append, foldl_zeros, Nat.zero_mul]

/-- The numbers of the characters that are digits. -/
theorem digit_range {c : Char} (h : c.isDigit = true) : 48 ≤ c.toNat ∧ c.toNat ≤ 57 := by
  rw [Char.isDigit, Bool.and_eq_true, decide_eq_true_eq, decide_eq_true_eq] at h
  exact h

/-- A digit has the same number as a character and as a byte. -/
theorem toNat_toUInt8 {c : Char} (h : c.isDigit = true) : c.toUInt8.toNat = c.toNat :=
  UInt8.toNat_ofNat_of_lt' (Nat.lt_of_le_of_lt (digit_range h).2 (by decide))

/-- A number is written with digits only, and with one at least. -/
theorem digits_ofNat (n : Nat) : Digits (ofNat n) where
  some := by simp [ofNat]
  digit := by
    intro b hb
    obtain ⟨c, hc, rfl⟩ := List.mem_map.mp hb
    have hdigit := Nat.isDigit_of_mem_toDigits (by decide) (by decide) hc
    rw [Digit, UInt8.le_iff_toNat_le, UInt8.le_iff_toNat_le, toNat_toUInt8 hdigit]
    exact digit_range hdigit

/-- Digits are read the same as bytes and as characters. -/
theorem foldl_toUInt8 {cs : List Char} (h : ∀ c ∈ cs, c.isDigit = true) (start : Nat) :
    (cs.map Char.toUInt8).foldl (fun n b => 10 * n + (b.toNat - 48)) start =
      Nat.ofDigitChars 10 cs start := by
  induction cs generalizing start with
  | nil => exact Nat.ofDigitChars_nil.symm
  | cons c cs ih =>
      obtain ⟨hc, hcs⟩ := List.forall_mem_cons.mp h
      rw [List.map_cons, List.foldl_cons, ih hcs, toNat_toUInt8 hc, Nat.ofDigitChars_cons]
      rfl

/-- The digits of a number denote it. -/
theorem digitsToNat_ofNat (n : Nat) : digitsToNat (ofNat n) = n := by
  have hdigits : ∀ c ∈ Nat.toDigits 10 n, c.isDigit = true :=
    fun c hc => Nat.isDigit_of_mem_toDigits (by decide) (by decide) hc
  exact (foldl_toUInt8 hdigits 0).trans Nat.ofDigitChars_ten_toDigits

end Bytes

/-- Digits with more digits after them. -/
theorem Digits.append {a b : Bytes} (ha : Digits a) (hb : ∀ c ∈ b, Digit c) : Digits (a ++ b) where
  some := by simp [ha.some]
  digit := List.forall_mem_append.mpr ⟨ha.digit, hb⟩

/-- Zeros are digits. -/
theorem digit_zeros (k : Nat) : ∀ c ∈ List.replicate k 48, Digit c := by
  intro c hc
  rw [List.eq_of_mem_replicate hc, ← isDigit_iff]
  rfl

end Lox
