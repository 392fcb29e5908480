/-
The bits of a finite double.

A double is its sign bit, its exponent field and its fraction field, and numbers are computed with
on what these fields say. To say that a number is read back bit for bit, it has to be known that the
bits are not lost on the way.

# Fields

The fields are cut out of the bits by division (`toNat_unpackExponent`, `toNat_unpackMantissa`), and
putting fields together adds them up again (`toNat_packComponents`). A double is finite if its
exponent field is not all ones (`IsFinite`), and negative if its sign bit is set (`IsNegative`).

# Taking apart and putting together

Taking the fields apart and putting them together again only changes the bits of what is not a
number, so a finite double keeps the bits that it is given (`toBits_ofBits`). Negation turns the
sign and leaves the other fields as they are (`neg_unpack`), so the negation of a finite double has
the same bits with the other sign (`toBits_neg`). The sign of zero is kept as well: minus nought and
nought have different bits.
-/
import Mathlib
import Lox.Number.Binary

namespace Lox.Number

open Float.Model Float.Model.UnpackedFloat

-- ==== Fields

/-- The exponent field is not all ones: the double is no infinity and not a number. -/
def IsFinite (bits : UInt64) : Prop :=
  bits.toNat / 2 ^ 52 % 2 ^ 11 ≠ 2047

instance (bits : UInt64) : Decidable (IsFinite bits) := inferInstanceAs (Decidable (_ ≠ _))

/-- The sign bit is set. -/
def IsNegative (bits : UInt64) : Prop :=
  2 ^ 63 ≤ bits.toNat

instance (bits : UInt64) : Decidable (IsNegative bits) := inferInstanceAs (Decidable (_ ≤ _))

variable {b : BitVec 64} {bits : UInt64}

/-- The exponent field: the eleven bits above the fraction. -/
theorem toNat_unpackExponent (b : BitVec 64) :
    (@unpackExponent .binary64 b).toNat = b.toNat / 2 ^ 52 % 2 ^ 11 := by
  rw [unpackExponent_def, BitVec.extractLsb'_toNat, Nat.shiftRight_eq_div_pow]

/-- The fraction field: the lowest 52 bits. -/
theorem toNat_unpackMantissa (b : BitVec 64) :
    (@unpackMantissa .binary64 b).toNat = b.toNat % 2 ^ 52 := by
  rw [unpackMantissa_def, BitVec.extractLsb'_toNat, Nat.shiftRight_zero]

/-- The number of the bits that the three fields are put together to. -/
theorem toNat_packComponents (s : Sign) (e : BitVec 11) (m : BitVec 52) :
    (packComponents .binary64 s e m).toNat =
      s.toBitVec.toNat * 2 ^ 63 + e.toNat * 2 ^ 52 + m.toNat := by
  have hinner : (s.toBitVec ++ e).toNat = s.toBitVec.toNat * 2 ^ 11 + e.toNat := by
    rw [BitVec.toNat_append, ← Nat.shiftLeft_add_eq_or_of_lt e.isLt, Nat.shiftLeft_eq]
  have houter : (packComponents .binary64 s e m).toNat =
      (s.toBitVec ++ e).toNat * 2 ^ 52 + m.toNat := by
    unfold packComponents
    rw [BitVec.toNat_append, ← Nat.shiftLeft_add_eq_or_of_lt m.isLt, Nat.shiftLeft_eq]
  rw [houter, hinner]
  ring

/-- The exponent field of a finite double is not all ones. -/
theorem unpackExponent_ne (h : IsFinite bits) :
    @unpackExponent .binary64 bits.toBitVec ≠ -1#11 := by
  intro hones
  have hfield := toNat_unpackExponent bits.toBitVec
  rw [hones] at hfield
  exact h hfield.symm

-- ==== Putting the fields together again

/-- Bits whose exponent field is not all ones are found again. -/
theorem pack_unpack_of_ne (h : @unpackExponent .binary64 b ≠ -1#11) :
    pack .binary64 (unpack .binary64 b) = b := by
  have hnumber : ¬@isNaNBits .binary64 b = true := fun hnan => h (of_decide_eq_true hnan).1
  rw [@pack_unpack .binary64 b (by decide), if_neg hnumber]

/-- Negation turns the sign and nothing else. -/
theorem neg_unpack (h : @unpackExponent .binary64 b ≠ -1#11) :
    (unpack .binary64 b).neg = unpack .binary64 (packComponents .binary64
      (-.ofBitVec (@unpackSign .binary64 b)) (@unpackExponent .binary64 b)
      (@unpackMantissa .binary64 b)) := by
  unfold UnpackedFloat.unpack
  dsimp only
  simp only [unpackSign_packComponents, unpackExponent_packComponents,
    unpackMantissa_packComponents, Sign.ofBitVec_toBitVec]
  rw [if_neg h, if_neg h]
  split
  · split <;> rfl
  · rfl

/-- A finite double keeps the bits that it is given. -/
theorem toBits_ofBits (h : IsFinite bits) : (Float.ofBits bits).toBits = bits :=
  UInt64.toBitVec_inj.mp (pack_unpack_of_ne (unpackExponent_ne h))

/-- The negation of a finite double without a sign has the same bits, and the sign. -/
theorem toBits_neg {x : Float} (h : IsFinite x.toBits) (hpositive : ¬IsNegative x.toBits) :
    (-x).toBits.toNat = 2 ^ 63 + x.toBits.toNat := by
  have he := unpackExponent_ne h
  have hlow : x.toBits.toBitVec.toNat < 2 ^ 63 := Nat.lt_of_not_le hpositive
  have hplus : @unpackSign .binary64 x.toBits.toBitVec = 0#1 := by
    apply BitVec.eq_of_toNat_eq
    rw [unpackSign_def, BitVec.extractLsb'_toNat, Nat.shiftRight_eq_div_pow]
    show x.toBits.toBitVec.toNat / 2 ^ 63 % 2 ^ 1 = 0
    rw [Nat.div_eq_of_lt hlow]
  show (pack .binary64 (unpack .binary64 x.toBits.toBitVec).neg).toNat =
    2 ^ 63 + x.toBits.toBitVec.toNat
  rw [neg_unpack he, pack_unpack_of_ne (by rwa [unpackExponent_packComponents]), hplus,
    toNat_packComponents, toNat_unpackExponent, toNat_unpackMantissa]
  show 1 * 2 ^ 63 + _ + _ = _
  omega

end Lox.Number
