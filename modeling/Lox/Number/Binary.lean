/-
Doubles as exact numbers.

A finite double other than zero is `mantissa · 2 ^ (shift - 1074)` for natural numbers
`mantissa < 2 ^ 53` and `shift`, where a mantissa below `2 ^ 52` only goes with shift zero. In
this form the bits of a positive double are simply `shift · 2 ^ 52 + mantissa`, so the order of
the bits is the order of the numbers. `nearest` turns a fraction into the bits of the double
nearest to it; a half goes to the even mantissa, and what is too large becomes infinity.
-/

namespace Lox.Number

/-- The bits of positive infinity, as a number. -/
def infinityBits : Nat := 2047 * Nat.pow 2 52

/-- What a double is: not a number, an infinity, or exactly
`± mantissa · 2 ^ (shift - 1074)`. -/
inductive Shape where
  | nan
  | infinite (negative : Bool)
  | finite (negative : Bool) (mantissa shift : Nat)
deriving DecidableEq, Repr

/-- The mantissa and shift of a non-negative finite double with these bits. -/
def split (bits : Nat) : Nat × Nat :=
  let field := bits / Nat.pow 2 52
  if field = 0 then (bits, 0) else (bits % Nat.pow 2 52 + Nat.pow 2 52, field - 1)

/-- Read a double off its bits. -/
def shape (bits : UInt64) : Shape :=
  let magnitude := bits.toNat % Nat.pow 2 63
  let negative := decide (Nat.pow 2 63 ≤ bits.toNat)
  if infinityBits < magnitude then .nan
  else if magnitude = infinityBits then .infinite negative
  else
    let (mantissa, shift) := split magnitude
    .finite negative mantissa shift

/-- `num / den` rounded to a natural number, a half going to the even neighbour. -/
def roundDiv (num den : Nat) : Nat :=
  let q := num / den
  let r := num % den
  if 2 * r < den then q
  else if den < 2 * r then q + 1
  else q + q % 2

/-- The bits of the double nearest to `num / den`. -/
def nearest (num den : Nat) : Nat :=
  let scaled := num * Nat.pow 2 1074
  let whole := scaled / den
  let shift := if whole < Nat.pow 2 53 then 0 else whole.log2 - 52
  let mantissa := roundDiv scaled (den * Nat.pow 2 shift)
  min (shift * Nat.pow 2 52 + mantissa) infinityBits

/-- The double nearest to `digits / 10 ^ places`. -/
def ofDecimal (digits places : Nat) : Float :=
  Float.ofBits (UInt64.ofNat (nearest digits (Nat.pow 10 places)))

end Lox.Number
