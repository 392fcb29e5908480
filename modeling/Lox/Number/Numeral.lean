/-
Numerals as they are written in settings, and what is left of them as integers.

A numeral has digits, a point and an exponent, of which it needs only digits on one side of the
point. It stands for the double nearest to it.
-/
import Lox.Number.Binary
import Lox.Number.Integer

namespace Lox.Number

/-- A number as it is written: the digits before and after the point, and the exponent. -/
structure Numeral where
  negative : Bool
  whole : Bytes
  fraction : Bytes
  exponent : Int

namespace Numeral

/-- The exponent at the end of a number: none if it is left out, nothing if there is something
else. -/
def readExponent? : Bytes → Option Int
  | [] => some 0
  | e :: rest =>
    let (negative, digits) := splitSign rest
    if (e = 101 || e = 69) && !digits.isEmpty && digits.all Bytes.isDigit then
      let n := Bytes.digitsToNat digits
      some (if negative then -n else n)
    else none

/-- The numeral that a text denotes. -/
def read? (text : Bytes) : Option Numeral :=
  let (negative, text) := splitSign text
  let whole := text.takeWhile Bytes.isDigit
  let rest := text.dropWhile Bytes.isDigit
  let (point, rest) := match rest with
    | 46 :: rest => (true, rest)
    | rest => (false, rest)
  let fraction := if point then rest.takeWhile Bytes.isDigit else []
  let rest := if point then rest.dropWhile Bytes.isDigit else rest
  if whole.isEmpty && fraction.isEmpty then none
  else (readExponent? rest).map fun exponent => ⟨negative, whole, fraction, exponent⟩

/-- The digits without the point. -/
def digits (d : Numeral) : Nat := Bytes.digitsToNat (d.whole ++ d.fraction)

/-- The power of ten that the digits are multiplied by. -/
def scale (d : Numeral) : Int := d.exponent - d.fraction.length

/-- More places than this, on either side, no double has. -/
def farthest : Int := 1200

/-- The bits of the double nearest to the numeral without its sign. -/
def magnitudeBits (d : Numeral) : Nat :=
  let n := d.digits
  let places : Int := (Nat.toDigits 10 n).length + d.scale
  if n = 0 || places < -farthest then 0
  else if farthest < places then infinityBits
  else if 0 ≤ d.scale then nearest (n * Nat.pow 10 d.scale.toNat) 1
  else nearest n (Nat.pow 10 (-d.scale).toNat)

/-- Is the numeral too large for a double? -/
def overflows (d : Numeral) : Bool := d.magnitudeBits = infinityBits

/-- The whole part of the nearest double, if it is finite. -/
def truncated (d : Numeral) : Int :=
  let (mantissa, shift) := split d.magnitudeBits
  let n : Nat := mantissa * Nat.pow 2 shift / Nat.pow 2 1074
  if d.negative then -n else n

end Numeral

end Lox.Number
