/-
The written form of a number.

A number that a program prints is written positionally, with all its places and never with an
exponent. A number shown beside a token is written positionally only while its exponent is
between -4 and 5. Both use the digits of the shortest decimal that reads back.
-/
import Lox.Text.Bytes
import Lox.Number.Shortest

namespace Lox.Number

/-- A minus sign, or nothing. -/
def sign (negative : Bool) : Bytes :=
  if negative then utf8 "-" else []

namespace Decimal

/-- All places written out: `1500`, `0.015`, `1.5`. -/
def positional (d : Decimal) : Bytes :=
  let digits := Bytes.ofNat d.digits
  match d.exponent with
  | .ofNat zeros => if d.digits = 0 then digits else digits ++ List.replicate zeros 48
  | .negSucc k =>
    let places := k + 1
    if places < digits.length then
      digits.take (digits.length - places) ++ utf8 "." ++ digits.drop (digits.length - places)
    else
      utf8 "0." ++ List.replicate (places - digits.length) 48 ++ digits

/-- The exponent when one digit stands before the point. -/
def scientificExponent (d : Decimal) : Int :=
  d.exponent + ((Bytes.ofNat d.digits).length - 1 : Nat)

/-- One digit before the point and an exponent of at least two digits: `1.5e+06`. -/
def scientific (d : Decimal) : Bytes :=
  let digits := Bytes.ofNat d.digits
  let fraction := digits.drop 1
  let exponent := d.scientificExponent
  let magnitude := Bytes.ofNat exponent.natAbs
  digits.take 1 ++ (if fraction.isEmpty then [] else utf8 "." ++ fraction) ++ utf8 "e" ++
    utf8 (if exponent < 0 then "-" else "+") ++
    List.replicate (2 - magnitude.length) 48 ++ magnitude

/-- The form with an exponent, for numbers from a million up and below a ten-thousandth. -/
def general (d : Decimal) : Bytes :=
  if d.digits ≠ 0 ∧ (d.scientificExponent < -4 ∨ 6 ≤ d.scientificExponent) then d.scientific
  else d.positional

end Decimal

/-- The text of a number as a program prints it. -/
def print (x : Float) : Bytes :=
  match shape x.toBits with
  | .nan => utf8 "NaN"
  | .infinite negative => sign negative ++ utf8 "Infinity"
  | .finite negative mantissa shift => sign negative ++ (shortest mantissa shift).positional

/-- The text of a number as a token shows it. -/
def display (x : Float) : Bytes :=
  match shape x.toBits with
  | .nan => utf8 "NaN"
  | .infinite negative => utf8 (if negative then "-Inf" else "+Inf")
  | .finite negative mantissa shift => sign negative ++ (shortest mantissa shift).general

end Lox.Number
