/-
Text in UTF-16: characters as units of 16 bits, one or two for each.
-/
import Lox.Text.Bytes

namespace Lox.Utf16

/-- The order of the two bytes of a unit. -/
inductive ByteOrder where
  | lowFirst
  | highFirst
deriving DecidableEq, Repr

/-- The unit that two bytes make. -/
def unit (order : ByteOrder) (a b : UInt8) : Nat :=
  match order with
  | .lowFirst => b.toNat * 256 + a.toNat
  | .highFirst => a.toNat * 256 + b.toNat

/-- The units of a text, unless its last one is cut off. -/
def units? (order : ByteOrder) : Bytes → Option (List Nat)
  | [] => some []
  | [_] => none
  | a :: b :: rest => (units? order rest).map (unit order a b :: ·)

/-- Is this the first unit of two? -/
def isHigh (u : Nat) : Bool := 0xD800 ≤ u && u < 0xDC00

/-- Is this the second unit of two? -/
def isLow (u : Nat) : Bool := 0xDC00 ≤ u && u < 0xE000

/-- The characters that units stand for, unless one of two units is without the other. -/
def ofUnits? : List Nat → Option (List Char)
  | [] => some []
  | [u] => if isHigh u || isLow u then none else some [Char.ofNat u]
  | u :: v :: rest =>
    if isLow u then none
    else if isHigh u then
      if isLow v then
        (ofUnits? rest).map (Char.ofNat (0x10000 + (u - 0xD800) * 0x400 + (v - 0xDC00)) :: ·)
      else none
    else (ofUnits? (v :: rest)).map (Char.ofNat u :: ·)

/-- The characters of a text, unless it is malformed. -/
def decode? (order : ByteOrder) (text : Bytes) : Option (List Char) :=
  (units? order text).bind ofUnits?

end Lox.Utf16
