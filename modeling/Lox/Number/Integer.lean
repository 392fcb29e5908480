/-
Integers as they are written in options and settings.

An integer has an optional sign, and a base that its first characters show: `0x`, `0o`, `0b`, or a
zero for octal. Single underscores may stand between digits and after the base. Digits are read
from the left, and the first one that makes the number too large ends the reading.
-/
import Lox.Text.Bytes

namespace Lox.Number

/-- Why a text is not an integer. -/
inductive IntegerFault where
  | malformed
  | tooLarge
deriving DecidableEq, Repr

/-- The value of a digit, letters counting from ten. -/
def digitValue? (b : UInt8) : Option Nat :=
  if Bytes.isDigit b then some (b.toNat - 48)
  else if 97 ≤ b && b ≤ 122 then some (b.toNat - 87)
  else if 65 ≤ b && b ≤ 90 then some (b.toNat - 55)
  else none

/-- The base that a text shows, and the digits after it. -/
def splitBase : Bytes → Nat × Bytes
  | 48 :: mark :: digit :: rest =>
    if mark = 98 || mark = 66 then (2, digit :: rest)
    else if mark = 111 || mark = 79 then (8, digit :: rest)
    else if mark = 120 || mark = 88 then (16, digit :: rest)
    else (8, mark :: digit :: rest)
  | 48 :: rest => (8, rest)
  | text => (10, text)

/-- Read digits after a number that was read, up to a limit. Underscores are passed over. -/
def readDigits (base limit : Nat) : Nat → Bytes → Except IntegerFault Nat
  | n, [] => .ok n
  | n, b :: rest =>
    if b = 95 then readDigits base limit n rest
    else match digitValue? b with
      | none => .error .malformed
      | some d =>
        if base ≤ d then .error .malformed
        else if limit < n * base + d then .error .tooLarge
        else readDigits base limit (n * base + d) rest

/-- Does each underscore follow a digit, and a digit each underscore? -/
def underscoresFit : Bool → Bytes → Bool
  | _, [] => true
  | _, [95] => false
  | afterDigit, 95 :: rest => afterDigit && underscoresFit false rest
  | _, _ :: rest => underscoresFit true rest

/-- Read a number without a sign, of at most 64 bits. -/
def readNatural (text : Bytes) : Except IntegerFault Nat :=
  if text.isEmpty then .error .malformed
  else
    let (base, digits) := splitBase text
    match readDigits base (Nat.pow 2 64 - 1) 0 digits with
    | .error fault => .error fault
    | .ok n => if underscoresFit (base != 10) digits then .ok n else .error .malformed

/-- A sign at the front and the text after it. -/
def splitSign : Bytes → Bool × Bytes
  | 45 :: rest => (true, rest)
  | 43 :: rest => (false, rest)
  | text => (false, text)

/-- Put the sign before a number, for an integer of 64 bits. -/
def withSign (negative : Bool) (n : Nat) : Except IntegerFault Int :=
  if negative then if n ≤ Nat.pow 2 63 then .ok (-n) else .error .tooLarge
  else if n < Nat.pow 2 63 then .ok n else .error .tooLarge

/-- Read an integer of 64 bits. -/
def readInteger (text : Bytes) : Except IntegerFault Int :=
  let (negative, text) := splitSign text
  match readNatural text with
  | .error fault => .error fault
  | .ok n => withSign negative n

/-- Read an integer of 64 bits whose digits are of this base. -/
def readInBase (base : Nat) (text : Bytes) : Except IntegerFault Int :=
  let (negative, digits) := splitSign text
  if digits.isEmpty then .error .malformed
  else match readDigits base (Nat.pow 2 64 - 1) 0 digits with
    | .error fault => .error fault
    | .ok n => withSign negative n

end Lox.Number
