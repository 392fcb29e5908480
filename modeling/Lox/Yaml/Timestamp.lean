/-
Points in time as they are written in settings.

A date has a year of four digits, a month and a day. A time of day may follow it. After a letter T
it ends with the distance of its zone; after spaces it has none.
-/
import Lox.Text.Bytes

namespace Lox.Yaml

namespace Timestamp

-- ==== The calendar

/-- Does February have a day more in this year? -/
def isLeap (year : Nat) : Bool := year % 4 = 0 && (year % 100 ≠ 0 || year % 400 = 0)

/-- How many days a month has. -/
def daysIn (year month : Nat) : Nat :=
  if month = 2 then if isLeap year then 29 else 28
  else if month ∈ [4, 6, 9, 11] then 30
  else 31

-- ==== Parts of a text

/-- The number of one or two digits at the front of a text, and the text after it. -/
def short? : Bytes → Option (Nat × Bytes)
  | a :: b :: rest =>
    if !Bytes.isDigit a then none
    else if Bytes.isDigit b then some (Bytes.digitsToNat [a, b], rest)
    else some (Bytes.digitsToNat [a], b :: rest)
  | [a] => if Bytes.isDigit a then some (Bytes.digitsToNat [a], []) else none
  | [] => none

/-- The text after a date that is in the calendar. -/
def afterDate? (text : Bytes) : Option Bytes := do
  let digits := text.takeWhile Bytes.isDigit
  guard (digits.length = 4)
  let year := Bytes.digitsToNat digits
  let (month, rest) ← short? (← Bytes.after? [45] (text.dropWhile Bytes.isDigit))
  guard (1 ≤ month ∧ month ≤ 12)
  let (day, rest) ← short? (← Bytes.after? [45] rest)
  guard (1 ≤ day ∧ day ≤ daysIn year month)
  return rest

/-- The text after a fraction of a second, if there is one. -/
def afterFraction : Bytes → Bytes
  | mark :: digit :: rest =>
    if (mark = 46 || mark = 44) && Bytes.isDigit digit then rest.dropWhile Bytes.isDigit
    else mark :: digit :: rest
  | text => text

/-- The text after a time of day. -/
def afterTime? (text : Bytes) : Option Bytes := do
  let (hour, rest) ← short? text
  guard (hour < 24)
  let (minute, rest) ← short? (← Bytes.after? [58] rest)
  guard (minute < 60)
  let (second, rest) ← short? (← Bytes.after? [58] rest)
  guard (second < 60)
  return afterFraction rest

/-- Is this the distance of a zone: a letter Z for none, or a sign, hours and minutes? -/
def isZone : Bytes → Bool
  | [90] => true
  | [sign, h₁, h₂, 58, m₁, m₂] =>
    (sign = 43 || sign = 45) && [h₁, h₂, m₁, m₂].all Bytes.isDigit &&
      Bytes.digitsToNat [h₁, h₂] ≤ 24 && Bytes.digitsToNat [m₁, m₂] ≤ 60
  | _ => false

-- ==== Points in time

/-- Does the text say what comes after a date? -/
def endsWell : Bytes → Bool
  | [] => true
  | mark :: rest =>
    if mark = 84 || mark = 116 then (afterTime? rest).any isZone
    else mark = 32 && (afterTime? (rest.dropWhile (· = 32))).any (·.isEmpty)

end Timestamp

/-- Is the text a point in time? -/
def isTimestamp (text : Bytes) : Bool := (Timestamp.afterDate? text).any Timestamp.endsWell

end Lox.Yaml
