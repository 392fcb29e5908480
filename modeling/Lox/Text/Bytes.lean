/-
Text as bytes.

A script is any sequence of bytes, and so is a string value made by one: neither has to be
valid UTF-8. Text is therefore a list of bytes all through this library, and a fixed wording
is brought in with `utf8`.
-/

namespace Lox

/-- A text: any sequence of bytes. -/
abbrev Bytes := List UInt8

instance Bytes.lawfulBEq : LawfulBEq Bytes := inferInstance

/-- The UTF-8 bytes of a string. -/
def utf8 (s : String) : Bytes :=
  s.toUTF8.data.toList

namespace Bytes

/-- The line feed. -/
def lineFeed : UInt8 := 10

/-- How many line feeds a text holds. -/
def lineFeeds (text : Bytes) : Nat :=
  text.count lineFeed

/-- The decimal digits of a natural number. -/
def ofNat (n : Nat) : Bytes :=
  (Nat.toDigits 10 n).map Char.toUInt8

/-- An integer in decimal, with a minus sign if it is negative. -/
def ofInt : Int → Bytes
  | .ofNat n => ofNat n
  | .negSucc n => utf8 "-" ++ ofNat (n + 1)

/-- Lower-case hexadecimal digits, padded with zeros to `width`. -/
def ofHex (width n : Nat) : Bytes :=
  let digits := (Nat.toDigits 16 n).map Char.toUInt8
  List.replicate (width - digits.length) 48 ++ digits

/-- Texts joined with `sep` between each two. -/
def join (sep : Bytes) : List Bytes → Bytes
  | [] => []
  | [t] => t
  | t :: rest => t ++ sep ++ join sep rest

/-- The pieces between occurrences of one byte; there is always at least one piece. -/
def splitOn (b : UInt8) (text : Bytes) : List Bytes :=
  text.foldr (fun c pieces =>
    if c = b then [] :: pieces
    else match pieces with
      | [] => [[c]]
      | piece :: others => (c :: piece) :: others) [[]]

/-- The text after `lead`, if it starts with `lead`. -/
def after? : Bytes → Bytes → Option Bytes
  | [], text => some text
  | _ :: _, [] => none
  | l :: lead, c :: text => if l = c then after? lead text else none

/-- Does the text start with `lead`? -/
def startsWith (lead text : Bytes) : Bool :=
  (after? lead text).isSome

/-- The byte order on texts: the first difference decides, and a shorter text comes before
its extensions. -/
def le : Bytes → Bytes → Bool
  | [], _ => true
  | _ :: _, [] => false
  | a :: s, b :: t => a < b || (a == b && le s t)

/-- An ASCII decimal digit. -/
def isDigit (b : UInt8) : Bool := 48 ≤ b && b ≤ 57

/-- An ASCII letter or the underscore. -/
def isAlpha (b : UInt8) : Bool :=
  (97 ≤ b && b ≤ 122) || (65 ≤ b && b ≤ 90) || b == 95

/-- A letter, an underscore or a digit. -/
def isWordByte (b : UInt8) : Bool := isAlpha b || isDigit b

/-- The number that a run of decimal digits denotes. -/
def digitsToNat (digits : Bytes) : Nat :=
  digits.foldl (fun n b => 10 * n + (b.toNat - 48)) 0

end Bytes

end Lox
