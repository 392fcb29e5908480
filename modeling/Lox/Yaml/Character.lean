/-
Characters of a YAML text.

A mark at the front of a text says how its characters are written; without one they are in UTF-8.
Each end of a line is made one character: a carriage return stands for one with a line feed.
-/
import Lox.Text.Utf16
import Lox.Text.Utf8

namespace Lox.Yaml

-- ==== Kinds of character

/-- A space or a tab. -/
def isBlank (c : Char) : Bool := c = ' ' || c = '\t'

/-- The end of a line. -/
def isBreak (c : Char) : Bool :=
  c = '\n' || c = '\r' || c = '\u0085' || c = '\u2028' || c = '\u2029'

/-- A blank or the end of a line. -/
def isGap (c : Char) : Bool := isBlank c || isBreak c

/-- Does the text start with a gap, or is it at its end? -/
def gapFollows : List Char → Bool
  | [] => true
  | c :: _ => isGap c

/-- What the end of a line stands for in a scalar. -/
def breakText (c : Char) : Char := if c = '\u2028' || c = '\u2029' then c else '\n'

/-- How many bytes the character takes up in UTF-8. -/
def byteWidth (c : Char) : Nat := if c = '\r' then 2 else c.utf8Size

/-- May the character stand in a text at all? -/
def isAllowed (c : Char) : Bool :=
  let n := c.toNat
  n = 0x09 || n = 0x0A || n = 0x0D || (0x20 ≤ n && n ≤ 0x7E) || n = 0x85 ||
    (0xA0 ≤ n && n ≤ 0xFFFD) || 0x10000 ≤ n

-- ==== Characters of a text

/-- The mark of the byte order. -/
def byteOrderMark : Char := '\ufeff'

/-- The characters of a text in UTF-8, unless it is malformed. -/
def ofUtf8? (text : Bytes) : Option (List Char) :=
  let glyphs := Utf8.decode text
  let isChar : Glyph → Bool
    | .char _ => true
    | .stray _ => false
  if glyphs.all isChar then some (glyphs.map Glyph.shown) else none

/-- The characters of a text as its mark says, without the mark. -/
def decode? : Bytes → Option (List Char)
  | 0xFF :: 0xFE :: rest => Utf16.decode? .lowFirst rest
  | 0xFE :: 0xFF :: rest => Utf16.decode? .highFirst rest
  | 0xEF :: 0xBB :: 0xBF :: rest => ofUtf8? rest
  | text => ofUtf8? text

/-- Make each end of a line one character. -/
def unifyBreaks : List Char → List Char
  | [] => []
  | '\r' :: '\n' :: rest => '\r' :: unifyBreaks rest
  | '\r' :: rest => '\n' :: unifyBreaks rest
  | c :: rest => c :: unifyBreaks rest

/-- The characters of a text, unless it holds something that may not stand in one. -/
def characters? (text : Bytes) : Option (List Char) :=
  match decode? text with
  | some chars => if chars.all isAllowed then some (unifyBreaks chars) else none
  | none => none

end Lox.Yaml
