/-
Blank characters: those with the property White_Space of the Unicode standard, version 17.
-/
import Lox.Text.Utf8
import Lox.Text.Ranges

namespace Lox.Text

/-- The code points of the blank characters. -/
def blankRanges : CodeRanges :=
  [(0x9, 0xD), (0x20, 0x20), (0x85, 0x85), (0xA0, 0xA0), (0x1680, 0x1680), (0x2000, 0x200A),
    (0x2028, 0x2029), (0x202F, 0x202F), (0x205F, 0x205F), (0x3000, 0x3000)]

/-- Is the character blank? -/
def isBlank (c : Char) : Bool := blankRanges.has c

/-- Is the glyph a blank character? A stray byte never is. -/
def isBlankGlyph : Glyph → Bool
  | .char c => isBlank c
  | .stray _ => false

/-- The text without the blanks at its two ends. -/
def trim (text : Bytes) : Bytes :=
  let dropBlanks (glyphs : List Glyph) := glyphs.dropWhile isBlankGlyph
  let inner := (dropBlanks (dropBlanks (Utf8.decode text)).reverse).reverse
  inner.flatMap Glyph.bytes

/-- Does the text hold nothing but blanks? -/
def isAllBlank (text : Bytes) : Bool :=
  (Utf8.decode text).all isBlankGlyph

end Lox.Text
