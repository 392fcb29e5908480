/-
Quoted text, as it stands in messages.

Printable characters stand for themselves, except that a quote and a backslash get a backslash
before them. Other characters are written as escapes: a letter for the common ones, else two, four
or eight hexadecimal digits. A stray byte is written with two digits.
-/
import Lox.Text.Utf8
import Lox.Text.Printable

namespace Lox.Text

/-- The letters for the common control characters. -/
def escapeLetters : List (Char × String) :=
  [('\x07', "\\a"), ('\x08', "\\b"), ('\x0c', "\\f"), ('\n', "\\n"), ('\r', "\\r"), ('\t', "\\t"),
    ('\x0b', "\\v")]

/-- A character inside quotes. -/
def quoteChar (c : Char) : Bytes :=
  if c = '"' then utf8 "\\\""
  else if c = '\\' then utf8 "\\\\"
  else if isPrintable c then String.utf8EncodeChar c
  else match escapeLetters.lookup c with
    | some letter => utf8 letter
    | none =>
      if c.toNat < 0x80 then utf8 "\\x" ++ Bytes.ofHex 2 c.toNat
      else if c.toNat < 0x10000 then utf8 "\\u" ++ Bytes.ofHex 4 c.toNat
      else utf8 "\\U" ++ Bytes.ofHex 8 c.toNat

/-- A glyph inside quotes. -/
def quoteGlyph : Glyph → Bytes
  | .char c => quoteChar c
  | .stray b => utf8 "\\x" ++ Bytes.ofHex 2 b.toNat

/-- A text in quotes. -/
def quote (text : Bytes) : Bytes :=
  utf8 "\"" ++ (Utf8.decode text).flatMap quoteGlyph ++ utf8 "\""

end Lox.Text
