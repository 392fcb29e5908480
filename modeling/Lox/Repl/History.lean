/-
The history of the prompt.

Entries are kept in order, the newest last, and there are only so many of them. In a file each
entry is a line.
-/
import Lox.Repl.Line
import Lox.Text.Utf8

namespace Lox

/-- Entries of a history, the newest last. -/
abbrev History := List Bytes

namespace History

/-- The greatest number of entries. -/
def limit : Nat := 1000

/-- Keep the newest entries. -/
def bounded (h : History) : History := h.drop (h.length - limit)

/-- Add an entry, unless it is the same as the last. Line feeds become spaces. -/
def add (h : History) (source : Bytes) : History :=
  let entry := source.map fun b => if b = Bytes.lineFeed then 32 else b
  if h.getLast? = some entry then h else bounded (h ++ [entry])

/-- The lines before the first that is too long or is not valid text. -/
def ofText (text : Bytes) : History :=
  let fine := (linePieces text).takeWhile fun piece => !piece.goesOn && Utf8.isValid piece.text
  bounded (fine.map (·.text))

/-- The text of a history file. -/
def toText (h : History) : Bytes := h.flatMap (· ++ [Bytes.lineFeed])

end History

end Lox
