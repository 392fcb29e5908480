/-
Lines as they are taken from an input.

A line ends at a line feed, and a carriage return before that is no part of it. Of a line that is
too long, as much as there is room for is taken first, as a piece of its own. A carriage return at
the end of such a piece is left for the next one, since a line feed may follow it.
-/
import Lox.Text.Bytes

namespace Lox

/-- A line, or a piece of one. -/
structure LinePiece where
  text : Bytes
  /-- Does the line go on after it? -/
  goesOn : Bool := false
deriving DecidableEq

/-- What was taken of a line so far. -/
structure OpenLine where
  /-- Its bytes, the last one first. -/
  taken : Bytes := []
  /-- How many they are. -/
  length : Nat := 0
deriving DecidableEq

namespace OpenLine

/-- How many bytes there is room for. -/
def limit : Nat := 4096

/-- The carriage return. -/
def carriageReturn : UInt8 := 13

/-- Take one more byte. It may complete a line or a piece of one. -/
def take (o : OpenLine) (b : UInt8) : OpenLine × Option LinePiece :=
  if b = Bytes.lineFeed then
    let kept := if o.taken.head? = some carriageReturn then o.taken.drop 1 else o.taken
    ({}, some ⟨kept.reverse, false⟩)
  else if o.length + 1 < limit then (⟨b :: o.taken, o.length + 1⟩, none)
  else if b = carriageReturn then (⟨[b], 1⟩, some ⟨o.taken.reverse, true⟩)
  else ({}, some ⟨(b :: o.taken).reverse, true⟩)

/-- The last line, at the end of the input. -/
def finish (o : OpenLine) : Option LinePiece :=
  if o.taken.isEmpty then none else some ⟨o.taken.reverse, false⟩

/-- The pieces of the lines of a text after what was taken before. -/
def pieces : OpenLine → Bytes → List LinePiece
  | o, [] => o.finish.toList
  | o, b :: rest =>
    match o.take b with
    | (o, none) => pieces o rest
    | (o, some piece) => piece :: pieces o rest

end OpenLine

/-- The pieces of the lines of a text. -/
def linePieces (text : Bytes) : List LinePiece := OpenLine.pieces {} text

/-- What an input gives, line by line. -/
def inputLines (text : Bytes) : List Bytes := (linePieces text).map (·.text)

end Lox
