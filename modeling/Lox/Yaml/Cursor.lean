/-
Places in a YAML text.

A cursor stands before a character and knows its line and its column.
-/
import Lox.Yaml.Character

namespace Lox.Yaml

/-- A place in a text: what follows, and how many characters, lines and characters on this line are
before it. -/
structure Cursor where
  rest : List Char
  index : Nat := 0
  line : Nat := 0
  column : Nat := 0
deriving DecidableEq

namespace Cursor

/-- Go past one character. -/
def next (c : Cursor) : Cursor :=
  match c.rest with
  | [] => c
  | ch :: rest =>
    if isBreak ch then ⟨rest, c.index + 1, c.line + 1, 0⟩
    else ⟨rest, c.index + 1, c.line, c.column + 1⟩

/-- Go past one character on the line, whatever it is. -/
def drop (c : Cursor) : Cursor :=
  match c.rest with
  | [] => c
  | _ :: rest => ⟨rest, c.index + 1, c.line, c.column + 1⟩

/-- Go past so many characters. -/
def skip : Nat → Cursor → Cursor
  | 0, c => c
  | n + 1, c => skip n c.next

/-- The characters up to the first that fails the test. -/
def run (c : Cursor) (p : Char → Bool) : List Char := c.rest.takeWhile p

/-- Go past the characters up to the first that fails the test. -/
def skipWhile (c : Cursor) (p : Char → Bool) : Cursor := skip (c.run p).length c

/-- Does a document start or end here? -/
def atDocumentMark (c : Cursor) : Bool :=
  c.column = 0 &&
    match c.rest with
    | '-' :: '-' :: '-' :: rest => gapFollows rest
    | '.' :: '.' :: '.' :: rest => gapFollows rest
    | _ => false

end Cursor

end Lox.Yaml
