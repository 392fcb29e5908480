/-
Tokens and the literals they carry.
-/
import Lox.Token.Kind
import Lox.Number.Format

namespace Lox

/-- The constant that a token or a literal expression carries. `integer` is a constant of the host
and not of the language: no script contains one, and evaluating it fails. -/
inductive Literal where
  | nil
  | bool (b : Bool)
  | number (x : Float)
  | string (s : Bytes)
  | integer (n : Int)
deriving Inhabited

namespace Literal

/-- The text of a literal in a token listing; there is none for `nil`. -/
def display? : Literal → Option Bytes
  | .nil => none
  | .bool b => some (utf8 (if b then "true" else "false"))
  | .number x => some (Number.display x)
  | .string s => some s
  | .integer n => some (Bytes.ofInt n)

end Literal

/-- A lexeme of a script with its kind, its constant, and the line on which it ends. -/
structure Token where
  kind : Kind
  lexeme : Bytes
  literal : Literal := .nil
  line : Int
deriving Inhabited

namespace Token

/-- The text of a token in a listing: kind, lexeme, and the literal if there is one. -/
def display (t : Token) : Bytes :=
  let plain := utf8 t.kind.name ++ utf8 " " ++ t.lexeme
  match t.literal.display? with
  | none => plain
  | some text => plain ++ utf8 " " ++ text

end Token

end Lox
