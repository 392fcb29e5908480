/-
Making trees by hand.

Each function makes one node from its finished children and takes the next identity for it, so a
tree that is made from the leaves up is numbered children first, from left to right. All tokens
are on line 1. An operator is given by its lexeme; a lexeme that is no operator is refused, after
its node has taken an identity.
-/
import Lox.Tree.Basic

namespace Lox

/-- Work that takes identities, starting after the last one issued, and may meet a lexeme that is
no operator. -/
abbrev Build (α : Type) := ExceptT Bytes (StateM Nat) α

namespace Build

/-- The next identity. -/
def fresh : Build Nat := do
  let id := (← get) + 1
  set id
  return id

/-- The kinds of the operators, by lexeme. -/
def operatorKinds : List (Bytes × Kind) :=
  [(utf8 "-", .minus), (utf8 "+", .plus), (utf8 "/", .slash), (utf8 "*", .star),
    (utf8 "!", .bang), (utf8 "!=", .bangEqual), (utf8 "=", .equal), (utf8 "==", .equalEqual),
    (utf8 ">", .greater), (utf8 ">=", .greaterEqual), (utf8 "<", .less), (utf8 "<=", .lessEqual),
    (utf8 "and", .and), (utf8 "or", .or)]

/-- The token of an operator. -/
def operator (lexeme : Bytes) : Build Token :=
  match operatorKinds.lookup lexeme with
  | some kind => return ⟨kind, lexeme, .nil, 1⟩
  | none => throw (utf8 "ast: unknown operator " ++ lexeme)

/-- The token of a name. -/
def nameToken (name : Bytes) : Token := ⟨.identifier, name, .nil, 1⟩

/-- A constant. -/
def literal (value : Literal) : Build Expr := return .literal (← fresh) value

/-- An expression in parentheses. -/
def grouping (inner : Expr) : Build Expr := return .grouping (← fresh) inner

/-- An operator before its operand. -/
def unary (op : Bytes) (operand : Expr) : Build Expr := do
  let id ← fresh
  return .unary id (← operator op) operand

/-- An operator between its operands. -/
def binary (op : Bytes) (left right : Expr) : Build Expr := do
  let id ← fresh
  return .binary id left (← operator op) right

/-- An operator that may leave out its right operand. -/
def logical (op : Bytes) (left right : Expr) : Build Expr := do
  let id ← fresh
  return .logical id left (← operator op) right

/-- The use of a variable. -/
def ident (name : Bytes) : Build Expr := return .ident (← fresh) (nameToken name)

/-- An assignment. -/
def assign (name : Bytes) (value : Expr) : Build Expr :=
  return .assign (← fresh) (nameToken name) value

/-- A call. -/
def call (callee : Expr) (arguments : List Expr) : Build Expr :=
  return .call (← fresh) callee ⟨.rightParen, utf8 ")", .nil, 1⟩ arguments

/-- An expression statement. -/
def expression (value : Expr) : Build Stmt := return .expression (← fresh) value

/-- A print statement. -/
def print (value : Expr) : Build Stmt := return .print (← fresh) value

/-- A variable declaration. -/
def var (name : Bytes) (initializer : Expr) : Build Stmt :=
  return .var (← fresh) (nameToken name) initializer

/-- A block. -/
def block (body : List Stmt) : Build Stmt := return .block (← fresh) body

/-- An if statement. -/
def branch (condition : Expr) (positive negative : Stmt) : Build Stmt :=
  return .branch (← fresh) condition positive negative

/-- A while statement. -/
def loop (condition : Expr) (body : Stmt) : Build Stmt := return .loop (← fresh) condition body

/-- A function declaration. -/
def function (name : Bytes) (params : List Bytes) (body : List Stmt) : Build Stmt :=
  return .function (← fresh) (nameToken name) (params.map nameToken) body

/-- A return statement. -/
def result (value : Expr) : Build Stmt :=
  return .result (← fresh) ⟨.return, utf8 "return", .nil, 1⟩ value

end Build

end Lox
