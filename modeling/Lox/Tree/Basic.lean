/-
Program trees.

Every node carries an identity, a positive number by which the distances found for variables are
recorded. A child that is missing is `absent`: the initializer of `var x;`, the value of
`return;`, a missing else-branch. A tree made by hand may have absent children anywhere.
-/
import Lox.Token.Basic

namespace Lox

/-- An expression. -/
inductive Expr where
  | absent
  | literal (id : Nat) (value : Literal)
  | grouping (id : Nat) (inner : Expr)
  | unary (id : Nat) (operator : Token) (operand : Expr)
  | binary (id : Nat) (left : Expr) (operator : Token) (right : Expr)
  | logical (id : Nat) (left : Expr) (operator : Token) (right : Expr)
  | assign (id : Nat) (name : Token) (value : Expr)
  | ident (id : Nat) (name : Token)
  | call (id : Nat) (callee : Expr) (paren : Token) (arguments : List Expr)
deriving Inhabited

/-- A statement. -/
inductive Stmt where
  | absent
  | expression (id : Nat) (value : Expr)
  | print (id : Nat) (value : Expr)
  | var (id : Nat) (name : Token) (initializer : Expr)
  | block (id : Nat) (body : List Stmt)
  | branch (id : Nat) (condition : Expr) (positive negative : Stmt)
  | loop (id : Nat) (condition : Expr) (body : Stmt)
  | function (id : Nat) (name : Token) (params : List Token) (body : List Stmt)
  | result (id : Nat) (keyword : Token) (value : Expr)
deriving Inhabited

/-- A program is a list of statements. -/
abbrev Program := List Stmt

namespace Expr

/-- Is the expression missing? -/
def isAbsent : Expr → Bool
  | absent => true
  | _ => false

end Expr

namespace Stmt

/-- Is the statement missing? -/
def isAbsent : Stmt → Bool
  | absent => true
  | _ => false

end Stmt

end Lox
