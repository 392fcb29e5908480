/-
Values.

A program computes with nil, truth values, numbers, texts and functions. Two more cases are not
values of the language but may be handed over by the host: `void`, which is no value at all, and
`foreign`, an object the language knows nothing about. Both can be stored, and neither equals
anything, itself included.

A function remembers the environment it was declared in. Values are the same whatever environments
are; unless said otherwise, an environment is a frame.
-/
import Lox.Tree.Basic

namespace Lox

/-- Where a frame is kept in the store. -/
abbrev FrameRef := Nat

/-- The code of a function. -/
structure Code where
  name : Token
  params : List Token
  body : List Stmt

/-- A function made by a declaration: its code and the environment in which it was declared. Each
time a declaration runs it makes a function with an identity of its own. The host may hand over a
function that has no code. -/
structure Closure (Env : Type := FrameRef) where
  ident : Nat
  code : Option Code
  env : Env

namespace Closure

variable {Env : Type}

/-- The name of a function; without code it is empty. -/
def name (f : Closure Env) : Bytes :=
  match f.code with
  | some code => code.name.lexeme
  | none => []

/-- How many arguments a function takes. -/
def arity (f : Closure Env) : Nat :=
  match f.code with
  | some code => code.params.length
  | none => 0

end Closure

/-- A function of the host, known by its identity. -/
structure Native where
  ident : Nat
  arity : Int
deriving DecidableEq

/-- An object of the host. It has the number of a kind, and an arity if it can be called. -/
structure Foreign where
  kind : Int
  arity : Option Int := none
deriving DecidableEq

/-- What an expression evaluates to. -/
inductive Value (Env : Type := FrameRef) where
  | nil
  | bool (b : Bool)
  | number (x : Float)
  | string (s : Bytes)
  | function (f : Closure Env)
  | native (f : Native)
  | void
  | foreign (f : Foreign)
deriving Inhabited

/-- The kinds of values. -/
inductive ValueKind where
  | nil | bool | number | string | function | native
  | unknown (code : Int)
deriving DecidableEq, Repr

namespace ValueKind

/-- The kind with a given number. -/
def ofCode : Int → ValueKind
  | 0 => nil
  | 1 => bool
  | 2 => number
  | 3 => string
  | 4 => function
  | 5 => native
  | code => unknown code

/-- The name of a kind. -/
def name : ValueKind → String
  | nil => "nil"
  | bool => "bool"
  | number => "number"
  | string => "string"
  | function => "function"
  | native => "native_function"
  | unknown code => "unknown_kind_" ++ toString code

end ValueKind

namespace Value

variable {Env : Type}

/-- The kind of a value; `void` has none. -/
def kind? : Value Env → Option ValueKind
  | nil => some .nil
  | bool _ => some .bool
  | number _ => some .number
  | string _ => some .string
  | function _ => some .function
  | native _ => some .native
  | void => none
  | foreign f => some (.ofCode f.kind)

/-- Nil, `void` and false count as false; all else counts as true. -/
def isTruthy : Value Env → Bool
  | nil => false
  | void => false
  | bool b => b
  | _ => true

/-- Equality as the language sees it: within one kind only, numbers by IEEE comparison, functions by
identity. -/
def equals : Value Env → Value Env → Bool
  | nil, nil => true
  | bool a, bool b => a == b
  | number a, number b => a == b
  | string a, string b => a == b
  | function f, function g => f.ident == g.ident
  | native f, native g => f.ident == g.ident
  | _, _ => false

/-- The text that printing a value gives. -/
def display : Value Env → Bytes
  | nil => utf8 "nil"
  | void => utf8 "nil"
  | bool b => utf8 (if b then "true" else "false")
  | number x => Number.print x
  | string s => s
  | function f => utf8 "<fn " ++ f.name ++ utf8 ">"
  | native _ => utf8 "<native fn>"
  | foreign f => utf8 "[" ++ utf8 (ValueKind.ofCode f.kind).name ++ utf8 "]"

/-- How many arguments a callable value takes. -/
def arity? : Value Env → Option Int
  | function f => some f.arity
  | native f => some f.arity
  | foreign f => f.arity
  | _ => none

/-- The value of a literal; a constant of the host has none. -/
def ofLiteral? : Literal → Option (Value Env)
  | .nil => some nil
  | .bool b => some (bool b)
  | .number x => some (number x)
  | .string s => some (string s)
  | .integer _ => none

end Value

end Lox
