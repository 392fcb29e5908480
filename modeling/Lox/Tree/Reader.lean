/-
Reading tokens.

A reader goes through a list of tokens that holds no end-of-file token, and the end of that list
is where a script ends. It takes identities for the nodes it makes and notes faults as it meets
them. A reader that cannot go on gives up: it yields nothing, and has noted why.
-/
import Lox.Tree.Basic
import Lox.Tree.Fault

namespace Lox

/-- How a `for` statement is written with simpler ones. `compact` leaves out a block that would
only hold the loop or its body; `full` always has both blocks. -/
inductive LoopForm where
  | compact
  | full
deriving DecidableEq, Repr

/-- What stays the same all through a reading. -/
structure Reader.Setting where
  /-- The token that stands for the end of the script. -/
  eof : Token
  form : LoopForm := .compact

/-- What a reading has still before it and what it has left behind. -/
structure Reader.State where
  /-- The tokens not yet read. -/
  rest : List Token
  /-- The last identity taken. -/
  issued : Nat
  /-- The faults noted so far, the first one first. -/
  faults : List ParseFault

/-- A reader of an `α`: it yields one, or gives up. -/
def Reader (α : Type) := Reader.Setting → Reader.State → Option α × Reader.State

namespace Reader

instance : Monad Reader where
  pure a := fun _ s => (some a, s)
  bind x f := fun setting s =>
    match x setting s with
    | (some a, s) => f a setting s
    | (none, s) => (none, s)

/-- Give up without a note. -/
def stop {α : Type} : Reader α := fun _ s => (none, s)

/-- The next token, which is left in place; at the end it is the end-of-file token. -/
def peek : Reader Token := fun setting s => (some (s.rest.headD setting.eof), s)

/-- Go over the next token. -/
def skip : Reader Unit := fun _ s => (some (), { s with rest := s.rest.tail })

/-- Note a fault and go on. -/
def note (token : Token) (problem : ParseProblem) : Reader Unit := fun _ s =>
  (some (), { s with faults := s.faults ++ [⟨token, problem⟩] })

/-- Note a fault at the next token and give up. -/
def fail {α : Type} (problem : ParseProblem) : Reader α := do
  note (← peek) problem
  stop

/-- The next identity. -/
def fresh : Reader Nat := fun _ s => (some (s.issued + 1), { s with issued := s.issued + 1 })

/-- The form in which `for` statements are written. -/
def form : Reader LoopForm := fun setting s => (some setting.form, s)

/-- Is the next token of this kind? -/
def sees (kind : Kind) : Reader Bool := fun _ s =>
  (some (match s.rest with
    | t :: _ => decide (t.kind = kind)
    | [] => false), s)

/-- Is there no token left? -/
def atEnd : Reader Bool := fun _ s => (some s.rest.isEmpty, s)

/-- Go over the next token if it is of this kind, and say whether it was. -/
def accept (kind : Kind) : Reader Bool := do
  if ← sees kind then
    skip
    return true
  else
    return false

/-- The next token, which has to be of this kind. -/
def expect (kind : Kind) (problem : ParseProblem) : Reader Token := do
  let t ← peek
  if ← sees kind then
    skip
    return t
  else
    fail problem

end Reader

end Lox
