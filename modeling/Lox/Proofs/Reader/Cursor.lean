/-
Reading by position.

# Positions

A cursor reads the same programs as a reader does, but from a list of tokens that stays whole: it
keeps the position of the next token, and looks at tokens by their position. It goes over a token in
two steps, first on by one position and then back for the token that was passed (`advance`), and
after a fault it looks at the token before the next one to see where a statement ended (`seek`).

# Answers

Looking can go wrong, as there may be no token at a position. So what comes of a cursor is one of
four things: it yields something, it gives up with a note, it has strayed from the tokens, or a
bound on the depth of calls was reached. The positions that were looked at are kept, so that it can
be said of a whole reading where it looked.

Nothing here asks whether a position is within the tokens. A list of tokens that lacks the one for
the end of the script is given one (`closed`); with it, no position that is looked at is past the
end. That the cursor never strays, and that it reads what the reader reads, is proved in the modules
that follow.

# Grammar

The readers of expressions, statements and declarations are those of the grammar, one for each rule,
and take their tokens by position. Each call goes down by one in the bound, which stands for the
depth of calls.
-/
import Lox.Tree.Parse

namespace Lox

/-- What stays the same all through a reading. -/
structure Cursor.Setting where
  tokens : List Token
  form : LoopForm

/-- How far a cursor has come. Where it looked is kept, so that it can be said that it never looks
beyond the end of the tokens. -/
structure Cursor.State where
  /-- The position of the next token. -/
  current : Nat
  /-- The last identity taken. -/
  issued : Nat
  /-- The faults noted so far, the first one first. -/
  faults : List ParseFault
  /-- The positions that were looked at, the latest first. -/
  looked : List Nat

/-- What comes of a cursor. That it strayed or was exhausted is told apart from giving up, since it
is to be shown that neither happens. -/
inductive Cursor.Answer (α : Type) where
  | yields (a : α)
  | gaveUp
  /-- There is no token at a position that was looked at. -/
  | strayed
  /-- The bound on the depth of calls was reached. -/
  | exhausted

/-- A reading by position. -/
def Cursor (α : Type) := Cursor.Setting → Cursor.State → Cursor.Answer α × Cursor.State

namespace Cursor

instance : Monad Cursor where
  pure a := fun _ s => (.yields a, s)
  bind x f := fun setting s =>
    match x setting s with
    | (.yields a, s) => f a setting s
    | (.gaveUp, s) => (.gaveUp, s)
    | (.strayed, s) => (.strayed, s)
    | (.exhausted, s) => (.exhausted, s)

-- ==== Positions

/-- The token at a position. -/
def look (position : Nat) : Cursor Token := fun setting s =>
  let s := { s with looked := position :: s.looked }
  match setting.tokens[position]? with
  | some t => (.yields t, s)
  | none => (.strayed, s)

/-- The next token, which is left in place. -/
def peek : Cursor Token := fun setting s => look s.current setting s

/-- The token before the next one. Before the first token there is none. -/
def previous : Cursor Token := fun setting s =>
  match s.current with
  | 0 => (.strayed, s)
  | position + 1 => look position setting s

/-- Go on by one position. -/
def forward : Cursor Unit := fun _ s => (.yields (), { s with current := s.current + 1 })

/-- Is the next token the end of the script? -/
def isAtEnd : Cursor Bool := do return decide ((← peek).kind = .eof)

/-- Go over the next token, unless it is the end of the script. -/
def advance : Cursor Token := do
  if ← isAtEnd then previous
  else
    forward
    previous

-- ==== Notes and identities

/-- Give up without a note. -/
def giveUp {α : Type} : Cursor α := fun _ s => (.gaveUp, s)

/-- Stop because the bound on the depth of calls is reached. -/
def exhaust {α : Type} : Cursor α := fun _ s => (.exhausted, s)

/-- Note a fault and go on. -/
def note (token : Token) (problem : ParseProblem) : Cursor Unit := fun _ s =>
  (.yields (), { s with faults := s.faults ++ [⟨token, problem⟩] })

/-- Note a fault at the next token and give up. -/
def fail {α : Type} (problem : ParseProblem) : Cursor α := do
  note (← peek) problem
  giveUp

/-- The next identity. -/
def fresh : Cursor Nat := fun _ s => (.yields (s.issued + 1), { s with issued := s.issued + 1 })

/-- The form in which `for` statements are written. -/
def form : Cursor LoopForm := fun setting s => (.yields setting.form, s)

-- ==== Kinds of tokens

/-- Is the next token of this kind? The end of the script is of no kind that is asked for. -/
def sees (kind : Kind) : Cursor Bool := do
  if ← isAtEnd then return false
  else return decide ((← peek).kind = kind)

/-- Go over the next token if it is of this kind, and say whether it was. -/
def accept (kind : Kind) : Cursor Bool := do
  if ← sees kind then
    let _ ← advance
    return true
  else
    return false

/-- The next token, which has to be of this kind. -/
def expect (kind : Kind) (problem : ParseProblem) : Cursor Token := do
  if ← sees kind then advance else fail problem

-- ==== Expressions

/-- The node of an operator between two operands. -/
def join (left : Expr) (operator : Token) (right : Expr) : Cursor Expr := do
  let id ← fresh
  if operator.kind = .or ∨ operator.kind = .and then return .logical id left operator right
  else return .binary id left operator right

/-- An expression that needs no operator. -/
def primary (expression : Cursor Expr) : Cursor Expr := do
  match (← peek).kind with
  | .false => let _ ← advance; return .literal (← fresh) (.bool false)
  | .true => let _ ← advance; return .literal (← fresh) (.bool true)
  | .nil => let _ ← advance; return .literal (← fresh) .nil
  | .number => let t ← advance; return .literal (← fresh) t.literal
  | .string => let t ← advance; return .literal (← fresh) t.literal
  | .identifier => let t ← advance; return .ident (← fresh) t
  | .leftParen =>
    let _ ← advance
    let inner ← expression
    let _ ← expect .rightParen .unclosedGroup
    return .grouping (← fresh) inner
  | _ => fail .noExpression

/-- What an equals sign after `target` makes of it. -/
def assignment (target : Expr) (value : Cursor Expr) : Cursor Expr := do
  if ← accept .equal then
    let equals ← previous
    let v ← value
    match target with
    | .ident _ name => return .assign (← fresh) name v
    | _ =>
      note equals .invalidTarget
      return target
  else
    return target

mutual

/-- Any expression. -/
def expression : Nat → Cursor Expr
  | 0 => exhaust
  | n + 1 => do
    let target ← operation n 1
    assignment target (expression n)

/-- Operands joined by operators of at least the given precedence. -/
def operation : Nat → Nat → Cursor Expr
  | 0, _ => exhaust
  | n + 1, least => do
    let left ← unary n
    operators n least left

/-- The operators of at least the given precedence that follow `left`. -/
def operators : Nat → Nat → Expr → Cursor Expr
  | 0, _, _ => exhaust
  | n + 1, least, left => do
    match (← peek).kind.precedence? with
    | none => return left
    | some precedence =>
      if least ≤ precedence then
        let operator ← advance
        let right ← operation n (precedence + 1)
        operators n least (← join left operator right)
      else
        return left

/-- An operand, with the operators before it. -/
def unary : Nat → Cursor Expr
  | 0 => exhaust
  | n + 1 => do
    let t ← peek
    if t.kind = .bang ∨ t.kind = .minus then
      let operator ← advance
      let operand ← unary n
      return .unary (← fresh) operator operand
    else
      let callee ← primary (expression n)
      calls n callee

/-- The argument lists that follow `callee`. -/
def calls : Nat → Expr → Cursor Expr
  | 0, _ => exhaust
  | n + 1, callee => do
    if ← accept .leftParen then
      let args ← if ← sees .rightParen then pure [] else arguments n []
      let paren ← expect .rightParen .unclosedArguments
      calls n (.call (← fresh) callee paren args)
    else
      return callee

/-- One or more arguments after `before`, with commas between them. -/
def arguments : Nat → List Expr → Cursor (List Expr)
  | 0, _ => exhaust
  | n + 1, before => do
    if Reader.maxArity ≤ before.length then note (← peek) .tooManyArguments
    let arg ← expression n
    if ← accept .comma then arguments n (before ++ [arg])
    else return before ++ [arg]

end

-- ==== Statements

/-- A variable declaration after its keyword. -/
def varDeclaration (expression : Cursor Expr) : Cursor Stmt := do
  let name ← expect .identifier .noVariableName
  let initializer ← if ← accept .equal then expression else pure .absent
  let _ ← expect .semicolon .unendedVariable
  return .var (← fresh) name initializer

/-- One or more parameters after `before`, with commas between them. -/
def parameters : Nat → List Token → Cursor (List Token)
  | 0, _ => exhaust
  | n + 1, before => do
    if Reader.maxArity ≤ before.length then note (← peek) .tooManyParameters
    let param ← expect .identifier .noParameterName
    if ← accept .comma then parameters n (before ++ [param])
    else return before ++ [param]

/-- A function declaration after its keyword. -/
def functionDeclaration (params : Cursor (List Token)) (block : Cursor (List Stmt)) :
    Cursor Stmt := do
  let name ← expect .identifier .noFunctionName
  let _ ← expect .leftParen .unopenedParameters
  let params ← if ← sees .rightParen then pure [] else params
  let _ ← expect .rightParen .unclosedParameters
  let _ ← expect .leftBrace .unopenedBody
  let body ← block
  return .function (← fresh) name params body

/-- An expression and the semicolon that ends it. -/
def expressionStatement (expression : Cursor Expr) : Cursor Stmt := do
  let value ← expression
  let _ ← expect .semicolon .unendedExpression
  return .expression (← fresh) value

/-- The first clause of a `for` statement. -/
def forInitializer (expression : Cursor Expr) : Cursor Stmt := do
  if ← accept .semicolon then return .absent
  else if ← accept .var then varDeclaration expression
  else expressionStatement expression

/-- The loop body that ends with the increment. -/
def bodyThen (body : Stmt) (increment : Expr) : Cursor Stmt := do
  if increment.isAbsent then
    match ← form with
    | .compact => return body
    | .full => return .block (← fresh) [body]
  else
    let outer ← fresh
    let inner ← fresh
    return .block outer [body, .expression inner increment]

/-- The condition of a loop; without one it goes on for ever. -/
def conditionOrTrue (condition : Expr) : Cursor Expr := do
  if condition.isAbsent then return .literal (← fresh) (.bool true) else return condition

/-- The loop that begins with the initializer. -/
def initializerThen (initializer loop : Stmt) : Cursor Stmt := do
  if initializer.isAbsent then
    match ← form with
    | .compact => return loop
    | .full => return .block (← fresh) [loop]
  else
    return .block (← fresh) [initializer, loop]

/-- A `for` statement after its keyword. -/
def forStatement (expression : Cursor Expr) (statement : Cursor Stmt) : Cursor Stmt := do
  let _ ← expect .leftParen .unopenedFor
  let initializer ← forInitializer expression
  let condition ← if ← sees .semicolon then pure .absent else expression
  let _ ← expect .semicolon .unendedCondition
  let increment ← if ← sees .rightParen then pure .absent else expression
  let _ ← expect .rightParen .unclosedFor
  let body ← statement
  let body ← bodyThen body increment
  let condition ← conditionOrTrue condition
  let loop := Stmt.loop (← fresh) condition body
  initializerThen initializer loop

/-- An `if` statement after its keyword. -/
def ifStatement (expression : Cursor Expr) (statement : Cursor Stmt) : Cursor Stmt := do
  let _ ← expect .leftParen .unopenedIf
  let condition ← expression
  let _ ← expect .rightParen .unclosedIf
  let positive ← statement
  let negative ← if ← accept .else then statement else pure .absent
  return .branch (← fresh) condition positive negative

/-- A `print` statement after its keyword. -/
def printStatement (expression : Cursor Expr) : Cursor Stmt := do
  let value ← expression
  let _ ← expect .semicolon .unendedPrint
  return .print (← fresh) value

/-- A `return` statement after its keyword, which it looks back at. -/
def returnStatement (expression : Cursor Expr) : Cursor Stmt := do
  let keyword ← previous
  let value ← if ← sees .semicolon then pure .absent else expression
  let _ ← expect .semicolon .unendedReturn
  return .result (← fresh) keyword value

/-- A `while` statement after its keyword. -/
def whileStatement (expression : Cursor Expr) (statement : Cursor Stmt) : Cursor Stmt := do
  let _ ← expect .leftParen .unopenedWhile
  let condition ← expression
  let _ ← expect .rightParen .unclosedWhile
  let body ← statement
  return .loop (← fresh) condition body

/-- Go on to a place where the next declaration may start: after a semicolon, or in front of the
start of a statement. -/
def seek : Nat → Cursor Unit
  | 0 => exhaust
  | n + 1 => do
    if ← isAtEnd then return
    if (← previous).kind = .semicolon then return
    if (← peek).kind.startsStatement then return
    let _ ← advance
    seek n

/-- Read a declaration; if that fails, drop it and find the next one. The token at which it failed
is passed in any case, so that the cursor always moves on. -/
def recover (n : Nat) (declaration : Cursor Stmt) : Cursor (Option Stmt) := fun setting s =>
  match declaration setting s with
  | (.yields stmt, s) => (.yields (some stmt), s)
  | (.gaveUp, s) =>
    (do let _ ← advance
        seek n
        return none : Cursor (Option Stmt)) setting s
  | (.strayed, s) => (.strayed, s)
  | (.exhausted, s) => (.exhausted, s)

mutual

/-- A statement that declares nothing. -/
def statement : Nat → Cursor Stmt
  | 0 => exhaust
  | n + 1 => do
    match (← peek).kind with
    | .for => let _ ← advance; forStatement (expression n) (statement n)
    | .if => let _ ← advance; ifStatement (expression n) (statement n)
    | .print => let _ ← advance; printStatement (expression n)
    | .return => let _ ← advance; returnStatement (expression n)
    | .while => let _ ← advance; whileStatement (expression n) (statement n)
    | .leftBrace =>
      let _ ← advance
      let body ← block n
      return .block (← fresh) body
    | _ => expressionStatement (expression n)

/-- A statement or a declaration. -/
def declaration : Nat → Cursor Stmt
  | 0 => exhaust
  | n + 1 => do
    match (← peek).kind with
    | .fun => let _ ← advance; functionDeclaration (parameters n []) (block n)
    | .var => let _ ← advance; varDeclaration (expression n)
    | _ => statement n

/-- The declarations up to a closing brace, and the brace. -/
def block : Nat → Cursor (List Stmt)
  | 0 => exhaust
  | n + 1 => do
    let body ← declarations n true
    let _ ← expect .rightBrace .unclosedBlock
    return body

/-- The declarations up to the end, or up to a closing brace if they are `enclosed`. -/
def declarations : Nat → Bool → Cursor (List Stmt)
  | 0, _ => exhaust
  | n + 1, enclosed => do
    if ← isAtEnd then return []
    if enclosed then
      if ← sees .rightBrace then return []
    let first ← recover n (declaration n)
    let others ← declarations n enclosed
    return first.toList ++ others

end

end Cursor

namespace Token

/-- The tokens with one at the end that ends the script, if there is none. -/
def closed (tokens : List Token) : List Token :=
  match tokens.getLast? with
  | none => [⟨.eof, [], .nil, 1⟩]
  | some t => if t.kind = .eof then tokens else tokens ++ [⟨.eof, [], .nil, t.line⟩]

end Token

end Lox
