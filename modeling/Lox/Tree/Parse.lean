/-
From tokens to program trees.

# Expressions

Expressions are read by precedence: an operand is followed by operators that bind at least as
tightly as asked for, each with a right operand that binds more tightly. So operators of one
precedence lean to the left. An assignment is read as an operand first, and the equals sign behind
it tells that it is a target; assignments lean to the right.

# Identities

Each node has an identity, taken when the node is made, after its children. Nodes that are dropped
have taken theirs too, so that identities never come up twice.

# Loops

A `for` statement has no node of its own. It is read as a block with the initializer and a loop,
whose body is a block that ends with the increment; where there is nothing to keep together, the
form of the script decides whether there is a block.

# Faults

A fault is noted at a token. Some are only noted, as too many arguments, and reading goes on; all
others give up the declaration that is being read. It is dropped then, with the tokens up to a place
where the next one may start (`resume`).

# Depth

The readers that call each other take a bound on the depth of their calls. `parse` chooses it by the
number of tokens, so that it is never reached.
-/
import Lox.Tree.Reader
import Lox.Token.Scan

namespace Lox

namespace Kind

/-- How tightly an operator between operands binds; `or` binds least. -/
def precedence? : Kind → Option Nat
  | .or => some 1
  | .and => some 2
  | .bangEqual => some 3
  | .equalEqual => some 3
  | .greater => some 4
  | .greaterEqual => some 4
  | .less => some 4
  | .lessEqual => some 4
  | .minus => some 5
  | .plus => some 5
  | .slash => some 6
  | .star => some 6
  | _ => none

/-- Does a token of this kind start a declaration or statement of its own? -/
def startsStatement : Kind → Bool
  | .klass | .fun | .var | .for | .if | .while | .print | .return => Bool.true
  | _ => Bool.false

end Kind

namespace Reader

/-- The most arguments or parameters that a list may have. -/
def maxArity : Nat := 255

-- ==== Expressions

/-- The node of an operator between two operands. -/
def join (left : Expr) (operator : Token) (right : Expr) : Reader Expr := do
  let id ← fresh
  if operator.kind = .or ∨ operator.kind = .and then return .logical id left operator right
  else return .binary id left operator right

/-- An expression that needs no operator, where `expression` reads the inside of parentheses. -/
def primary (expression : Reader Expr) : Reader Expr := do
  let t ← peek
  match t.kind with
  | .false => skip; return .literal (← fresh) (.bool false)
  | .true => skip; return .literal (← fresh) (.bool true)
  | .nil => skip; return .literal (← fresh) .nil
  | .number => skip; return .literal (← fresh) t.literal
  | .string => skip; return .literal (← fresh) t.literal
  | .identifier => skip; return .ident (← fresh) t
  | .leftParen =>
    skip
    let inner ← expression
    let _ ← expect .rightParen .unclosedGroup
    return .grouping (← fresh) inner
  | _ => fail .noExpression

/-- What an equals sign after `target` makes of it, where `value` reads the right-hand side. Only a
variable can be assigned to; for anything else the target alone is kept. -/
def assignment (target : Expr) (value : Reader Expr) : Reader Expr := do
  let equals ← peek
  if ← accept .equal then
    let v ← value
    match target with
    | .ident _ name => return .assign (← fresh) name v
    | _ =>
      note equals .invalidTarget
      return target
  else
    return target

mutual

/-- Any expression. -/
def expression : Nat → Reader Expr
  | 0 => stop
  | n + 1 => do
    let target ← operation n 1
    assignment target (expression n)

/-- Operands joined by operators of at least the given precedence. -/
def operation : Nat → Nat → Reader Expr
  | 0, _ => stop
  | n + 1, least => do
    let left ← unary n
    operators n least left

/-- The operators of at least the given precedence that follow `left`. -/
def operators : Nat → Nat → Expr → Reader Expr
  | 0, _, _ => stop
  | n + 1, least, left => do
    let t ← peek
    match t.kind.precedence? with
    | none => return left
    | some precedence =>
      if least ≤ precedence then
        skip
        -- an operator of the same precedence is left for the next round
        let right ← operation n (precedence + 1)
        operators n least (← join left t right)
      else
        return left

/-- An operand, with the operators before it. -/
def unary : Nat → Reader Expr
  | 0 => stop
  | n + 1 => do
    let t ← peek
    if t.kind = .bang ∨ t.kind = .minus then
      skip
      let operand ← unary n
      return .unary (← fresh) t operand
    else
      let callee ← primary (expression n)
      calls n callee

/-- The argument lists that follow `callee`. -/
def calls : Nat → Expr → Reader Expr
  | 0, _ => stop
  | n + 1, callee => do
    if ← accept .leftParen then
      let args ← if ← sees .rightParen then pure [] else arguments n []
      let paren ← expect .rightParen .unclosedArguments
      calls n (.call (← fresh) callee paren args)
    else
      return callee

/-- One or more arguments after `before`, with commas between them. -/
def arguments : Nat → List Expr → Reader (List Expr)
  | 0, _ => stop
  | n + 1, before => do
    if maxArity ≤ before.length then note (← peek) .tooManyArguments
    let arg ← expression n
    if ← accept .comma then arguments n (before ++ [arg])
    else return before ++ [arg]

end

-- ==== Statements

/-- A variable declaration after its keyword. -/
def varDeclaration (expression : Reader Expr) : Reader Stmt := do
  let name ← expect .identifier .noVariableName
  let initializer ← if ← accept .equal then expression else pure .absent
  let _ ← expect .semicolon .unendedVariable
  return .var (← fresh) name initializer

/-- One or more parameters after `before`, with commas between them. -/
def parameters : Nat → List Token → Reader (List Token)
  | 0, _ => stop
  | n + 1, before => do
    if maxArity ≤ before.length then note (← peek) .tooManyParameters
    let param ← expect .identifier .noParameterName
    if ← accept .comma then parameters n (before ++ [param])
    else return before ++ [param]

/-- A function declaration after its keyword. -/
def functionDeclaration (params : Reader (List Token)) (block : Reader (List Stmt)) :
    Reader Stmt := do
  let name ← expect .identifier .noFunctionName
  let _ ← expect .leftParen .unopenedParameters
  let params ← if ← sees .rightParen then pure [] else params
  let _ ← expect .rightParen .unclosedParameters
  let _ ← expect .leftBrace .unopenedBody
  let body ← block
  return .function (← fresh) name params body

/-- An expression and the semicolon that ends it. -/
def expressionStatement (expression : Reader Expr) : Reader Stmt := do
  let value ← expression
  let _ ← expect .semicolon .unendedExpression
  return .expression (← fresh) value

/-- The first clause of a `for` statement. -/
def forInitializer (expression : Reader Expr) : Reader Stmt := do
  if ← accept .semicolon then return .absent
  else if ← accept .var then varDeclaration expression
  else expressionStatement expression

/-- The loop body that ends with the increment. -/
def bodyThen (body : Stmt) (increment : Expr) : Reader Stmt := do
  if increment.isAbsent then
    match ← form with
    | .compact => return body
    | .full => return .block (← fresh) [body]
  else
    let outer ← fresh
    let inner ← fresh
    return .block outer [body, .expression inner increment]

/-- The condition of a loop; without one it goes on for ever. -/
def conditionOrTrue (condition : Expr) : Reader Expr := do
  if condition.isAbsent then return .literal (← fresh) (.bool true) else return condition

/-- The loop that begins with the initializer. -/
def initializerThen (initializer loop : Stmt) : Reader Stmt := do
  if initializer.isAbsent then
    match ← form with
    | .compact => return loop
    | .full => return .block (← fresh) [loop]
  else
    return .block (← fresh) [initializer, loop]

/-- A `for` statement after its keyword: a block with the initializer and a loop whose body ends
with the increment. -/
def forStatement (expression : Reader Expr) (statement : Reader Stmt) : Reader Stmt := do
  let _ ← expect .leftParen .unopenedFor
  let initializer ← forInitializer expression
  let condition ← if ← sees .semicolon then pure .absent else expression
  let _ ← expect .semicolon .unendedCondition
  let increment ← if ← sees .rightParen then pure .absent else expression
  let _ ← expect .rightParen .unclosedFor
  let body ← statement
  let body ← bodyThen body increment
  let condition ← conditionOrTrue condition
  let loop := Stmt.loop (← fresh) condition body
  initializerThen initializer loop

/-- An `if` statement after its keyword. An `else` goes with the nearest `if`. -/
def ifStatement (expression : Reader Expr) (statement : Reader Stmt) : Reader Stmt := do
  let _ ← expect .leftParen .unopenedIf
  let condition ← expression
  let _ ← expect .rightParen .unclosedIf
  let positive ← statement
  let negative ← if ← accept .else then statement else pure .absent
  return .branch (← fresh) condition positive negative

/-- A `print` statement after its keyword. -/
def printStatement (expression : Reader Expr) : Reader Stmt := do
  let value ← expression
  let _ ← expect .semicolon .unendedPrint
  return .print (← fresh) value

/-- A `return` statement after its keyword. -/
def returnStatement (keyword : Token) (expression : Reader Expr) : Reader Stmt := do
  let value ← if ← sees .semicolon then pure .absent else expression
  let _ ← expect .semicolon .unendedReturn
  return .result (← fresh) keyword value

/-- A `while` statement after its keyword. -/
def whileStatement (expression : Reader Expr) (statement : Reader Stmt) : Reader Stmt := do
  let _ ← expect .leftParen .unopenedWhile
  let condition ← expression
  let _ ← expect .rightParen .unclosedWhile
  let body ← statement
  return .loop (← fresh) condition body

/-- The tokens from which reading goes on after a declaration that could not be read: one token is
dropped, and then all up to a semicolon or the start of a statement. -/
def resume : List Token → List Token
  | [] => []
  | t :: rest =>
    -- the token at which reading failed is dropped, whatever it is
    if t.kind = .semicolon then rest
    else match rest with
      | [] => []
      | next :: _ => if next.kind.startsStatement then rest else resume rest

/-- Read a declaration; if that fails, drop it and find the next one. -/
def recover (declaration : Reader Stmt) : Reader (Option Stmt) := fun setting s =>
  match declaration setting s with
  | (some stmt, s) => (some (some stmt), s)
  | (none, s) => (some none, { s with rest := resume s.rest })

mutual

/-- A statement that declares nothing. -/
def statement : Nat → Reader Stmt
  | 0 => stop
  | n + 1 => do
    let t ← peek
    match t.kind with
    | .for => skip; forStatement (expression n) (statement n)
    | .if => skip; ifStatement (expression n) (statement n)
    | .print => skip; printStatement (expression n)
    | .return => skip; returnStatement t (expression n)
    | .while => skip; whileStatement (expression n) (statement n)
    | .leftBrace =>
      skip
      let body ← block n
      return .block (← fresh) body
    | _ => expressionStatement (expression n)

/-- A statement or a declaration. -/
def declaration : Nat → Reader Stmt
  | 0 => stop
  | n + 1 => do
    let t ← peek
    match t.kind with
    | .fun => skip; functionDeclaration (parameters n []) (block n)
    | .var => skip; varDeclaration (expression n)
    | _ => statement n

/-- The declarations up to a closing brace, and the brace. -/
def block : Nat → Reader (List Stmt)
  | 0 => stop
  | n + 1 => do
    let body ← declarations n true
    let _ ← expect .rightBrace .unclosedBlock
    return body

/-- The declarations up to the end, or up to a closing brace if they are `enclosed`. -/
def declarations : Nat → Bool → Reader (List Stmt)
  | 0, _ => stop
  | n + 1, enclosed => do
    if ← atEnd then return []
    if enclosed then
      if ← sees .rightBrace then return []
    let first ← recover (declaration n)
    let others ← declarations n enclosed
    return first.toList ++ others

end

end Reader

/-- The result of parsing: the program that could be read, the diagnostics, and the last identity
taken. -/
structure Parse where
  program : Program
  diagnostics : List Diagnostic
  issued : Nat

namespace Token

/-- The tokens before the first end-of-file token. -/
def body (tokens : List Token) : List Token :=
  tokens.takeWhile fun t => t.kind ≠ .eof

/-- The first end-of-file token. A list without one ends on the line of its last token. -/
def ending (tokens : List Token) : Token :=
  match tokens.find? fun t => t.kind = .eof with
  | some eof => eof
  | none => ⟨.eof, [], .nil, ((tokens.getLast?).map (·.line)).getD 1⟩

end Token

/-- A bound on the depth of calls that reading this many tokens takes. -/
def Reader.depthBound (tokens : Nat) : Nat := 10 * tokens + 20

/-- Parse tokens, taking identities after `issued`. -/
def parse (tokens : List Token) (issued : Nat) (form : LoopForm := .compact) : Parse :=
  let body := Token.body tokens
  let setting : Reader.Setting := ⟨Token.ending tokens, form⟩
  let (program, s) :=
    Reader.declarations (Reader.depthBound body.length) false setting ⟨body, issued, []⟩
  ⟨program.getD [], s.faults.map ParseFault.diagnostic, s.issued⟩

end Lox
