/-
Where variables are bound.

# Distances

A walk over a program finds, for each use of a variable, how many scopes out its binding lies. A
block opens a scope, and a function opens one for its parameters and its body together. A name
counts from its declaration on; until its initializer has been read it is declared but not yet
defined. What no scope declares is global and gets no entry.

The scopes of the walk are the frames of a run, one for one. So a distance that is found once,
before the program runs, is the number of frames to go out each time the use is carried out.

# Misuses

The walk also reports three misuses: a return outside any function, and a variable read in its own
initializer, local or global. A global is only misused so if it is new, since another one of the
name would be meant otherwise; for this the walk keeps the names defined at top level, and is told
which globals there were before.

The walk never stops early, and absent nodes are passed over.
-/
import Lox.Tree.Basic
import Lox.Diagnostic
import Lox.Table
import Std.Data.TreeMap

namespace Lox

/-- For uses of local variables, by the identity of the node, the number of frames to go out. -/
abbrev Resolution := Std.TreeMap Nat Int

/-- The names declared in one scope, and whether each is defined. -/
abbrev Scope := Table Bool

namespace Scope

/-- Does the scope declare the name? -/
def declares (scope : Scope) (name : Bytes) : Bool :=
  (scope.lookup name).isSome

/-- The number of scopes, from the innermost, to the nearest that declares the name. -/
def distance? (name : Bytes) : List Scope → Option Nat
  | [] => none
  | scope :: outer => if scope.declares name then some 0 else (distance? name outer).map (· + 1)

end Scope

/-- The misuses that the walk reports. -/
inductive ResolveProblem where
  | topLevelReturn
  | localInitializer
  | globalInitializer
deriving DecidableEq, Repr

namespace ResolveProblem

/-- The wording of a misuse. -/
def wording : ResolveProblem → String
  | topLevelReturn => "Can't return from top-level code."
  | localInitializer => "Can't read local variable in its own initializer."
  | globalInitializer => "Can't read global variable in its own initializer."

end ResolveProblem

/-- A misuse and the token at which it stands. -/
structure ResolveFault where
  token : Token
  problem : ResolveProblem

namespace ResolveFault

/-- The diagnostic of a misuse. -/
def diagnostic (f : ResolveFault) : Diagnostic :=
  .atToken .resolve f.token (utf8 f.problem.wording)

end ResolveFault

/-- How far the walk has come. -/
structure Walk where
  /-- The open scopes, the innermost first; none at top level. -/
  scopes : List Scope
  /-- The names defined at top level so far. -/
  globals : List Bytes
  /-- The distances found, the latest first. -/
  entries : List (Nat × Nat)
  /-- The misuses found, the first one first. -/
  faults : List ResolveFault

namespace Walk

/-- Nothing walked over yet. -/
def start : Walk := ⟨[], [], [], []⟩

/-- Note a misuse. -/
def note (w : Walk) (token : Token) (problem : ResolveProblem) : Walk :=
  { w with faults := w.faults ++ [⟨token, problem⟩] }

/-- Open a scope. -/
def enter (w : Walk) : Walk := { w with scopes := [] :: w.scopes }

/-- Close the innermost scope. -/
def leave (w : Walk) : Walk := { w with scopes := w.scopes.tail }

/-- Declare a name in the innermost scope; top level has no declarations to keep. -/
def declare (w : Walk) (name : Token) : Walk :=
  match w.scopes with
  | [] => w
  | scope :: outer => { w with scopes := scope.set name.lexeme false :: outer }

/-- Define a name in the innermost scope, or at top level. -/
def define (w : Walk) (name : Token) : Walk :=
  match w.scopes with
  | [] => { w with globals := name.lexeme :: w.globals }
  | scope :: outer => { w with scopes := scope.set name.lexeme true :: outer }

/-- Record the distance of a use of a name, if a scope declares it. -/
def locate (w : Walk) (id : Nat) (name : Token) : Walk :=
  match Scope.distance? name.lexeme w.scopes with
  | some hops => { w with entries := (id, hops) :: w.entries }
  | none => w

/-- Is the name, read here, the variable whose initializer this is? At top level that is
`initializing`, unless the variable exists already. -/
def selfRead? (w : Walk) (known : Bytes → Bool) (initializing : Option Bytes) (name : Bytes) :
    Option ResolveProblem :=
  match w.scopes with
  -- only the innermost scope can have the variable of this initializer
  | scope :: _ => if scope.lookup name = some false then some .localInitializer else none
  | [] =>
    if initializing = some name ∧ name ≠ [] ∧ name ∉ w.globals ∧ known name = false then
      some .globalInitializer
    else none

/-- Note a variable that is read in its own initializer. -/
def checkRead (w : Walk) (known : Bytes → Bool) (initializing : Option Bytes) (name : Token) :
    Walk :=
  match w.selfRead? known initializing name.lexeme with
  | some problem => w.note name problem
  | none => w

mutual

/-- Walk over an expression. `initializing` is the top-level variable whose initializer it belongs
to, and `known` tells the globals that exist already. -/
def expr (known : Bytes → Bool) (initializing : Option Bytes) : Expr → Walk → Walk
  | .absent, w => w
  | .literal _ _, w => w
  | .grouping _ inner, w => expr known initializing inner w
  | .unary _ _ operand, w => expr known initializing operand w
  | .binary _ left _ right, w =>
    expr known initializing right (expr known initializing left w)
  | .logical _ left _ right, w =>
    expr known initializing right (expr known initializing left w)
  | .assign id name value, w => (expr known initializing value w).locate id name
  | .ident id name, w => (w.checkRead known initializing name).locate id name
  | .call _ callee _ arguments, w =>
    exprs known initializing arguments (expr known initializing callee w)

/-- Walk over expressions in order. -/
def exprs (known : Bytes → Bool) (initializing : Option Bytes) : List Expr → Walk → Walk
  | [], w => w
  | e :: rest, w => exprs known initializing rest (expr known initializing e w)

end

/-- Open a function's scope, with its parameters defined in it. -/
def enterFunction (w : Walk) (params : List Token) : Walk :=
  params.foldl (fun w param => (w.declare param).define param) w.enter

mutual

/-- Walk over a statement; `inFunction` says whether a function encloses it. -/
def stmt (known : Bytes → Bool) (inFunction : Bool) : Stmt → Walk → Walk
  | .absent, w => w
  | .expression _ value, w => expr known none value w
  | .print _ value, w => expr known none value w
  | .var _ name initializer, w =>
    let initializing := if w.scopes.isEmpty then some name.lexeme else none
    (expr known initializing initializer (w.declare name)).define name
  | .block _ body, w => (stmts known inFunction body w.enter).leave
  | .branch _ condition positive negative, w =>
    stmt known inFunction negative (stmt known inFunction positive (expr known none condition w))
  | .loop _ condition body, w => stmt known inFunction body (expr known none condition w)
  | .function _ name params body, w =>
    -- a function is defined in its own body, so that it can call itself
    (stmts known true body (((w.declare name).define name).enterFunction params)).leave
  | .result _ keyword value, w =>
    expr known none value (if inFunction then w else w.note keyword .topLevelReturn)

/-- Walk over statements in order. -/
def stmts (known : Bytes → Bool) (inFunction : Bool) : List Stmt → Walk → Walk
  | [], w => w
  | s :: rest, w => stmts known inFunction rest (stmt known inFunction s w)

end

end Walk

/-- The result of resolving a program. -/
structure Resolved where
  resolution : Resolution
  diagnostics : List Diagnostic

namespace Resolution

/-- The resolution with these entries, of which an earlier one wins over a later one. -/
def ofEntries (entries : List (Nat × Nat)) : Resolution :=
  entries.foldr (fun (id, hops) r => r.insert id (hops : Int)) ∅

/-- Add entries; a new one replaces an old one of the same node. -/
def merge (old new : Resolution) : Resolution :=
  new.foldl (fun r id hops => r.insert id hops) old

end Resolution

/-- Resolve a program, where `known` tells the globals that exist before it runs. -/
def resolve (known : Bytes → Bool) (program : Program) : Resolved :=
  let w := Walk.stmts known false program Walk.start
  ⟨Resolution.ofEntries w.entries, w.faults.map ResolveFault.diagnostic⟩

end Lox
