/-
Lexical scoping, without distances and without frames.

# What programs mean

This machine says what programs mean. It works as the machine that runs them does, one step for one
step, and differs from it only in how a name is found. Local scopes are a stack of maps from names
to cells, the innermost first. Neither the stack nor a map in it ever changes; only cells do. A name
is looked for from the innermost map outwards each time it is used, and in the global table last.

# Declarations

A declaration makes a new innermost map that has the name, with the cell the name already has there
or else with a new one, which is unbound (`Cells.declare`). The stack that is made so is the one in
which the declaration itself is carried out, and the statements after it (`declaring`). So a
variable is in scope in its own initializer, where its cell is not bound yet; and a second
declaration of a name in one scope sets the same cell again.

# Functions

A function keeps the stack in force at its declaration, so it never sees a name declared later. That
it sees later changes of the names it has is because it shares their cells. It is called in a new
scope with its parameters, inside the scopes of its declaration (`invoke`).

There is no resolution and no distance here, and nothing is found by counting scopes. That the
machine which does so comes to the same is the matter of the modules about frames.
-/
import Lox.Machine
import Lox.Proofs.Tree.Identity

namespace Lox.Lexical

/-- Where a cell is kept in memory. -/
abbrev CellRef := Nat

/-- The names that one scope declares, with their cells. -/
abbrev Names := List (Bytes × CellRef)

/-- The local scopes, the innermost first; none at top level. -/
abbrev Scopes := List Names

/-- The cell of a name, in the innermost scope that has it. -/
def Scopes.find? (name : Bytes) : Scopes → Option CellRef
  | [] => none
  | names :: outer => (names.lookup name).or (find? name outer)

-- ==== Cells

/-- The cells of local variables, an unbound one with nothing in it; the global table; and the last
identity given to a function. -/
structure Cells where
  slots : Array (Option (Value Scopes))
  globals : Bindings Scopes
  issued : Nat

namespace Cells

/-- What a cell holds. -/
def cell? (mem : Cells) (ref : CellRef) : Option (Value Scopes) :=
  (mem.slots[ref]?).join

/-- Put a value in a cell. -/
def setCell (mem : Cells) (ref : CellRef) (v : Value Scopes) : Cells :=
  { mem with slots := mem.slots.setIfInBounds ref (some v) }

/-- Set a global. -/
def setGlobal (mem : Cells) (name : Bytes) (v : Value Scopes) : Cells :=
  { mem with globals := mem.globals.set name v }

/-- The value of a name: what its cell holds, or else what the global table says. -/
def value? (mem : Cells) (scopes : Scopes) (name : Bytes) : Option (Value Scopes) :=
  match scopes.find? name with
  | some ref => mem.cell? ref
  | none => mem.globals.lookup name

/-- The value of a name, which has to have one. -/
def read (mem : Cells) (scopes : Scopes) (name : Bytes) : Except BindingFault (Value Scopes) :=
  match mem.value? scopes name with
  | some v => .ok v
  | none => .error (.undefined name)

/-- Replace the value of a name; one that has no value cannot be assigned. A name that is declared
but has no value yet is found and fails: the ones further out are not looked at. -/
def assign (mem : Cells) (scopes : Scopes) (name : Bytes) (v : Value Scopes) :
    Except BindingFault Cells :=
  if (mem.value? scopes name).isSome then
    match scopes.find? name with
    | some ref => .ok (mem.setCell ref v)
    | none => .ok (mem.setGlobal name v)
  else .error (.undefined name)

/-- Put a name in the innermost scope; top level has none. A name that is there already keeps its
cell, and any other one gets a new cell without a value. -/
def declare (mem : Cells) (scopes : Scopes) (name : Bytes) : Scopes × Cells :=
  match scopes with
  | [] => ([], mem)
  | names :: outer =>
    match names.lookup name with
    | some _ => (names :: outer, mem)
    | none =>
      (((name, mem.slots.size) :: names) :: outer, { mem with slots := mem.slots.push none })

/-- Set the name that a declaration has put in the innermost scope, or a global. There is a cell for
it, since it was declared before. -/
def define (mem : Cells) (scopes : Scopes) (name : Bytes) (v : Value Scopes) : Cells :=
  match scopes with
  | [] => mem.setGlobal name v
  | names :: _ =>
    match names.lookup name with
    | some ref => mem.setCell ref v
    | none => mem

/-- A function declared in these scopes, with an identity of its own. -/
def closure (mem : Cells) (code : Code) (scopes : Scopes) : Closure Scopes × Cells :=
  (⟨mem.issued + 1, some code, scopes⟩, { mem with issued := mem.issued + 1 })

/-- Put parameters in the innermost scope, from left to right. -/
def bindParams (mem : Cells) (scopes : Scopes) : List (Token × Value Scopes) → Scopes × Cells
  | [] => (scopes, mem)
  | (param, arg) :: rest =>
    let (scopes, mem) := mem.declare scopes param.lexeme
    bindParams (mem.define scopes param.lexeme arg) scopes rest

end Cells

-- ==== Machine

/-- What is done next, the work that waits, the cells, and what the machine that runs programs has
besides. -/
structure Machine where
  control : Control Scopes
  stack : List (Pending Scopes)
  memory : Cells
  sink : Sink
  depth : Nat
  calls : Nat

/-- The one function of the host tells the time. -/
def hostCall (reading : Nat → Float) (calls : Nat) (f : Native) : Except Bytes (Value Scopes) :=
  if f.ident = 0 then .ok (.number (reading calls)) else .ok .void

namespace Machine

/-- Call a function with the right number of arguments: its body runs in a new scope, which has the
parameters, inside the scopes of its declaration. -/
def invoke (m : Machine) (paren : Token) (f : Closure Scopes) (args : List (Value Scopes)) :
    Machine :=
  if Lox.Machine.maxDepth ≤ m.depth then { m with control := .fail (.raised paren .tooDeep) }
  else match f.code with
    | none => { m with control := .fail .noCode }
    | some code =>
      let (scopes, memory) := m.memory.bindParams ([] :: f.env) (code.params.zip args)
      { m with
        control := .yield .nil
        stack := .sequence code.body scopes :: .invoked :: m.stack
        memory := memory
        depth := m.depth + 1 }

/-- Call a value: a function, or the clock. -/
def apply (reading : Nat → Float) (m : Machine) (paren : Token) (callee : Value Scopes)
    (args : List (Value Scopes)) : Machine :=
  match callee.arity? with
  | none => { m with control := .fail (.raised paren .notCallable) }
  | some arity =>
    if (args.length : Int) ≠ arity then
      { m with control := .fail (.raised paren (.wrongArity arity args.length)) }
    else match callee with
      | .function f => m.invoke paren f args
      | .native f =>
        { m with control := .answer paren (hostCall reading m.calls f), calls := m.calls + 1 }
      | _ => { m with control := .fail (.raised paren .notCallable) }

/-- Evaluate the next argument, or make the call. -/
def passArguments (reading : Nat → Float) (m : Machine) (id : Nat) (paren : Token)
    (callee : Value Scopes) (before : List (Value Scopes)) (rest : List Expr) (scopes : Scopes) :
    Machine :=
  match rest with
  | [] => m.apply reading paren callee before.reverse
  | e :: rest =>
    { m with
      control := .eval e scopes
      stack := .argument id paren callee before rest scopes :: m.stack }

/-- Look at an expression. A name is looked for in the scopes at this moment, and all else goes on
to its parts, in the same scopes. -/
def evalStep (m : Machine) (e : Expr) (scopes : Scopes) : Machine :=
  match e with
  | .absent => { m with control := .fail .absentExpression }
  | .literal _ value =>
    match Value.ofLiteral? value with
    | some v => { m with control := .yield v }
    | none => { m with control := .fail .hostLiteral }
  | .grouping _ inner => { m with control := .eval inner scopes }
  | .unary id operator operand =>
    { m with control := .eval operand scopes, stack := .unary id operator :: m.stack }
  | .binary id left operator right =>
    { m with control := .eval left scopes, stack := .left id operator right scopes :: m.stack }
  | .logical _ left operator right =>
    { m with control := .eval left scopes, stack := .decide operator right scopes :: m.stack }
  | .assign id name value =>
    { m with control := .eval value scopes, stack := .assign id name scopes :: m.stack }
  | .ident _ name =>
    match m.memory.read scopes name.lexeme with
    | .ok v => { m with control := .yield v }
    | .error fault => { m with control := .fail (.raised name (.binding fault)) }
  | .call id callee paren arguments =>
    { m with
      control := .eval callee scopes
      stack := .callee id paren arguments scopes :: m.stack }

/-- Look at a statement. The scopes already have the name it declares, so that a variable can be set
there when its value is known, and a function keeps scopes in which it finds itself. -/
def execStep (m : Machine) (s : Stmt) (scopes : Scopes) : Machine :=
  match s with
  | .absent => { m with control := .yield .nil }
  | .expression _ value => { m with control := .eval value scopes, stack := .discard :: m.stack }
  | .print _ value => { m with control := .eval value scopes, stack := .print :: m.stack }
  | .var _ name .absent =>
    { m with control := .yield .nil, memory := m.memory.define scopes name.lexeme .nil }
  | .var _ name initializer =>
    { m with control := .eval initializer scopes, stack := .bind name scopes :: m.stack }
  | .block _ body =>
    { m with control := .yield .nil, stack := .sequence body ([] :: scopes) :: m.stack }
  | .branch _ condition positive negative =>
    { m with
      control := .eval condition scopes
      stack := .choose positive negative scopes :: m.stack }
  | .loop _ condition body =>
    { m with
      control := .eval condition scopes
      stack := .loopTest condition body scopes :: m.stack }
  | .function _ name params body =>
    let (f, memory) := m.memory.closure ⟨name, params, body⟩ scopes
    { m with
      control := .yield .nil
      memory := memory.define scopes name.lexeme (.function f) }
  | .result _ _ .absent => { m with control := .leave .nil }
  | .result _ _ value => { m with control := .eval value scopes, stack := .result :: m.stack }

/-- The scopes in which a statement and those after it are carried out. -/
def declaring (memory : Cells) (scopes : Scopes) (s : Stmt) : Scopes × Cells :=
  match s.declared? with
  | some name => memory.declare scopes name.lexeme
  | none => (scopes, memory)

/-- Hand the result `v` to the work `p`, which has been taken off the stack. A sequence declares the
name of its next statement before it carries it out, and goes on in the scopes with the name. -/
def resumeStep (reading : Nat → Float) (m : Machine) (p : Pending Scopes) (v : Value Scopes) :
    Machine :=
  match p with
  | .unary _ operator => { m with control := .settle (applyUnary operator v) }
  | .left id operator right scopes =>
    { m with control := .eval right scopes, stack := .right id operator v :: m.stack }
  | .right _ operator left => { m with control := .settle (applyBinary operator left v) }
  | .decide operator right scopes =>
    if v.isTruthy = decide (operator.kind = .or) then { m with control := .yield v }
    else { m with control := .eval right scopes }
  | .assign _ name scopes =>
    match m.memory.assign scopes name.lexeme v with
    | .ok memory => { m with control := .yield v, memory := memory }
    | .error fault => { m with control := .fail (.raised name (.binding fault)) }
  | .callee id paren arguments scopes => m.passArguments reading id paren v [] arguments scopes
  | .argument id paren callee before rest scopes =>
    m.passArguments reading id paren callee (v :: before) rest scopes
  | .invoked => { m with control := .yield .nil, depth := m.depth - 1 }
  | .discard => { m with control := .yield .nil }
  | .print =>
    let sink := m.sink.take (v.display ++ utf8 "\n")
    match m.sink.next? with
    | none => { m with control := .yield .nil, sink := sink }
    | some refusal => { m with control := .fail (.sinkFailed refusal.reason), sink := sink }
  | .bind name scopes =>
    { m with control := .yield .nil, memory := m.memory.define scopes name.lexeme v }
  | .sequence [] _ => { m with control := .yield .nil }
  | .sequence (s :: rest) scopes =>
    let (scopes, memory) := declaring m.memory scopes s
    { m with control := .exec s scopes, stack := .sequence rest scopes :: m.stack, memory := memory }
  | .choose positive negative scopes =>
    { m with control := .exec (if v.isTruthy then positive else negative) scopes }
  | .loopTest condition body scopes =>
    if v.isTruthy then
      { m with control := .exec body scopes, stack := .loopBody condition body scopes :: m.stack }
    else { m with control := .yield .nil }
  | .loopBody condition body scopes =>
    { m with control := .eval condition scopes, stack := .loopTest condition body scopes :: m.stack }
  | .result => { m with control := .leave v }

/-- One step. With a result, a return or a fault and no work left, a machine stays as it is. -/
def step (reading : Nat → Float) (m : Machine) : Machine :=
  match m with
  | ⟨.eval e scopes, stack, memory, sink, depth, calls⟩ =>
    evalStep ⟨.yield .nil, stack, memory, sink, depth, calls⟩ e scopes
  | ⟨.exec s scopes, stack, memory, sink, depth, calls⟩ =>
    execStep ⟨.yield .nil, stack, memory, sink, depth, calls⟩ s scopes
  | ⟨.yield v, p :: stack, memory, sink, depth, calls⟩ =>
    resumeStep reading ⟨.yield .nil, stack, memory, sink, depth, calls⟩ p v
  | ⟨.leave v, .invoked :: stack, memory, sink, depth, calls⟩ =>
    ⟨.yield v, stack, memory, sink, depth - 1, calls⟩
  | ⟨.leave v, _ :: stack, memory, sink, depth, calls⟩ =>
    ⟨.leave v, stack, memory, sink, depth, calls⟩
  | ⟨.fail f, .invoked :: stack, memory, sink, depth, calls⟩ =>
    ⟨.fail f, stack, memory, sink, depth - 1, calls⟩
  | ⟨.fail f, _ :: stack, memory, sink, depth, calls⟩ =>
    ⟨.fail f, stack, memory, sink, depth, calls⟩
  | ⟨.yield v, [], memory, sink, depth, calls⟩ => ⟨.yield v, [], memory, sink, depth, calls⟩
  | ⟨.leave v, [], memory, sink, depth, calls⟩ => ⟨.leave v, [], memory, sink, depth, calls⟩
  | ⟨.fail f, [], memory, sink, depth, calls⟩ => ⟨.fail f, [], memory, sink, depth, calls⟩

/-- Is there nothing left to do? -/
def isDone (m : Machine) : Bool :=
  match m.control, m.stack with
  | .yield _, [] => true
  | .leave _, [] => true
  | .fail _, [] => true
  | _, _ => false

/-- Steps until there is nothing left to do, but no more than `fuel`. -/
def run (reading : Nat → Float) : Nat → Machine → Machine
  | 0, m => m
  | fuel + 1, m => if m.isDone then m else run reading fuel (m.step reading)

/-- A program at its start, with the clock as the only global. -/
def start (sink : Sink) (program : Program) : Machine :=
  ⟨.yield .nil, [.sequence program []], ⟨#[], [(utf8 "clock", .native ⟨0, 0⟩)], 0⟩, sink, 0, 0⟩

end Machine

end Lox.Lexical
