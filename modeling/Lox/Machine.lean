/-
Running programs, one step at a time.

# Control and stack

A machine has something to do next (`Control`) and a stack of work that waits for it (`Pending`).
Doing a step either looks at one node of the tree, leaving work for later on the stack, or hands a
result to the work on top of the stack. A statement that is done hands over nil.

A return and a fault take work off the stack: a return up to the call it belongs to, a fault all of
it. So nothing of a program lives on the stack of the host, and the depth of calls is bounded by a
counter and by nothing else (`maxDepth`).

# Variables

A name is found by the distance that was recorded for its node: so many frames out from the frame at
hand, or in the global frame if there is none. There is no search from frame to frame.

# The host

The clock and whatever else a host offers are functions that the machine calls by number, telling
how many calls the host took before. The text that a step prints, and the call that it makes, can be
seen before the step is taken (`prints?`, `calling?`), so that a shell can do its part of it.

`step` is total and does not recur, and `run` repeats it.
-/
import Lox.Fault
import Lox.Sink
import Lox.Resolution

namespace Lox

/-- A function of the host: it answers with a value or fails with a text. -/
abbrev HostFunction := List Value → Except Bytes Value

/-- What a program runs with: the distances of local variables and the host's functions. What a
function of the host does may depend on the number of calls that the host took before, as the
reading of a clock does. -/
structure Host where
  resolution : Resolution
  functions : Array (Nat → HostFunction)

namespace Host

/-- Call a function of the host, after so many other calls. -/
def call (h : Host) (calls : Nat) (f : Native) (args : List Value) : Except Bytes Value :=
  match h.functions[f.ident]? with
  | some function => function calls args
  | none => .ok .void

end Host

/-- What a machine does next. -/
inductive Control (Env : Type := FrameRef) where
  /-- Evaluate an expression in an environment. -/
  | eval (e : Expr) (env : Env)
  /-- Carry out a statement in an environment. -/
  | exec (s : Stmt) (env : Env)
  /-- Hand a result to the waiting work. -/
  | yield (v : Value Env)
  /-- Return from the innermost call. -/
  | leave (v : Value Env)
  /-- Give up because of a fault. -/
  | fail (f : Fault)

/-- Work that waits for a result. Work that can fail at a token knows the node it belongs to. -/
inductive Pending (Env : Type := FrameRef) where
  /-- Apply an operator to the result. -/
  | unary (id : Nat) (operator : Token)
  /-- Evaluate the right operand. -/
  | left (id : Nat) (operator : Token) (right : Expr) (env : Env)
  /-- Apply an operator to the left operand and the result. -/
  | right (id : Nat) (operator : Token) (left : Value Env)
  /-- Evaluate the right operand unless the result decides. -/
  | decide (operator : Token) (right : Expr) (env : Env)
  /-- Assign the result. -/
  | assign (id : Nat) (name : Token) (env : Env)
  /-- Evaluate the arguments of a call. -/
  | callee (id : Nat) (paren : Token) (arguments : List Expr) (env : Env)
  /-- Evaluate the arguments that are left, after those before the result; the latest is first. -/
  | argument (id : Nat) (paren : Token) (callee : Value Env) (before : List (Value Env))
    (rest : List Expr) (env : Env)
  /-- Come back from the body of a function. -/
  | invoked
  /-- Drop the result. -/
  | discard
  /-- Print the result. -/
  | print
  /-- Bind the result. -/
  | bind (name : Token) (env : Env)
  /-- Carry out the statements that are left. -/
  | sequence (rest : List Stmt) (env : Env)
  /-- Choose a branch by the result. -/
  | choose (positive negative : Stmt) (env : Env)
  /-- Carry out a loop's body if the result says so. -/
  | loopTest (condition : Expr) (body : Stmt) (env : Env)
  /-- Test a loop's condition again. -/
  | loopBody (condition : Expr) (body : Stmt) (env : Env)
  /-- Return the result. -/
  | result

/-- A machine in the middle of its work. -/
structure Machine where
  control : Control
  /-- The waiting work, what comes first on top. -/
  stack : List Pending
  store : Store
  sink : Sink
  /-- How many calls of functions with code are under way. -/
  depth : Nat
  /-- How many calls the host took. -/
  calls : Nat

-- ==== Operators

section Operators

variable {Env : Type}

/-- The number operators: arithmetic and comparison. -/
def applyArithmetic (operator : Token) (x y : Float) : Except Fault (Value Env) :=
  match operator.kind with
  | .minus => .ok (.number (x - y))
  | .star => .ok (.number (x * y))
  | .slash => .ok (.number (x / y))
  | .greater => .ok (.bool (y < x))
  | .greaterEqual => .ok (.bool (y ≤ x))
  | .less => .ok (.bool (x < y))
  | .lessEqual => .ok (.bool (x ≤ y))
  | _ => .error (.binaryOperator operator.lexeme)

/-- The sum of two numbers, or two texts one after the other. -/
def applyPlus (operator : Token) : Value Env → Value Env → Except Fault (Value Env)
  | .string s, .string t => .ok (.string (s ++ t))
  | .number x, .number y => .ok (.number (x + y))
  | _, _ => .error (.raised operator .operandsMixed)

/-- The operators that only take numbers. -/
def applyNumeric (operator : Token) : Value Env → Value Env → Except Fault (Value Env)
  | .number x, .number y => applyArithmetic operator x y
  | _, _ => .error (.raised operator .operandsNotNumbers)

/-- The value of an operator between two operands. -/
def applyBinary (operator : Token) (left right : Value Env) : Except Fault (Value Env) :=
  match operator.kind with
  | .equalEqual => .ok (.bool (left.equals right))
  | .bangEqual => .ok (.bool (!left.equals right))
  | .plus => applyPlus operator left right
  | _ => applyNumeric operator left right

/-- The value of an operator before its operand. -/
def applyUnary (operator : Token) (operand : Value Env) : Except Fault (Value Env) :=
  match operator.kind with
  | .minus =>
    match operand with
    | .number x => .ok (.number (-x))
    | _ => .error (.raised operator .operandNotNumber)
  | .bang => .ok (.bool (!operand.isTruthy))
  | _ => .error (.unaryOperator operator.lexeme)

/-- Hand on a result, or give up. -/
def Control.settle : Except Fault (Value Env) → Control Env
  | .ok v => .yield v
  | .error f => .fail f

/-- The answer of a host function; one that has nothing to say answers nil. -/
def Control.answer (paren : Token) : Except Bytes (Value Env) → Control Env
  | .ok .void => .yield .nil
  | .ok v => .yield v
  | .error text => .fail (.raised paren (.native text))

/-- Go on after printing, unless the sink refused the text. -/
def Control.printed : Option Refusal → Control Env
  | none => .yield .nil
  | some r => .fail (.sinkFailed r.reason)

end Operators

namespace Machine

/-- The most calls that may be under way at once. -/
def maxDepth : Nat := 16384

-- ==== Variables

/-- The value of a variable: in the frame that its distance tells, or else the global frame. -/
def readName (host : Host) (store : Store) (id : Nat) (name : Token) (env : FrameRef) :
    Except BindingFault Value :=
  match host.resolution[id]? with
  | some hops => store.getAt env hops name.lexeme
  | none => store.get Store.global name.lexeme

/-- The frame in which a variable is assigned, found in the same way; it has to bind the variable.
-/
def findName (host : Host) (store : Store) (id : Nat) (name : Token) (env : FrameRef) :
    Except BindingFault FrameRef :=
  match host.resolution[id]? with
  | some hops => store.boundAt env hops name.lexeme
  | none => store.bound Store.global name.lexeme

-- ==== Calls

/-- Bind parameters to arguments in a frame, from left to right. -/
def bindParams (store : Store) (env : FrameRef) (params : List Token) (args : List Value) :
    Store :=
  (params.zip args).foldl (fun s (param, arg) => s.define env param.lexeme arg) store

/-- Call a function with the right number of arguments: its body runs in a new frame under the frame
it was declared in. -/
def invoke (m : Machine) (paren : Token) (f : Closure) (args : List Value) : Machine :=
  if maxDepth ≤ m.depth then { m with control := .fail (.raised paren .tooDeep) }
  else match f.code with
    | none => { m with control := .fail .noCode }
    | some code =>
      -- the frame that is added next
      let env := m.store.nextRef
      { m with
        control := .yield .nil
        stack := .sequence code.body env :: .invoked :: m.stack
        store := bindParams (m.store.add (some f.env)) env code.params args
        depth := m.depth + 1 }

/-- Call a value. -/
def apply (host : Host) (m : Machine) (paren : Token) (callee : Value) (args : List Value) :
    Machine :=
  match callee.arity? with
  | none => { m with control := .fail (.raised paren .notCallable) }
  | some arity =>
    if (args.length : Int) ≠ arity then
      { m with control := .fail (.raised paren (.wrongArity arity args.length)) }
    else match callee with
      | .function f => m.invoke paren f args
      | .native f =>
        { m with control := .answer paren (host.call m.calls f args), calls := m.calls + 1 }
      | _ => { m with control := .fail (.raised paren .notCallable) }

/-- Evaluate the next argument, or call if there is none left. -/
def passArguments (host : Host) (m : Machine) (id : Nat) (paren : Token) (callee : Value)
    (before : List Value) (rest : List Expr) (env : FrameRef) : Machine :=
  match rest with
  | [] => m.apply host paren callee before.reverse
  | e :: rest =>
    { m with control := .eval e env, stack := .argument id paren callee before rest env :: m.stack }

-- ==== Steps

/-- Look at an expression. -/
def evalStep (host : Host) (m : Machine) (e : Expr) (env : FrameRef) : Machine :=
  match e with
  | .absent => { m with control := .fail .absentExpression }
  | .literal _ value =>
    match Value.ofLiteral? value with
    | some v => { m with control := .yield v }
    | none => { m with control := .fail .hostLiteral }
  | .grouping _ inner => { m with control := .eval inner env }
  | .unary id operator operand =>
    { m with control := .eval operand env, stack := .unary id operator :: m.stack }
  | .binary id left operator right =>
    { m with control := .eval left env, stack := .left id operator right env :: m.stack }
  | .logical _ left operator right =>
    { m with control := .eval left env, stack := .decide operator right env :: m.stack }
  | .assign id name value =>
    { m with control := .eval value env, stack := .assign id name env :: m.stack }
  | .ident id name =>
    match readName host m.store id name env with
    | .ok v => { m with control := .yield v }
    | .error fault => { m with control := .fail (.raised name (.binding fault)) }
  | .call id callee paren arguments =>
    { m with control := .eval callee env, stack := .callee id paren arguments env :: m.stack }

/-- Look at a statement. -/
def execStep (m : Machine) (s : Stmt) (env : FrameRef) : Machine :=
  match s with
  | .absent => { m with control := .yield .nil }
  | .expression _ value => { m with control := .eval value env, stack := .discard :: m.stack }
  | .print _ value => { m with control := .eval value env, stack := .print :: m.stack }
  | .var _ name .absent =>
    { m with control := .yield .nil, store := m.store.define env name.lexeme .nil }
  | .var _ name initializer =>
    { m with control := .eval initializer env, stack := .bind name env :: m.stack }
  | .block _ body =>
    { m with
      control := .yield .nil
      stack := .sequence body m.store.nextRef :: m.stack
      store := m.store.add (some env) }
  | .branch _ condition positive negative =>
    { m with control := .eval condition env, stack := .choose positive negative env :: m.stack }
  | .loop _ condition body =>
    { m with control := .eval condition env, stack := .loopTest condition body env :: m.stack }
  | .function _ name params body =>
    let (f, store) := m.store.closure (some ⟨name, params, body⟩) env
    { m with control := .yield .nil, store := store.define env name.lexeme (.function f) }
  | .result _ _ .absent => { m with control := .leave .nil }
  | .result _ _ value => { m with control := .eval value env, stack := .result :: m.stack }

/-- Hand the result `v` to the work `p`, which has been taken off the stack. -/
def resumeStep (host : Host) (m : Machine) (p : Pending) (v : Value) : Machine :=
  match p with
  | .unary _ operator => { m with control := .settle (applyUnary operator v) }
  | .left id operator right env =>
    { m with control := .eval right env, stack := .right id operator v :: m.stack }
  | .right _ operator left => { m with control := .settle (applyBinary operator left v) }
  | .decide operator right env =>
    -- an `or` is decided by a true operand, an `and` by one that is not
    if v.isTruthy = decide (operator.kind = .or) then { m with control := .yield v }
    else { m with control := .eval right env }
  | .assign id name env =>
    match findName host m.store id name env with
    | .ok ref => { m with control := .yield v, store := m.store.define ref name.lexeme v }
    | .error fault => { m with control := .fail (.raised name (.binding fault)) }
  | .callee id paren arguments env => m.passArguments host id paren v [] arguments env
  | .argument id paren callee before rest env =>
    m.passArguments host id paren callee (v :: before) rest env
  | .invoked => { m with control := .yield .nil, depth := m.depth - 1 }
  | .discard => { m with control := .yield .nil }
  | .print =>
    { m with control := .printed m.sink.next?, sink := m.sink.take (v.display ++ utf8 "\n") }
  | .bind name env => { m with control := .yield .nil, store := m.store.define env name.lexeme v }
  | .sequence [] _ => { m with control := .yield .nil }
  | .sequence (s :: rest) env =>
    { m with control := .exec s env, stack := .sequence rest env :: m.stack }
  | .choose positive negative env =>
    { m with control := .exec (if v.isTruthy then positive else negative) env }
  | .loopTest condition body env =>
    if v.isTruthy then
      { m with control := .exec body env, stack := .loopBody condition body env :: m.stack }
    else { m with control := .yield .nil }
  | .loopBody condition body env =>
    { m with control := .eval condition env, stack := .loopTest condition body env :: m.stack }
  | .result => { m with control := .leave v }

/-- One step. With a result, a return or a fault and no work left, a machine stays as it is. -/
def step (host : Host) (m : Machine) : Machine :=
  match m with
  | ⟨.eval e env, stack, store, sink, depth, calls⟩ =>
    evalStep host ⟨.yield .nil, stack, store, sink, depth, calls⟩ e env
  | ⟨.exec s env, stack, store, sink, depth, calls⟩ =>
    execStep ⟨.yield .nil, stack, store, sink, depth, calls⟩ s env
  | ⟨.yield v, p :: stack, store, sink, depth, calls⟩ =>
    resumeStep host ⟨.yield .nil, stack, store, sink, depth, calls⟩ p v
  -- a return comes to its call, where it is the result; a fault goes on
  | ⟨.leave v, .invoked :: stack, store, sink, depth, calls⟩ =>
    ⟨.yield v, stack, store, sink, depth - 1, calls⟩
  | ⟨.leave v, _ :: stack, store, sink, depth, calls⟩ =>
    ⟨.leave v, stack, store, sink, depth, calls⟩
  | ⟨.fail f, .invoked :: stack, store, sink, depth, calls⟩ =>
    ⟨.fail f, stack, store, sink, depth - 1, calls⟩
  | ⟨.fail f, _ :: stack, store, sink, depth, calls⟩ => ⟨.fail f, stack, store, sink, depth, calls⟩
  | ⟨.yield v, [], store, sink, depth, calls⟩ => ⟨.yield v, [], store, sink, depth, calls⟩
  | ⟨.leave v, [], store, sink, depth, calls⟩ => ⟨.leave v, [], store, sink, depth, calls⟩
  | ⟨.fail f, [], store, sink, depth, calls⟩ => ⟨.fail f, [], store, sink, depth, calls⟩

-- ==== What a step asks for

/-- The text that the next step hands to the sink. -/
def prints? (m : Machine) : Option Bytes :=
  match m.control, m.stack with
  | .yield v, .print :: _ => some (v.display ++ utf8 "\n")
  | _, _ => none

/-- Does the next step print? -/
def isPrinting (m : Machine) : Bool :=
  match m.control, m.stack with
  | .yield _, .print :: _ => true
  | _, _ => false

/-- The call that the next step makes: its parenthesis, the value that is called, the arguments. -/
def calling? (m : Machine) : Option (Token × Value × List Value) :=
  match m.control, m.stack with
  | .yield v, .callee _ paren [] _ :: _ => some (paren, v, [])
  | .yield v, .argument _ paren callee before [] _ :: _ =>
    some (paren, callee, (v :: before).reverse)
  | _, _ => none

/-- Does a call of this value lead to the host? -/
def isHostCall (callee : Value) (args : List Value) : Bool :=
  match callee with
  | .native f => (args.length : Int) = f.arity
  | _ => false

/-- Does the next step call a function of the host? -/
def asksHost (m : Machine) : Bool :=
  match m.calling? with
  | some (_, callee, args) => isHostCall callee args
  | none => false

-- ==== Runs

/-- Is there nothing left to do? -/
def isDone (m : Machine) : Bool :=
  match m.control, m.stack with
  | .yield _, [] => true
  | .leave _, [] => true
  | .fail _, [] => true
  | _, _ => false

/-- Steps until there is nothing left to do, but no more than `fuel`. -/
def run (host : Host) : Nat → Machine → Machine
  | 0, m => m
  | fuel + 1, m => if m.isDone then m else run host fuel (m.step host)

end Machine

end Lox
