/-
Machines whose trees have other identities.

A machine uses the identity of a node only to look up its distance. So if the nodes of a machine are
renamed, also in the functions that its frames bind, and the distances are recorded at the new
identities, then it takes the same steps (`Machine.step_renamed`, `Machine.run_renamed`).

# Renaming is a function

Other than a machine whose program is moved, a renamed one is given by a function: renaming all
nodes of all trees in it (`Machine.renamed`). So all that is said here are equations: an operation
on something renamed is what it was, renamed. They go from values and operators over frames to the
parts of a step, and each is proved from those before it by cases.

Operators see nothing of a function's code, so renaming changes neither what they come to nor what
they fail with. Frames are renamed binding by binding, and each look into a store gives what it
gave, renamed. Of the host two things are asked (`Host.Renamed`): the distances at the new
identities, and that its functions do not look at the identities of nodes.
-/
import Lox.Interpreter
import Lox.Proofs.Scope.Renamed
import Lox.Proofs.Store.Change

namespace Lox

variable {g : Nat → Nat} {host host' : Host}

-- ==== Values

/-- The function with `g` applied to the identity of each node of its code. -/
def Closure.renamed (g : Nat → Nat) (f : Closure) : Closure :=
  { f with code := f.code.map fun code => { code with body := Stmt.renamedAll g code.body } }

/-- The value with `g` applied to the identity of each node of its code. -/
def Value.renamed (g : Nat → Nat) : Value → Value
  | .function f => .function (f.renamed g)
  | v => v

namespace Value

@[simp] theorem isTruthy_renamed (v : Value) : (v.renamed g).isTruthy = v.isTruthy := by
  cases v <;> rfl

/-- A function is shown by its name. -/
@[simp] theorem display_renamed (v : Value) : (v.renamed g).display = v.display := by
  cases v with
  | function f =>
      obtain ⟨ident, _ | code, env⟩ := f
      · rfl
      · rfl
  | _ => rfl

@[simp] theorem arity?_renamed (v : Value) : (v.renamed g).arity? = v.arity? := by
  cases v with
  | function f =>
      obtain ⟨ident, _ | code, env⟩ := f
      · rfl
      · rfl
  | _ => rfl

/-- Functions are compared by their own identities, not by those of their nodes. -/
@[simp] theorem equals_renamed (v w : Value) : (v.renamed g).equals (w.renamed g) = v.equals w := by
  cases v <;> cases w <;> rfl

end Value

-- ==== Operators

theorem applyArithmetic_renamed (operator : Token) (x y : Float) :
    (applyArithmetic operator x y).map (Value.renamed g) = applyArithmetic operator x y := by
  unfold applyArithmetic
  split <;> rfl

theorem applyNumeric_renamed (operator : Token) (left right : Value) :
    applyNumeric operator (left.renamed g) (right.renamed g) =
      (applyNumeric operator left right).map (Value.renamed g) := by
  cases left with
  | number x =>
      cases right with
      | number y => exact (applyArithmetic_renamed operator x y).symm
      | _ => rfl
  | _ => rfl

theorem applyPlus_renamed (operator : Token) (left right : Value) :
    applyPlus operator (left.renamed g) (right.renamed g) =
      (applyPlus operator left right).map (Value.renamed g) := by
  cases left <;> cases right <;> rfl

/-- An operator between two operands comes to the same, renamed. -/
theorem applyBinary_renamed (operator : Token) (left right : Value) :
    applyBinary operator (left.renamed g) (right.renamed g) =
      (applyBinary operator left right).map (Value.renamed g) := by
  unfold applyBinary
  split
  · rw [Value.equals_renamed]
    rfl
  · rw [Value.equals_renamed]
    rfl
  · exact applyPlus_renamed operator left right
  · exact applyNumeric_renamed operator left right

/-- So does one before an operand. -/
theorem applyUnary_renamed (operator : Token) (v : Value) :
    applyUnary operator (v.renamed g) = (applyUnary operator v).map (Value.renamed g) := by
  unfold applyUnary
  split
  · cases v <;> rfl
  · rw [Value.isTruthy_renamed]
    rfl
  · rfl

-- ==== Frames

namespace Table

variable {α β : Type} (f : α → β) (name : Bytes)

/-- Looking up a name among values that were changed one by one. -/
theorem lookup_map (table : Table α) :
    (table.map fun entry => (entry.1, f entry.2)).lookup name = (table.lookup name).map f := by
  induction table with
  | nil => rfl
  | cons entry rest ih =>
      rw [List.map_cons, List.lookup_cons, List.lookup_cons, ih]
      cases name == entry.1 <;> rfl

/-- Setting a name among values that were changed one by one. -/
theorem set_map (value : α) (table : Table α) :
    (set name value table).map (fun entry => (entry.1, f entry.2)) =
      set name (f value) (table.map fun entry => (entry.1, f entry.2)) := by
  induction table with
  | nil => rfl
  | cons entry rest ih =>
      obtain ⟨other, v⟩ := entry
      simp only [set, List.map_cons]
      split
      · rfl
      · rw [List.map_cons, ih]

end Table

/-- The frame with the functions that it binds renamed. -/
def Frame.renamed (g : Nat → Nat) (f : Frame) : Frame :=
  { f with bindings := f.bindings.map fun entry => (entry.1, entry.2.renamed g) }

/-- The frames with the functions that they bind renamed. -/
def Store.renamed (g : Nat → Nat) (s : Store) : Store :=
  { s with frames := s.frames.map (Frame.renamed g) }

namespace Store

variable {s : Store} {ref env : FrameRef} {name : Bytes}

/-- A frame binds the same names, to values that are renamed. -/
@[simp] theorem lookup?_renamed :
    (s.renamed g).lookup? ref name = (s.lookup? ref name).map (Value.renamed g) := by
  unfold lookup? renamed
  rw [Array.getElem?_map]
  cases s.frames[ref]? with
  | none => rfl
  | some f => exact Table.lookup_map (Value.renamed g) name f.bindings

/-- Frames keep their parents. -/
@[simp] theorem parent?_renamed : (s.renamed g).parent? ref = s.parent? ref := by
  unfold parent? renamed
  rw [Array.getElem?_map]
  cases s.frames[ref]? <;> rfl

theorem ancestor_renamed (hops : Int) : (s.renamed g).ancestor ref hops = s.ancestor ref hops :=
  ancestor_congr (fun _ => parent?_renamed) ref hops

/-- Reading gives the same value, renamed, or the same fault. -/
theorem get_renamed : (s.renamed g).get ref name = (s.get ref name).map (Value.renamed g) := by
  unfold get
  rw [lookup?_renamed]
  cases s.lookup? ref name <;> rfl

theorem bound_renamed : (s.renamed g).bound ref name = s.bound ref name := by
  unfold bound
  rw [lookup?_renamed, Option.isSome_map]

theorem getAt_renamed (hops : Int) :
    (s.renamed g).getAt ref hops name = (s.getAt ref hops name).map (Value.renamed g) := by
  unfold getAt
  rw [ancestor_renamed]
  cases s.ancestor ref hops with
  | ok ancestor => exact get_renamed
  | error fault => rfl

theorem boundAt_renamed (hops : Int) :
    (s.renamed g).boundAt ref hops name = s.boundAt ref hops name := by
  unfold boundAt
  rw [ancestor_renamed]
  cases s.ancestor ref hops with
  | ok ancestor => exact bound_renamed
  | error fault => rfl

/-- Binding a name. -/
theorem define_renamed (s : Store) (ref : FrameRef) (name : Bytes) (v : Value) :
    (s.define ref name v).renamed g = (s.renamed g).define ref name (v.renamed g) := by
  unfold define renamed
  congr 1
  refine Array.ext_getElem? fun i => ?_
  rw [Array.getElem?_map, Array.getElem?_modify, Array.getElem?_modify, Array.getElem?_map]
  split
  · cases s.frames[i]? with
    | none => rfl
    | some f =>
        have hset := Table.set_map (Value.renamed g) name v f.bindings
        simp only [Option.map_some, Frame.renamed, hset]
  · rfl

/-- Adding a frame. -/
theorem add_renamed (parent : Option FrameRef) :
    (s.add parent).renamed g = (s.renamed g).add parent := by
  unfold add renamed
  rw [Array.map_push]
  rfl

@[simp] theorem nextRef_renamed : (s.renamed g).nextRef = s.nextRef := Array.size_map

end Store

-- ==== Machines

/-- The work with `g` applied to the identity of each node. -/
def Pending.renamed (g : Nat → Nat) : Pending → Pending
  | .unary id operator => .unary (g id) operator
  | .left id operator operand env => .left (g id) operator (operand.renamed g) env
  | .right id operator v => .right (g id) operator (v.renamed g)
  | .decide operator operand env => .decide operator (operand.renamed g) env
  | .assign id name env => .assign (g id) name env
  | .callee id paren arguments env => .callee (g id) paren (Expr.renamedAll g arguments) env
  | .argument id paren called before rest env =>
    .argument (g id) paren (called.renamed g) (before.map (Value.renamed g))
      (Expr.renamedAll g rest) env
  | .sequence rest env => .sequence (Stmt.renamedAll g rest) env
  | .choose positive negative env => .choose (positive.renamed g) (negative.renamed g) env
  | .loopTest condition body env => .loopTest (condition.renamed g) (body.renamed g) env
  | .loopBody condition body env => .loopBody (condition.renamed g) (body.renamed g) env
  | p => p

/-- What is done next, with `g` applied to the identity of each node. -/
def Control.renamed (g : Nat → Nat) : Control → Control
  | .eval e env => .eval (e.renamed g) env
  | .exec s env => .exec (s.renamed g) env
  | .yield v => .yield (v.renamed g)
  | .leave v => .leave (v.renamed g)
  | .fail f => .fail f

/-- The machine with `g` applied to the identity of each node. -/
def Machine.renamed (g : Nat → Nat) (m : Machine) : Machine :=
  { m with
    control := m.control.renamed g
    stack := m.stack.map (Pending.renamed g)
    store := m.store.renamed g }

/-- The distances are recorded at the new identities, and functions of the host do the same with
functions that are renamed. -/
structure Host.Renamed (g : Nat → Nat) (host host' : Host) : Prop where
  resolution : host.resolution.Renamed g host'.resolution
  call : ∀ calls f args, host'.call calls f (args.map (Value.renamed g)) =
    (host.call calls f args).map (Value.renamed g)

namespace Control

/-- The outcome of an operator. -/
theorem settle_renamed (result : Except Fault Value) :
    (settle result).renamed g = settle (result.map (Value.renamed g)) := by
  cases result <;> rfl

/-- The answer of the host. -/
theorem answer_renamed (paren : Token) (result : Except Bytes Value) :
    (answer paren result).renamed g = answer paren (result.map (Value.renamed g)) := by
  cases result with
  | error text => rfl
  | ok v => cases v <;> rfl

end Control

namespace Machine

variable {m : Machine}

/-- A name is read at its new identity. -/
theorem readName_renamed (h : host.Renamed g host') (store : Store) (id : Nat) (name : Token)
    (env : FrameRef) :
    readName host' (store.renamed g) (g id) name env =
      (readName host store id name env).map (Value.renamed g) := by
  unfold readName
  rw [h.resolution id]
  cases host.resolution[id]? with
  | none => exact Store.get_renamed
  | some hops => exact Store.getAt_renamed hops

/-- So is the frame that it is assigned in. -/
theorem findName_renamed (h : host.Renamed g host') (store : Store) (id : Nat) (name : Token)
    (env : FrameRef) :
    findName host' (store.renamed g) (g id) name env = findName host store id name env := by
  unfold findName
  rw [h.resolution id]
  cases host.resolution[id]? with
  | none => exact Store.bound_renamed
  | some hops => exact Store.boundAt_renamed hops

/-- The parameters of a call are bound. -/
theorem bindParams_renamed (store : Store) (env : FrameRef) (params : List Token)
    (args : List Value) :
    bindParams (store.renamed g) env params (args.map (Value.renamed g)) =
      (bindParams store env params args).renamed g := by
  unfold bindParams
  induction params generalizing store args with
  | nil => rfl
  | cons param params ih =>
      cases args with
      | nil => rfl
      | cons arg args =>
          simp only [List.map_cons, List.zip_cons_cons, List.foldl_cons]
          rw [← ih, Store.define_renamed]

/-- The body that is entered is the renamed one. -/
theorem invoke_renamed (m : Machine) (paren : Token) (f : Closure) (args : List Value) :
    (m.renamed g).invoke paren (f.renamed g) (args.map (Value.renamed g)) =
      (m.invoke paren f args).renamed g := by
  obtain ⟨ident, code, env⟩ := f
  unfold invoke
  rw [show (m.renamed g).depth = m.depth from rfl]
  split
  · rfl
  · cases code with
    | none => rfl
    | some code =>
        simp only [renamed, Closure.renamed, Option.map_some, Store.nextRef_renamed,
          ← bindParams_renamed, Store.add_renamed]
        rfl

/-- A call of the same value with the same arguments, renamed. -/
theorem apply_renamed (h : host.Renamed g host') (m : Machine) (paren : Token) (callee : Value)
    (args : List Value) :
    (m.renamed g).apply host' paren (callee.renamed g) (args.map (Value.renamed g)) =
      (m.apply host paren callee args).renamed g := by
  unfold apply
  rw [Value.arity?_renamed, List.length_map]
  cases callee.arity? with
  | none => rfl
  | some arity =>
      dsimp only
      split
      · rfl
      · cases callee with
        | function f => exact invoke_renamed m paren f args
        | native f =>
            simp only [Value.renamed, renamed, Control.answer_renamed, h.call]
        | _ => rfl

theorem passArguments_renamed (h : host.Renamed g host') (m : Machine) (id : Nat) (paren : Token)
    (callee : Value) (before : List Value) (rest : List Expr) (env : FrameRef) :
    (m.renamed g).passArguments host' (g id) paren (callee.renamed g) (before.map (Value.renamed g))
        (Expr.renamedAll g rest) env =
      (m.passArguments host id paren callee before rest env).renamed g := by
  cases rest with
  | nil =>
      show (m.renamed g).apply host' paren (callee.renamed g) (before.map _).reverse = _
      rw [← List.map_reverse]
      exact apply_renamed h m paren callee before.reverse
  | cons e rest => rfl

/-- An expression is evaluated. -/
theorem evalStep_renamed (h : host.Renamed g host') (m : Machine) (e : Expr) (env : FrameRef) :
    (m.renamed g).evalStep host' (e.renamed g) env = (m.evalStep host e env).renamed g := by
  cases e with
  | literal id value => cases value <;> rfl
  | ident id name =>
      have hread := readName_renamed h m.store id name env
      simp only [Expr.renamed, evalStep, renamed] at hread ⊢
      rw [hread]
      cases readName host m.store id name env <;> rfl
  | _ => rfl

/-- A statement is carried out. -/
theorem execStep_renamed (m : Machine) (s : Stmt) (env : FrameRef) :
    (m.renamed g).execStep (s.renamed g) env = (m.execStep s env).renamed g := by
  cases s with
  | var id name initializer =>
      cases initializer with
      | absent =>
          simp only [Stmt.renamed, Expr.renamed, execStep, renamed, Store.define_renamed]
          rfl
      | _ => rfl
  | block id body =>
      simp only [Stmt.renamed, execStep, renamed, Store.nextRef_renamed, Store.add_renamed]
      rfl
  | function id name params body =>
      simp only [Stmt.renamed, execStep, renamed, Store.closure, Store.define_renamed]
      rfl
  | result id keyword value => cases value <;> rfl
  | _ => rfl

/-- Work goes on with a result. Operators, texts and conditions do not depend on identities; names
are found by the identities of their nodes, and the distances are recorded under the new ones. -/
theorem resumeStep_renamed (h : host.Renamed g host') (m : Machine) (p : Pending) (v : Value) :
    (m.renamed g).resumeStep host' (p.renamed g) (v.renamed g) =
      (m.resumeStep host p v).renamed g := by
  cases p with
  | unary id operator =>
      simp only [Pending.renamed, resumeStep, renamed, applyUnary_renamed, Control.settle_renamed]
  | right id operator left =>
      simp only [Pending.renamed, resumeStep, renamed, applyBinary_renamed, Control.settle_renamed]
  | decide operator right env =>
      simp only [Pending.renamed, resumeStep, Value.isTruthy_renamed]
      split <;> rfl
  | assign id name env =>
      have hfind := findName_renamed h m.store id name env
      simp only [Pending.renamed, resumeStep, renamed] at hfind ⊢
      rw [hfind]
      cases findName host m.store id name env with
      | error fault => rfl
      | ok ref => simp only [Store.define_renamed]; rfl
  | callee id paren arguments env => exact passArguments_renamed h m id paren v [] arguments env
  | argument id paren callee before rest env =>
      exact passArguments_renamed h m id paren callee (v :: before) rest env
  | print =>
      simp only [Pending.renamed, resumeStep, Value.display_renamed, renamed]
      cases m.sink.next? <;> rfl
  | bind name env =>
      simp only [Pending.renamed, resumeStep, renamed, Store.define_renamed]
      rfl
  | sequence rest env => cases rest <;> rfl
  | choose positive negative env =>
      simp only [Pending.renamed, resumeStep, Value.isTruthy_renamed]
      cases v.isTruthy <;> rfl
  | loopTest condition body env =>
      simp only [Pending.renamed, resumeStep, Value.isTruthy_renamed]
      cases v.isTruthy <;> rfl
  | _ => rfl

/-- A renamed machine takes the renamed step. -/
theorem step_renamed (h : host.Renamed g host') (m : Machine) :
    (m.renamed g).step host' = (m.step host).renamed g := by
  obtain ⟨control, stack, store, sink, depth, calls⟩ := m
  cases control with
  | eval e env => exact evalStep_renamed h ⟨.yield .nil, stack, store, sink, depth, calls⟩ e env
  | exec s env => exact execStep_renamed ⟨.yield .nil, stack, store, sink, depth, calls⟩ s env
  | yield v =>
      cases stack with
      | nil => rfl
      | cons p stack =>
          exact resumeStep_renamed h ⟨.yield .nil, stack, store, sink, depth, calls⟩ p v
  | leave v =>
      cases stack with
      | nil => rfl
      | cons p stack => cases p <;> rfl
  | fail f =>
      cases stack with
      | nil => rfl
      | cons p stack => cases p <;> rfl

theorem isDone_renamed (m : Machine) : (m.renamed g).isDone = m.isDone := by
  obtain ⟨control, stack, store, sink, depth, calls⟩ := m
  cases control <;> cases stack <;> rfl

/-- So does it any number of times. -/
theorem run_renamed (h : host.Renamed g host') (m : Machine) (fuel : Nat) :
    (m.renamed g).run host' fuel = (m.run host fuel).renamed g := by
  induction fuel generalizing m with
  | zero => rfl
  | succ fuel ih =>
      rw [run, run, isDone_renamed]
      split
      · rfl
      · rw [step_renamed h, ih]

end Machine

end Lox
