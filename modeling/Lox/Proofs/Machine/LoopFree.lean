/-
Machines that have no loop.

# What counts

Functions are values, and a call runs whatever function it finds in a frame. So whether a machine
comes to a loop is not a matter of its program alone: all functions that the frames bind count too,
and those that are handed on as values or wait as the callee or the arguments of a call.
`Machine.LoopFree` says of all of them that there is no loop in their bodies.

# Kept

A machine without loops stays one (`LoopFree.step`), as long as the functions of the host bring in
none (`Host.LoopFree`). Operators come to values that are no functions, so there is nothing to show
for what they come to (`arity?_applyBinary`). All else that a step does is to take a tree apart, to
hand on a value, or to keep one in a frame, and there is one lemma for each part of a step.
-/
import Lox.Proofs.Machine.Run
import Lox.Proofs.Store.Change

namespace Lox

-- ==== Trees

mutual

/-- Is there a loop in the statement, or in a function that it declares? Functions that it calls are
values by then, and are looked at as such (`Value.LoopFree`). -/
def Stmt.hasLoop : Stmt → Bool
  | .loop _ _ _ => true
  | .block _ body => Stmt.anyLoop body
  | .branch _ _ positive negative => positive.hasLoop || negative.hasLoop
  | .function _ _ _ body => Stmt.anyLoop body
  | _ => false

/-- Is there a loop in one of the statements? -/
def Stmt.anyLoop : List Stmt → Bool
  | [] => false
  | s :: rest => s.hasLoop || Stmt.anyLoop rest

end

/-- No loop in the first of some statements, nor in the others. -/
theorem Stmt.anyLoop_cons {s : Stmt} {rest : List Stmt} :
    Stmt.anyLoop (s :: rest) = false ↔ s.hasLoop = false ∧ Stmt.anyLoop rest = false :=
  Bool.or_eq_false_iff

-- ==== Values and waiting work

/-- The value is no function with a loop in its body. -/
def Value.LoopFree : Value → Prop
  | .function f => ∀ code, f.code = some code → Stmt.anyLoop code.body = false
  | _ => True

/-- What cannot be called has no loop. -/
theorem Value.loopFree_of_arity? {v : Value} (h : v.arity? = none) : v.LoopFree := by
  cases v with
  | function f => cases h
  | _ => trivial

/-- Work that comes to no loop, whatever the result is that it waits for. -/
def Pending.LoopFree : Pending → Prop
  | .argument _ _ called before _ _ => called.LoopFree ∧ ∀ v ∈ before, v.LoopFree
  | .sequence rest _ => Stmt.anyLoop rest = false
  | .choose positive negative _ => positive.hasLoop = false ∧ negative.hasLoop = false
  | .loopTest _ _ _ => False
  | .loopBody _ _ _ => False
  | _ => True

/-- A next thing to do that is no loop and hands on no loop. -/
def Control.LoopFree : Control → Prop
  | .exec s _ => s.hasLoop = false
  | .yield v => v.LoopFree
  | .leave v => v.LoopFree
  | _ => True

/-- The host's functions answer with no function that has a loop, unless they were given one. -/
def Host.LoopFree (host : Host) : Prop :=
  ∀ calls f args v, (∀ a ∈ args, a.LoopFree) → host.call calls f args = .ok v → v.LoopFree

/-- No loop is left in the machine, in the functions that its frames bind neither. -/
structure Machine.LoopFree (m : Machine) : Prop where
  control : m.control.LoopFree
  stack : ∀ p ∈ m.stack, p.LoopFree
  store : m.store.All Value.LoopFree

-- ==== Operators

/-- What an operator before one operand comes to cannot be called. -/
theorem arity?_applyUnary {operator : Token} {v w : Value} (h : applyUnary operator v = .ok w) :
    w.arity? = none := by
  unfold applyUnary at h
  split at h
  · split at h <;> cases h
    rfl
  · cases h
    rfl
  · cases h

/-- Nor can what operators on numbers come to. -/
theorem arity?_applyNumeric {operator : Token} {v w u : Value}
    (h : applyNumeric operator v w = .ok u) : u.arity? = none := by
  unfold applyNumeric at h
  split at h
  · unfold applyArithmetic at h
    split at h <;> cases h <;> rfl
  · cases h

/-- Nor what any operator between two operands comes to. -/
theorem arity?_applyBinary {operator : Token} {v w u : Value}
    (h : applyBinary operator v w = .ok u) : u.arity? = none := by
  unfold applyBinary at h
  split at h
  · cases h
    rfl
  · cases h
    rfl
  · unfold applyPlus at h
    split at h <;> cases h <;> rfl
  · exact arity?_applyNumeric h

/-- The outcome of an operator brings in no loop. -/
theorem Control.loopFree_settle {result : Except Fault Value}
    (h : ∀ v, result = .ok v → v.arity? = none) : (Control.settle result).LoopFree := by
  cases result with
  | ok v => exact Value.loopFree_of_arity? (h v rfl)
  | error f => trivial

-- ==== Steps

namespace Machine.LoopFree

variable {host : Host} {m : Machine}

/-- The waiting work is left as it is. -/
theorem goOn {c : Control} (h : m.LoopFree) (hc : c.LoopFree) : { m with control := c }.LoopFree :=
  ⟨hc, h.stack, h.store⟩

/-- Work is left for what is done first. -/
theorem push {p : Pending} {c : Control} (h : m.LoopFree) (hp : p.LoopFree) (hc : c.LoopFree) :
    { m with control := c, stack := p :: m.stack }.LoopFree :=
  ⟨hc, List.forall_mem_cons.mpr ⟨hp, h.stack⟩, h.store⟩

/-- The body of a function without loops is entered. -/
theorem invoke {f : Closure} {args : List Value} (h : m.LoopFree)
    (hf : Value.LoopFree (.function f)) (hargs : ∀ v ∈ args, v.LoopFree) (paren : Token) :
    (m.invoke paren f args).LoopFree := by
  unfold Machine.invoke
  split
  · exact h.goOn trivial
  · cases hcode : f.code with
    | none => exact h.goOn trivial
    | some code =>
        have hbody : Pending.LoopFree (.sequence code.body m.store.nextRef) := hf code hcode
        have hstack : ∀ p ∈ Pending.invoked :: m.stack, p.LoopFree :=
          List.forall_mem_cons.mpr ⟨trivial, h.stack⟩
        exact ⟨trivial, List.forall_mem_cons.mpr ⟨hbody, hstack⟩,
          (h.store.add _).bindParams code.params hargs⟩

/-- Whatever is called brings in no loop: neither the body of a function, which was bound or handed
over as a value, nor the answer of the host. -/
theorem apply {callee : Value} {args : List Value} (hhost : host.LoopFree) (h : m.LoopFree)
    (hcallee : callee.LoopFree) (hargs : ∀ v ∈ args, v.LoopFree) (paren : Token) :
    (m.apply host paren callee args).LoopFree := by
  unfold Machine.apply
  cases callee.arity? with
  | none => exact h.goOn trivial
  | some arity =>
      dsimp only
      split
      · exact h.goOn trivial
      · cases callee with
        | function f => exact h.invoke hcallee hargs paren
        | native f =>
            have hanswer : (Control.answer paren (host.call m.calls f args)).LoopFree := by
              cases hcall : host.call m.calls f args with
              | error text => trivial
              | ok v =>
                  have hv := hhost _ _ _ _ hargs hcall
                  cases v <;> exact hv
            exact ⟨hanswer, h.stack, h.store⟩
        | _ => exact h.goOn trivial

/-- The next argument is evaluated, or the call is made. -/
theorem passArguments {callee : Value} {before : List Value} (hhost : host.LoopFree)
    (h : m.LoopFree) (hcallee : callee.LoopFree) (hbefore : ∀ v ∈ before, v.LoopFree) (id : Nat)
    (paren : Token) (rest : List Expr) (env : FrameRef) :
    (m.passArguments host id paren callee before rest env).LoopFree := by
  cases rest with
  | nil => exact h.apply hhost hcallee (fun v hv => hbefore v (List.mem_reverse.mp hv)) paren
  | cons e rest => exact h.push ⟨hcallee, hbefore⟩ trivial

/-- An expression has no statements in it. -/
theorem evalStep (h : m.LoopFree) (e : Expr) (env : FrameRef) :
    (m.evalStep host e env).LoopFree := by
  cases e with
  | literal id value => cases value <;> exact h.goOn trivial
  | ident id name =>
      dsimp only [Machine.evalStep]
      cases hread : readName host m.store id name env with
      | ok v => exact h.goOn (h.store.readName hread)
      | error fault => exact h.goOn trivial
  | absent => exact h.goOn trivial
  | grouping id inner => exact h.goOn trivial
  | _ => exact h.push trivial trivial

/-- A statement without loops has parts without loops. A function is kept with its body, and a block
with its statements; a loop is not among the cases. -/
theorem execStep {s : Stmt} (h : m.LoopFree) (hs : s.hasLoop = false) (env : FrameRef) :
    (m.execStep s env).LoopFree := by
  cases s with
  | absent => exact h.goOn trivial
  | expression id value => exact h.push trivial trivial
  | print id value => exact h.push trivial trivial
  | var id name initializer =>
      cases initializer with
      | absent => exact ⟨trivial, h.stack, h.store.define trivial⟩
      | _ => exact h.push trivial trivial
  | block id body =>
      have hbody : Pending.LoopFree (.sequence body m.store.nextRef) := hs
      exact ⟨trivial, List.forall_mem_cons.mpr ⟨hbody, h.stack⟩, h.store.add _⟩
  | branch id condition positive negative => exact h.push (Bool.or_eq_false_iff.mp hs) trivial
  | loop id condition body => cases hs
  | function id name params body =>
      have hstore : Store.All Value.LoopFree { m.store with issued := m.store.issued + 1 } :=
        h.store
      have hf : Value.LoopFree (.function (m.store.closure (some ⟨name, params, body⟩) env).1) := by
        rintro code ⟨⟩
        exact hs
      exact ⟨trivial, h.stack, hstore.define hf⟩
  | result id keyword value =>
      cases value with
      | absent => exact h.goOn trivial
      | _ => exact h.push trivial trivial

/-- The work goes on with a result without loops. Values are put in frames and handed on, and
operators make no functions, so none with a loop comes up. -/
theorem resumeStep {p : Pending} {v : Value} (hhost : host.LoopFree) (h : m.LoopFree)
    (hp : p.LoopFree) (hv : v.LoopFree) : (m.resumeStep host p v).LoopFree := by
  cases p with
  | unary id operator => exact h.goOn (Control.loopFree_settle fun _ => arity?_applyUnary)
  | left id operator right env => exact h.push trivial trivial
  | right id operator left => exact h.goOn (Control.loopFree_settle fun _ => arity?_applyBinary)
  | decide operator right env =>
      dsimp only [Machine.resumeStep]
      split
      · exact h.goOn hv
      · exact h.goOn trivial
  | assign id name env =>
      dsimp only [Machine.resumeStep]
      cases findName host m.store id name env with
      | ok ref => exact ⟨hv, h.stack, h.store.define hv⟩
      | error fault => exact h.goOn trivial
  | callee id paren arguments env =>
      exact h.passArguments hhost hv (List.forall_mem_nil _) id paren arguments env
  | argument id paren callee before rest env =>
      exact h.passArguments hhost hp.1 (List.forall_mem_cons.mpr ⟨hv, hp.2⟩) id paren rest env
  | print =>
      dsimp only [Machine.resumeStep]
      cases m.sink.next? <;> exact ⟨trivial, h.stack, h.store⟩
  | bind name env => exact ⟨trivial, h.stack, h.store.define hv⟩
  | sequence rest env =>
      cases rest with
      | nil => exact h.goOn trivial
      | cons s rest =>
          obtain ⟨hs, hrest⟩ := Stmt.anyLoop_cons.mp hp
          exact h.push hrest hs
  | choose positive negative env =>
      refine h.goOn ?_
      cases v.isTruthy with
      | true => exact hp.1
      | false => exact hp.2
  | loopTest condition body env => exact hp.elim
  | loopBody condition body env => exact hp.elim
  | result => exact h.goOn hv
  | invoked => exact ⟨trivial, h.stack, h.store⟩
  | discard => exact h.goOn trivial

/-- A machine without loops stays one. -/
theorem step (hhost : host.LoopFree) (h : m.LoopFree) : (m.step host).LoopFree := by
  obtain ⟨control, stack, store, sink, depth, calls⟩ := m
  obtain ⟨hcontrol, hstack, hstore⟩ := h
  have idle : ∀ {stack : List Pending}, (∀ p ∈ stack, p.LoopFree) →
      LoopFree ⟨.yield .nil, stack, store, sink, depth, calls⟩ := fun h => ⟨trivial, h, hstore⟩
  cases stack with
  | nil =>
      cases control with
      | eval e env => exact (idle hstack).evalStep e env
      | exec s env => exact (idle hstack).execStep hcontrol env
      | _ => exact ⟨hcontrol, hstack, hstore⟩
  | cons p stack =>
      obtain ⟨hp, hrest⟩ := List.forall_mem_cons.mp hstack
      cases control with
      | eval e env => exact (idle hstack).evalStep e env
      | exec s env => exact (idle hstack).execStep hcontrol env
      | yield v => exact (idle hrest).resumeStep hhost hp hcontrol
      | leave v => cases p <;> exact ⟨hcontrol, hrest, hstore⟩
      | fail f => cases p <;> exact ⟨hcontrol, hrest, hstore⟩

/-- Nor does a loop come in later. -/
theorem run (hhost : host.LoopFree) (h : m.LoopFree) (fuel : Nat) : (m.run host fuel).LoopFree :=
  run_invariant (P := LoopFree) (fun _ => step hhost) h fuel

end Machine.LoopFree

end Lox
