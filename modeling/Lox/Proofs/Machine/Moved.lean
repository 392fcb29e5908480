/-
Machines whose programs stand on other lines.

# Beside each other

Lines are only there to be told in a fault: what a machine does is the same wherever its program
stands. `Machine.Moved` puts a machine beside another one whose trees are moved, node by node, and
says that all else is the same; what the second one has printed may have more before it. Names that
stand in declarations only count by their lexemes, so nothing is said about their lines.

# Values and frames

A function is kept with its code, so values are related and not equal (`Value.Moved`), and with them
the frames (`Store.Moved`): there are as many, with the same parents, and what one binds to a name
the other binds to a related value or not at all. Each change of a store keeps this, and each look
into it gives related values or the same fault.

# Machines

Waiting work is related kind by kind (`Pending.Moved`), and what is done next likewise
(`Control.Moved`); a fault stands at a token of the node that is to blame, and is moved as that node
is. That a step keeps all this is the matter of the next module.
-/
import Mathlib.Data.List.Forall2
import Lox.Proofs.Value.Alike
import Lox.Proofs.Store.Change
import Lox.Proofs.Tree.Moved

namespace Lox

variable {f : Nat → Int}

-- ==== Values

/-- The code of the same function, with its body moved. -/
structure Code.Moved (f : Nat → Int) (c c' : Code) : Prop where
  name : c'.name.lexeme = c.name.lexeme
  params : c'.params.map Token.lexeme = c.params.map Token.lexeme
  body : c'.body = Stmt.movedAll f c.body

/-- The same function, with its code moved. -/
inductive Closure.Moved (f : Nat → Int) : Closure → Closure → Prop where
  | code {ident : Nat} {c c' : Code} {env : FrameRef} (moved : c.Moved f c') :
      Closure.Moved f ⟨ident, some c, env⟩ ⟨ident, some c', env⟩
  | noCode (ident : Nat) (env : FrameRef) : Closure.Moved f ⟨ident, none, env⟩ ⟨ident, none, env⟩

/-- To operators, functions that are moved are the same. -/
theorem Closure.Moved.same (g g' : Closure) (h : Closure.Moved f g g') : Closure.Same g g' := by
  cases h with
  | noCode ident env => exact ⟨rfl, rfl, rfl⟩
  | code moved =>
      refine ⟨rfl, moved.name, ?_⟩
      have hlen := congrArg List.length moved.params
      rw [List.length_map, List.length_map] at hlen
      exact hlen

/-- The same value; a function has its code moved. -/
abbrev Value.Moved (f : Nat → Int) : Value → Value → Prop := Value.Alike (Closure.Moved f)

-- ==== Frames

/-- The same frames with the same names, bound to the same values. The values may be functions,
whose code has moved. -/
structure Store.Moved (f : Nat → Int) (s s' : Store) : Prop where
  size : s'.frames.size = s.frames.size
  issued : s'.issued = s.issued
  parent : ∀ ρ, s'.parent? ρ = s.parent? ρ
  lookup : ∀ ρ x, Option.Rel (Value.Moved f) (s.lookup? ρ x) (s'.lookup? ρ x)

namespace Store.Moved

variable {s s' : Store} {v v' : Value}

/-- A name is bound to related values. -/
theorem define (h : s.Moved f s') (ref : FrameRef) (name : Bytes) (hv : v.Moved f v') :
    (s.define ref name v).Moved f (s'.define ref name v') where
  size := by rw [size_define, size_define, h.size]
  issued := h.issued
  parent ρ := by rw [parent?_define, parent?_define, h.parent]
  lookup ρ x := by
    by_cases hlt : ref < s.frames.size
    · rw [lookup?_define hlt, lookup?_define (by rw [h.size]; exact hlt)]
      split
      · exact .some hv
      · exact h.lookup ρ x
    · have hle : s.frames.size ≤ ref := Nat.le_of_not_lt hlt
      rw [lookup?_define_of_le hle, lookup?_define_of_le (by rw [h.size]; exact hle)]
      exact h.lookup ρ x

/-- A frame is added on both sides. -/
theorem add (h : s.Moved f s') (parent : Option FrameRef) :
    (s.add parent).Moved f (s'.add parent) where
  size := by rw [size_add, size_add, h.size]
  issued := h.issued
  parent ρ := by
    have hnext : s'.nextRef = s.nextRef := h.size
    rw [parent?_add, parent?_add, hnext, h.parent]
  lookup ρ x := by
    rw [lookup?_add, lookup?_add]
    exact h.lookup ρ x

theorem issue (h : s.Moved f s') :
    Store.Moved f { s with issued := s.issued + 1 } { s' with issued := s'.issued + 1 } :=
  ⟨h.size, congrArg (· + 1) h.issued, h.parent, h.lookup⟩

theorem nextRef (h : s.Moved f s') : s'.nextRef = s.nextRef := h.size

/-- Hops lead to the same frame. -/
theorem ancestor (h : s.Moved f s') (ρ : FrameRef) (hops : Int) :
    s'.ancestor ρ hops = s.ancestor ρ hops :=
  ancestor_congr h.parent ρ hops

/-- A name is bound in the same frames. -/
theorem bound (h : s.Moved f s') (ρ : FrameRef) (name : Bytes) :
    s'.bound ρ name = s.bound ρ name := by
  simp only [Store.bound, Value.Alike.isSome_of_rel (h.lookup ρ name)]

/-- Both frames have a value for the name, or none has. -/
theorem get (h : s.Moved f s') (ρ : FrameRef) (name : Bytes) :
    (∃ v v', s.get ρ name = .ok v ∧ s'.get ρ name = .ok v' ∧ v.Moved f v') ∨
      ∃ fault, s.get ρ name = .error fault ∧ s'.get ρ name = .error fault := by
  unfold Store.get
  rcases Value.Alike.rel_cases (h.lookup ρ name) with ⟨v, v', hv, hv', moved⟩ | ⟨hv, hv'⟩
  · rw [hv, hv']
    exact .inl ⟨v, v', rfl, rfl, moved⟩
  · rw [hv, hv']
    exact .inr ⟨_, rfl, rfl⟩

/-- Parameters are bound by their names, whatever their lines, by induction over them. The arguments
may be fewer on both sides. -/
theorem bindParams {params params' : List Token} {args args' : List Value} (env : FrameRef)
    (h : s.Moved f s') (hparams : params'.map Token.lexeme = params.map Token.lexeme)
    (hargs : List.Forall₂ (Value.Moved f) args args') :
    (Machine.bindParams s env params args).Moved f (Machine.bindParams s' env params' args') := by
  unfold Machine.bindParams
  induction params generalizing params' args args' s s' with
  | nil =>
      obtain rfl : params' = [] := by simpa using hparams
      exact h
  | cons p params ih =>
      cases params' with
      | nil => simp at hparams
      | cons p' params' =>
          obtain ⟨hp, hrest⟩ := List.cons.inj hparams
          cases hargs with
          | nil => exact h
          | cons harg hargs =>
              simp only [List.zip_cons_cons, List.foldl_cons]
              rw [hp]
              exact ih (h.define env p.lexeme harg) hrest hargs

end Store.Moved

/-- The two hosts know the same distances, and their functions answer in the same way. Distances are
recorded at nodes, and nodes keep their identities when tokens move. -/
structure Host.Moved (f : Nat → Int) (host host' : Host) : Prop where
  resolution : ∀ id : Nat, host'.resolution[id]? = host.resolution[id]?
  call : ∀ calls g args args', List.Forall₂ (Value.Moved f) args args' →
    (∃ v v', host.call calls g args = .ok v ∧ host'.call calls g args' = .ok v' ∧ v.Moved f v') ∨
      ∃ text, host.call calls g args = .error text ∧ host'.call calls g args' = .error text

namespace Host.Moved

variable {host host' : Host} {s s' : Store}

/-- An assignment goes to the same frame, or fails with the same fault. -/
theorem findName (hh : host.Moved f host') (h : s.Moved f s') (id : Nat) (name : Token) (d : Int)
    (env : FrameRef) :
    Machine.findName host' s' id (name.moved d) env = Machine.findName host s id name env := by
  unfold Machine.findName
  rw [hh.resolution, Token.moved_lexeme]
  cases host.resolution[id]? with
  | none => exact h.bound _ _
  | some hops =>
      simp only [Store.boundAt, h.ancestor]
      cases s.ancestor env hops with
      | ok ancestor => exact h.bound _ _
      | error fault => rfl

/-- A name is read as related values, or with the same fault. -/
theorem readName (hh : host.Moved f host') (h : s.Moved f s') (id : Nat) (name : Token) (d : Int)
    (env : FrameRef) :
    (∃ v v', Machine.readName host s id name env = .ok v ∧
        Machine.readName host' s' id (name.moved d) env = .ok v' ∧ v.Moved f v') ∨
      ∃ fault, Machine.readName host s id name env = .error fault ∧
        Machine.readName host' s' id (name.moved d) env = .error fault := by
  unfold Machine.readName
  rw [hh.resolution, Token.moved_lexeme]
  cases host.resolution[id]? with
  | none => exact h.get _ _
  | some hops =>
      simp only [Store.getAt, h.ancestor]
      cases s.ancestor env hops with
      | ok ancestor => exact h.get _ _
      | error fault => exact .inr ⟨fault, rfl, rfl⟩

end Host.Moved

-- ==== Machines

/-- The same waiting work. It keeps a token for faults, which has moved by what the map gives the
node; where work keeps a token for another reason, only its kind or its text has to be the same. -/
inductive Pending.Moved (f : Nat → Int) : Pending → Pending → Prop where
  | unary (id : Nat) (operator : Token) :
      Pending.Moved f (.unary id operator) (.unary id (operator.moved (f id)))
  | left (id : Nat) (operator : Token) (right : Expr) (env : FrameRef) :
      Pending.Moved f (.left id operator right env)
        (.left id (operator.moved (f id)) (right.moved f) env)
  | right (id : Nat) (operator : Token) {v v' : Value} (moved : v.Moved f v') :
      Pending.Moved f (.right id operator v) (.right id (operator.moved (f id)) v')
  | decide {operator operator' : Token} (kind : operator'.kind = operator.kind) (right : Expr)
      (env : FrameRef) : Pending.Moved f (.decide operator right env)
        (.decide operator' (right.moved f) env)
  | assign (id : Nat) (name : Token) (env : FrameRef) :
      Pending.Moved f (.assign id name env) (.assign id (name.moved (f id)) env)
  | callee (id : Nat) (paren : Token) (arguments : List Expr) (env : FrameRef) :
      Pending.Moved f (.callee id paren arguments env)
        (.callee id (paren.moved (f id)) (Expr.movedAll f arguments) env)
  | argument (id : Nat) (paren : Token) {v v' : Value} {before before' : List Value}
      (moved : v.Moved f v') (passed : List.Forall₂ (Value.Moved f) before before')
      (rest : List Expr) (env : FrameRef) :
      Pending.Moved f (.argument id paren v before rest env)
        (.argument id (paren.moved (f id)) v' before' (Expr.movedAll f rest) env)
  | invoked : Pending.Moved f .invoked .invoked
  | discard : Pending.Moved f .discard .discard
  | print : Pending.Moved f .print .print
  | bind {name name' : Token} (lexeme : name'.lexeme = name.lexeme) (env : FrameRef) :
      Pending.Moved f (.bind name env) (.bind name' env)
  | sequence (rest : List Stmt) (env : FrameRef) :
      Pending.Moved f (.sequence rest env) (.sequence (Stmt.movedAll f rest) env)
  | choose (positive negative : Stmt) (env : FrameRef) :
      Pending.Moved f (.choose positive negative env)
        (.choose (positive.moved f) (negative.moved f) env)
  | loopTest (condition : Expr) (body : Stmt) (env : FrameRef) :
      Pending.Moved f (.loopTest condition body env)
        (.loopTest (condition.moved f) (body.moved f) env)
  | loopBody (condition : Expr) (body : Stmt) (env : FrameRef) :
      Pending.Moved f (.loopBody condition body env)
        (.loopBody (condition.moved f) (body.moved f) env)
  | result : Pending.Moved f .result .result

/-- How far down the tokens of a node are moved, if there is a node. -/
def offset (f : Nat → Int) : Option Nat → Int
  | some id => f id
  | none => 0

/-- The same thing to do next. A fault stands at a token of the node that is to blame, and has moved
as that node has. -/
inductive Control.Moved (f : Nat → Int) (blamed : Option Nat) : Control → Control → Prop where
  | eval (e : Expr) (env : FrameRef) : Control.Moved f blamed (.eval e env) (.eval (e.moved f) env)
  | exec (s : Stmt) (env : FrameRef) : Control.Moved f blamed (.exec s env) (.exec (s.moved f) env)
  | yield {v v' : Value} (moved : v.Moved f v') : Control.Moved f blamed (.yield v) (.yield v')
  | leave {v v' : Value} (moved : v.Moved f v') : Control.Moved f blamed (.leave v) (.leave v')
  | fail (fault : Fault) :
      Control.Moved f blamed (.fail fault) (.fail (fault.moved (offset f blamed)))

/-- The same machine, on a program that is moved; `before` is what had been printed before. If the
machine fails, then the fault stands at a token of the node `blamed`. -/
structure Machine.Moved (f : Nat → Int) (before : List Bytes) (blamed : Option Nat)
    (m m' : Machine) : Prop where
  control : m.control.Moved f blamed m'.control
  stack : List.Forall₂ (Pending.Moved f) m.stack m'.stack
  store : m.store.Moved f m'.store
  sink : m'.sink = { m.sink with taken := m.sink.taken ++ before }
  depth : m'.depth = m.depth
  calls : m'.calls = m.calls

end Lox
