/-
No void in a program.

# What is shown

The host may answer a call with `void`, which prints like nil and yet equals nothing, nil included.
It gets no further than that: the answer is replaced by nil (`Control.proper_answer`), and nothing
else that a machine does makes a `void` where there was none. So all values that a machine handles
are proper as long as those that its frames bind are (`Machine.Proper.run`), and a value that is
printed as `nil` is nil, unless it is a text (`Value.Proper.eq_nil`).

# The invariant

A machine has values at hand in three places: the one that is handed on or returned, those that wait
for others (the left operand of an operator, the callee and the arguments of a call), and those that
frames bind. `Machine.Proper` says of all of them that they are proper, and there is one lemma for
each part of a step. Where a value is handled otherwise, it is at one of these places
(`Machine.Proper.handles`): `Machine.Handles` lists what a program can see of a value.

# What is printed as nil

No number is: a finite number has a digit in its text (`Number.print_ne_nil`), by the shape of what
is printed. Truth values and functions have other texts.
-/
import Lox.Proofs.Machine.Depth
import Lox.Proofs.Number.Printed

namespace Lox

variable {host : Host} {m : Machine} {v : Value}

-- ==== Proper values

/-- The value is not `void`. -/
def Value.Proper : Value → Prop
  | .void => False
  | _ => True

/-- A numeral has a digit. -/
theorem IsNumber.exists_digit {text : Bytes} (h : IsNumber text) :
    ∃ b ∈ text, Bytes.isDigit b = true := by
  have first : ∀ {digits : Bytes}, Digits digits → ∃ b ∈ digits, Bytes.isDigit b = true := by
    intro digits h
    obtain ⟨b, hb⟩ := List.exists_mem_of_ne_nil digits h.some
    exact ⟨b, hb, h.each b hb⟩
  rcases h with digits | ⟨whole, fraction, digits, -, rfl⟩
  · exact first digits
  · obtain ⟨b, hb, hdigit⟩ := first digits
    exact ⟨b, List.mem_append_left _ hb, hdigit⟩

/-- The text of a finite number has a digit in it. -/
theorem Number.print_ne_nil (x : Float) : print x ≠ utf8 "nil" := by
  unfold print
  cases shape x.toBits with
  | nan => decide
  | infinite negative => cases negative <;> decide
  | finite negative mantissa shift =>
      intro h
      obtain ⟨b, hb, hdigit⟩ := (positional_spec (shortest mantissa shift)).1.exists_digit
      have hmem : b ∈ utf8 "nil" := h ▸ List.mem_append_right _ hb
      have hletters : (utf8 "nil").all (fun c => !Bytes.isDigit c) = true := by decide
      have hletter := List.all_eq_true.mp hletters b hmem
      rw [hdigit] at hletter
      cases hletter

/-- Only nil and texts are printed as `nil`. -/
theorem Value.Proper.eq_nil (h : v.Proper) (hprinted : v.display = utf8 "nil")
    (hother : ∀ s, v ≠ .string s) : v = .nil := by
  cases v with
  | nil => rfl
  | bool b => cases b <;> exact absurd hprinted (by decide)
  | number x => exact absurd hprinted (Number.print_ne_nil x)
  | string s => exact absurd rfl (hother s)
  | function f =>
      have hfirst : some (60 : UInt8) = some 110 := congrArg List.head? hprinted
      cases hfirst
  | native f =>
      have hfirst : some (60 : UInt8) = some 110 := congrArg List.head? hprinted
      cases hfirst
  | void => exact h.elim
  | foreign f =>
      have hfirst : some (91 : UInt8) = some 110 := congrArg List.head? hprinted
      cases hfirst

-- ==== Values at hand

/-- A value that is handed on or returned is proper. -/
def Control.Proper : Control → Prop
  | .yield v => v.Proper
  | .leave v => v.Proper
  | _ => True

/-- The values that are kept until the work is done are proper. -/
def Pending.Proper : Pending → Prop
  | .right _ _ operand => operand.Proper
  | .argument _ _ called before _ _ => called.Proper ∧ ∀ v ∈ before, v.Proper
  | _ => True

/-- Arithmetic comes to numbers and truth values. -/
theorem applyArithmetic_proper (operator : Token) (x y : Float) :
    (Control.settle (applyArithmetic operator x y)).Proper := by
  unfold applyArithmetic
  split <;> trivial

/-- An operator between two operands makes no `void`. -/
theorem applyBinary_proper (operator : Token) (left right : Value) :
    (Control.settle (applyBinary operator left right)).Proper := by
  unfold applyBinary
  split
  next => trivial
  next => trivial
  next =>
    unfold applyPlus
    split <;> trivial
  next =>
    unfold applyNumeric
    split
    next x y => exact applyArithmetic_proper operator x y
    next => trivial

/-- Nor does one before an operand. -/
theorem applyUnary_proper (operator : Token) (operand : Value) :
    (Control.settle (applyUnary operator operand)).Proper := by
  unfold applyUnary
  split
  next => split <;> trivial
  next => trivial
  next => trivial

/-- Whatever the host answers, what the program gets of it is proper. -/
theorem Control.proper_answer (paren : Token) (answer : Except Bytes Value) :
    (Control.answer paren answer).Proper := by
  cases answer with
  | error text => trivial
  | ok v => cases v <;> trivial

-- ==== Machines

/-- All values that the machine has at hand and all that its frames bind are proper. -/
structure Machine.Proper (m : Machine) : Prop where
  control : m.control.Proper
  stack : ∀ p ∈ m.stack, p.Proper
  store : m.store.All Value.Proper

namespace Machine.Proper

variable {c : Control} {p : Pending}

/-- The waiting work is left as it is. -/
theorem goOn (h : m.Proper) (hc : c.Proper) : { m with control := c }.Proper :=
  ⟨hc, h.stack, h.store⟩

/-- Work is left on the stack for what is done first. -/
theorem push (h : m.Proper) (hp : p.Proper) (hc : c.Proper) :
    { m with control := c, stack := p :: m.stack }.Proper :=
  ⟨hc, List.forall_mem_cons.mpr ⟨hp, h.stack⟩, h.store⟩

/-- Arguments are bound as they are, and the answer of the host is made proper: this is the one
place where a `void` could come in, and it is replaced there. -/
theorem apply {callee : Value} {args : List Value} (h : m.Proper) (paren : Token)
    (hargs : ∀ v ∈ args, v.Proper) : (m.apply host paren callee args).Proper := by
  unfold Machine.apply
  cases callee.arity? with
  | none => exact h.goOn trivial
  | some arity =>
      dsimp only
      split
      · exact h.goOn trivial
      · cases callee with
        | function f =>
            dsimp only [invoke]
            split
            · exact h.goOn trivial
            · cases f.code with
              | none => exact h.goOn trivial
              | some code =>
                  refine ⟨trivial, ?_, (h.store.add _).bindParams code.params hargs⟩
                  exact List.forall_mem_cons.mpr
                    ⟨trivial, List.forall_mem_cons.mpr ⟨trivial, h.stack⟩⟩
        | native f => exact ⟨Control.proper_answer paren _, h.stack, h.store⟩
        | _ => exact h.goOn trivial

/-- The next argument is evaluated, or the call is made. -/
theorem passArguments {callee : Value} {before : List Value} (h : m.Proper) (id : Nat)
    (paren : Token) (hcallee : callee.Proper) (hbefore : ∀ v ∈ before, v.Proper)
    (rest : List Expr) (env : FrameRef) :
    (m.passArguments host id paren callee before rest env).Proper := by
  cases rest with
  | nil => exact h.apply paren fun v hv => hbefore v (List.mem_reverse.mp hv)
  | cons e rest => exact h.push ⟨hcallee, hbefore⟩ trivial

/-- A constant is proper, and so is what a name is read as. -/
theorem evalStep (h : m.Proper) (e : Expr) (env : FrameRef) : (m.evalStep host e env).Proper := by
  cases e with
  | absent => exact h.goOn trivial
  | literal id value => cases value <;> exact h.goOn trivial
  | grouping id inner => exact h.goOn trivial
  | ident id name =>
      dsimp only [Machine.evalStep]
      cases hread : readName host m.store id name env with
      | ok v => exact h.goOn (h.store.readName hread)
      | error fault => exact h.goOn trivial
  | _ => exact h.push trivial trivial

/-- A function that is declared is proper; what is left out is nil. -/
theorem execStep (h : m.Proper) (s : Stmt) (env : FrameRef) : (m.execStep s env).Proper := by
  cases s with
  | absent => exact h.goOn trivial
  | var id name initializer =>
      cases initializer with
      | absent => exact ⟨trivial, h.stack, h.store.define trivial⟩
      | _ => exact h.push trivial trivial
  | block id body =>
      exact ⟨trivial, List.forall_mem_cons.mpr ⟨trivial, h.stack⟩, h.store.add _⟩
  | function id name params body =>
      have hstore : Store.All Value.Proper { m.store with issued := m.store.issued + 1 } := h.store
      exact ⟨trivial, h.stack, hstore.define trivial⟩
  | result id keyword value =>
      cases value with
      | absent => exact h.goOn trivial
      | _ => exact h.push trivial trivial
  | _ => exact h.push trivial trivial

/-- The work goes on with a proper value, and keeps it. Operators come to values of their own, which
are proper, or fail. -/
theorem resumeStep (h : m.Proper) (hp : p.Proper) (hv : v.Proper) :
    (m.resumeStep host p v).Proper := by
  cases p with
  | unary id operator => exact h.goOn (applyUnary_proper operator v)
  | left id operator right env => exact h.push hv trivial
  | right id operator left => exact h.goOn (applyBinary_proper operator left v)
  | decide operator right env =>
      dsimp only [Machine.resumeStep]
      split
      · exact h.goOn hv
      · exact h.goOn trivial
  | assign id name env =>
      dsimp only [Machine.resumeStep]
      cases findName host m.store id name env with
      | ok ref => exact ⟨hv, h.stack, h.store.define hv⟩
      | error fault => exact h.goOn trivial
  | callee id paren arguments env =>
      exact h.passArguments id paren hv (List.forall_mem_nil _) arguments env
  | argument id paren callee before rest env =>
      exact h.passArguments id paren hp.1 (List.forall_mem_cons.mpr ⟨hv, hp.2⟩) rest env
  | invoked => exact ⟨trivial, h.stack, h.store⟩
  | discard => exact h.goOn trivial
  | print =>
      dsimp only [Machine.resumeStep]
      cases m.sink.next? <;> exact ⟨trivial, h.stack, h.store⟩
  | bind name env => exact ⟨trivial, h.stack, h.store.define hv⟩
  | sequence rest env =>
      cases rest with
      | nil => exact h.goOn trivial
      | cons s rest => exact h.push trivial trivial
  | choose positive negative env => exact h.goOn trivial
  | loopTest condition body env =>
      dsimp only [Machine.resumeStep]
      split
      · exact h.push trivial trivial
      · exact h.goOn trivial
  | loopBody condition body env => exact h.push trivial trivial
  | result => exact h.goOn hv

/-- A step makes no `void`: not in the value at hand, not in the work that waits and not in a
frame. -/
theorem step (h : m.Proper) : (m.step host).Proper := by
  obtain ⟨control, stack, store, sink, depth, calls⟩ := m
  obtain ⟨hcontrol, hstack, hstore⟩ := h
  have idle : ∀ {stack : List Pending}, (∀ p ∈ stack, p.Proper) →
      Proper ⟨.yield .nil, stack, store, sink, depth, calls⟩ :=
    fun h => ⟨trivial, h, hstore⟩
  have below : ∀ {p : Pending} {stack : List Pending}, (∀ q ∈ p :: stack, q.Proper) →
      p.Proper ∧ ∀ q ∈ stack, q.Proper := List.forall_mem_cons.mp
  cases control with
  | eval e env => exact (idle hstack).evalStep e env
  | exec s env => exact (idle hstack).execStep s env
  | yield v =>
      cases stack with
      | nil => exact ⟨hcontrol, hstack, hstore⟩
      | cons p stack => exact (idle (below hstack).2).resumeStep (below hstack).1 hcontrol
  | leave v =>
      cases stack with
      | nil => exact ⟨hcontrol, hstack, hstore⟩
      | cons p stack => cases p <;> exact ⟨hcontrol, (below hstack).2, hstore⟩
  | fail f =>
      cases stack with
      | nil => exact ⟨trivial, hstack, hstore⟩
      | cons p stack => cases p <;> exact ⟨trivial, (below hstack).2, hstore⟩

/-- Nor does a run. -/
theorem run (h : m.Proper) (fuel : Nat) : (m.run host fuel).Proper :=
  run_invariant (P := Proper) (fun _ => step) h fuel

end Machine.Proper

-- ==== Runs

/-- The machine has to do with the value, at one moment of a run. -/
inductive Machine.Handles (m : Machine) : Value → Prop where
  /-- An expression has come to the value. -/
  | result {v : Value} (control : m.control = .yield v) : Handles m v
  /-- The value is returned from a call. -/
  | returned {v : Value} (control : m.control = .leave v) : Handles m v
  /-- The value is an argument of the call that is made, be it of a function of the host. -/
  | passed {v : Value} {paren : Token} {callee : Value} {args : List Value}
      (call : m.calling? = some (paren, callee, args)) (arg : v ∈ args) : Handles m v
  /-- The value is printed. -/
  | printed {v : Value} {stack : List Pending} (control : m.control = .yield v)
      (top : m.stack = .print :: stack) : Handles m v
  /-- The value is kept in a frame. -/
  | stored {v : Value} {ref : FrameRef} {name : Bytes}
      (binding : m.store.lookup? ref name = some v) : Handles m v

/-- A value that is handed on is proper. -/
theorem Machine.Proper.of_yield (h : m.Proper) (hcontrol : m.control = .yield v) : v.Proper := by
  have proper := h.control
  rw [hcontrol] at proper
  exact proper

/-- The arguments of a call that is made are proper. -/
theorem Machine.Proper.args {paren : Token} {callee : Value} {args : List Value} (h : m.Proper)
    (hcall : m.calling? = some (paren, callee, args)) : ∀ v ∈ args, v.Proper := by
  unfold calling? at hcall
  split at hcall
  next =>
    cases hcall
    exact List.forall_mem_nil _
  next v id paren' called before env stack hcontrol hstack =>
    cases hcall
    have kept : Pending.Proper (.argument id paren callee before [] env) :=
      h.stack _ (hstack ▸ List.mem_cons_self)
    intro w hw
    rcases List.mem_cons.mp (List.mem_reverse.mp hw) with rfl | hw
    · exact h.of_yield hcontrol
    · exact kept.2 w hw
  next => cases hcall

/-- Every value that a machine handles is proper. -/
theorem Machine.Proper.handles (h : m.Proper) (hv : m.Handles v) : v.Proper := by
  cases hv with
  | result control => exact h.of_yield control
  | returned control =>
      have proper := h.control
      rw [control] at proper
      exact proper
  | passed call arg => exact h.args call v arg
  | printed control top => exact h.of_yield control
  | stored binding => exact h.store _ _ v binding

/-- A value that a machine comes to its end with is at hand there. -/
theorem Machine.Proper.finished (h : m.Proper)
    (hend : (Interpreter.conclude host m).1 = .finished v) : v.Proper := by
  obtain ⟨control, stack, store, sink, depth, calls⟩ := m
  cases stack with
  | cons p stack => cases control <;> cases hend
  | nil =>
      cases control with
      | yield w =>
          cases hend
          exact h.control
      | _ => cases hend

/-- The value is the same as nil to a program, on either side of a comparison. -/
def Value.EqualsNil (v : Value) : Prop :=
  ∀ operator : Token, operator.kind = .equalEqual →
    applyBinary operator v .nil = .ok (.bool true) ∧ applyBinary operator .nil v = .ok (.bool true)

/-- Nil equals nil. -/
theorem Value.equalsNil_nil : Value.EqualsNil .nil := by
  intro operator hkind
  simp only [applyBinary, hkind]
  exact ⟨rfl, rfl⟩

namespace Interpreter

/-- No `void` ever becomes a value of a program. Let all values that are bound in frames be proper,
and let the host answer calls with whatever it likes. Then all values that the machine handles are
proper, at any moment of a program or an expression: those that expressions come to, and those that
are passed, returned, printed and kept. So are the values in the frames that are left behind, however
the run ends, and so is the value of the expression. And what is printed as `nil`, unless it is a
text, equals nil. -/
theorem values_proper (i : Interpreter) (proper : i.store.All Value.Proper) (program : Program)
    (e : Expr) :
    (∀ m, m = i.start program ∨
        m = ⟨.eval e Store.global, [], i.store, i.sink, i.depth, i.calls⟩ →
      ∀ n v, (m.run i.host n).Handles v →
        v.Proper ∧ (v.display = utf8 "nil" → (∀ s, v ≠ .string s) → v.EqualsNil)) ∧
    (∀ fuel, (i.interpret fuel program).2.store.All Value.Proper) ∧
    ∀ fuel, (i.evaluate fuel e).2.store.All Value.Proper ∧
      ∀ v, (i.evaluate fuel e).1 = .finished v → v.Proper := by
  have atProgram : (i.start program).Proper :=
    ⟨trivial, List.forall_mem_singleton.mpr trivial, proper⟩
  have atExpr : Machine.Proper ⟨.eval e Store.global, [], i.store, i.sink, i.depth, i.calls⟩ :=
    ⟨trivial, List.forall_mem_nil _, proper⟩
  refine ⟨fun m hm n v hv => ?_, fun fuel => ?_, fun fuel => ⟨?_, fun v hv => ?_⟩⟩
  · have start : m.Proper := by
      rcases hm with rfl | rfl
      · exact atProgram
      · exact atExpr
    have hproper := (start.run n).handles hv
    refine ⟨hproper, fun hprinted hother => ?_⟩
    rw [hproper.eq_nil hprinted hother]
    exact Value.equalsNil_nil
  · unfold interpret
    rw [Session.conclude_snd]
    exact (atProgram.run fuel).store
  · unfold evaluate
    rw [Session.conclude_snd]
    exact (atExpr.run fuel).store
  · exact (atExpr.run fuel).finished hv

/-- A function of the host has nothing to say. What it is called for is bound to a name, and equals
nil. -/
theorem values_proper_silent_host :
    let token (kind : Kind) (text : String) : Token := ⟨kind, utf8 text, .nil, 1⟩
    let call : Expr := .call 2 (.ident 1 (token .identifier "f")) (token .rightParen ")") []
    let program : Program :=
      [.var 3 (token .identifier "a") call,
        .print 7 (.binary 6 (.ident 4 (token .identifier "a")) (token .equalEqual "==")
          (.literal 5 .nil))]
    let i := (bare .unlimited).defineNative (utf8 "f") 0 fun _ => .ok .void
    i.store.All Value.Proper ∧ i.host.call 0 ⟨0, 0⟩ [] = .ok .void ∧
      (i.interpret 20 program).2.sink.contents = utf8 "true\n" ∧
      (∀ n v, ((i.start program).run i.host n).Handles v → v.Proper) ∧
      (i.evaluate 5 call).1 = .finished .nil := by
  intro token call program i
  have proper : i.store.All Value.Proper := Store.All.define Store.All.initial trivial
  have hprinted : (i.interpret 20 program).2.sink.contents = utf8 "true\n" := by decide +kernel
  have handled := (values_proper i proper program call).1 (i.start program) (.inl rfl)
  exact ⟨proper, rfl, hprinted, fun n v hv => (handled n v hv).1, rfl⟩

end Interpreter

end Lox
