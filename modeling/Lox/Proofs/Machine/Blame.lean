/-
What can stop a machine.

# Faults

A machine that only has trees that can be run, also in the functions that are kept in frames, keeps
to such trees (`Machine.Runnable`). If it gives up, that is because the sink refused a text, or
because of something that the program did, at a token of the program (`Fault.Expected`). The causes
are listed with their wording by `Cause.Expected`; those of a machine that is out of order, such as
an operator that no operand can have, are not among them.

# What is carried along

Three things are carried from step to step: that the trees have operators that exist and tokens of
the program; that functions have code; and that a return is only carried out in the course of a
call, so there is work for it to come back to (`Pending.inCall`). A function that the host answers
with has to be runnable, too (`Host.Answers`).

The one thing that the trees do not tell is that the distance of a name leads to a frame; it stands
as a premise here (`Machine.Near`), and is discharged where machines are compared with lexical ones.

# Returns

A return comes back to its call past the statements that it leaves (`run_leave`), by induction over
the work that waits for these.
-/
import Lox.Proofs.Machine.Run
import Lox.Proofs.Store.Change
import Lox.Proofs.Tree.Runnable

namespace Lox

variable {T : Token → Prop} {host : Host} {reason : Bytes → Prop} {m : Machine}

-- ==== Faults that a program can run into

/-- The sink refuses some text for this reason. -/
def Sink.Gives (s : Sink) (reason : Bytes) : Prop :=
  ∃ before r, s.refusal? before = some r ∧ r.reason = reason

/-- What can go wrong at a token, and the wording of it. These are all causes that a program can run
into, in the words that a user sees; what the host refuses is worded by the host. -/
inductive Cause.Expected (host : Host) (token : Token) : Cause → Bytes → Prop where
  | operandNotNumber : Expected host token .operandNotNumber (utf8 "Operand must be a number.")
  | operandsNotNumbers : Expected host token .operandsNotNumbers (utf8 "Operands must be numbers.")
  | operandsMixed :
      Expected host token .operandsMixed (utf8 "Operands must be two numbers or two strings.")
  | undefined :
      Expected host token (.binding (.undefined token.lexeme))
        (utf8 "Undefined variable '" ++ token.lexeme ++ utf8 "'.")
  | notCallable : Expected host token .notCallable (utf8 "Can only call functions and classes.")
  | wrongArity {expected : Int} {got : Nat} (differ : (got : Int) ≠ expected) :
      Expected host token (.wrongArity expected got)
        (utf8 "Expected " ++ Bytes.ofInt expected ++ utf8 " arguments but got " ++
          Bytes.ofNat got ++ utf8 ".")
  | tooDeep : Expected host token .tooDeep (utf8 "Stack overflow.")
  /-- A function of the host failed with this text. -/
  | native {calls : Nat} {f : Native} {args : List Value} {text : Bytes}
      (failed : host.call calls f args = .error text) : Expected host token (.native text) text

/-- The fault is that of a program at one of its tokens, or the sink's. -/
def Fault.Expected (host : Host) (T : Token → Prop) (reason : Bytes → Prop) : Fault → Prop
  | .raised token cause => T token ∧ cause.Expected host token cause.message
  | .sinkFailed text => reason text
  | _ => False

-- ==== Operators

/-- The operators between two operands, one by one. -/
theorem Kind.Binary.cases {k : Kind} (h : k.Binary) :
    k = .bangEqual ∨ k = .equalEqual ∨ k = .greater ∨ k = .greaterEqual ∨ k = .less ∨
      k = .lessEqual ∨ k = .minus ∨ k = .plus ∨ k = .slash ∨ k = .star := by
  obtain ⟨level, hlevel⟩ := h
  revert hlevel
  cases k <;> simp [binaryLevels]

/-- What operators come to is no function, and what they fail with is the program's fault. -/
def Computes (host : Host) (T : Token → Prop) (reason : Bytes → Prop) : Except Fault Value → Prop
  | .ok v => v.arity? = none
  | .error f => f.Expected host T reason

/-- An operator before one operand asks for a number, or for nothing. -/
theorem applyUnary_computes {operator : Token} (h : operator.kind.Unary) (ht : T operator)
    (v : Value) : Computes host T reason (applyUnary operator v) := by
  rcases h with hk | hk
  · simp only [applyUnary, hk]
    rfl
  · cases v with
    | number x =>
        simp only [applyUnary, hk]
        rfl
    | _ =>
        simp only [applyUnary, hk]
        exact ⟨ht, .operandNotNumber⟩

/-- An operator on numbers asks for two of them. -/
theorem applyNumeric_computes {operator : Token} (ht : T operator)
    (h : ∀ x y, ∃ v : Value, applyArithmetic operator x y = .ok v ∧ v.arity? = none)
    (left right : Value) : Computes host T reason (applyNumeric operator left right) := by
  unfold applyNumeric
  split
  next x y =>
    obtain ⟨v, hv, harity⟩ := h x y
    rw [hv]
    exact harity
  next => exact ⟨ht, .operandsNotNumbers⟩

/-- A plus asks for two numbers or two texts. -/
theorem applyPlus_computes {operator : Token} (ht : T operator) (left right : Value) :
    Computes host T reason (applyPlus operator left right) := by
  unfold applyPlus
  split
  next => rfl
  next => rfl
  next => exact ⟨ht, .operandsMixed⟩

/-- An operator between two operands comes to a value that is no function, or asks for others. -/
theorem applyBinary_computes {operator : Token} (h : operator.kind.Binary) (ht : T operator)
    (left right : Value) : Computes host T reason (applyBinary operator left right) := by
  rcases h.cases with hk | hk | hk | hk | hk | hk | hk | hk | hk | hk
  · simp only [applyBinary, hk]
    rfl
  · simp only [applyBinary, hk]
    rfl
  case inr.inr.inr.inr.inr.inr.inr.inl =>
    simp only [applyBinary, hk]
    exact applyPlus_computes ht left right
  all_goals
    simp only [applyBinary, hk]
    refine applyNumeric_computes ht (fun x y => ?_) left right
    simp only [applyArithmetic, hk]
    exact ⟨_, rfl, rfl⟩

-- ==== Machines

/-- A function that can be called. -/
def Value.Runnable (T : Token → Prop) : Value → Prop
  | .function f => ∃ code, f.code = some code ∧ Stmt.RunnableAll T true code.body
  | _ => True

/-- What cannot be called needs no code. -/
theorem Value.runnable_of_arity? {v : Value} (h : v.arity? = none) : v.Runnable T := by
  cases v with
  | function f => cases h
  | _ => trivial

/-- Is a call under way, for which the work waits? -/
def Pending.inCall : List Pending → Bool
  | [] => false
  | .invoked :: _ => true
  | _ :: stack => Pending.inCall stack

/-- Work that can be done, where `inCall` tells whether it is done in the course of a call. Its
operators and tokens are in order, so that whatever value it is given, it goes on or fails with one
of the expected causes. -/
def Pending.Runnable (T : Token → Prop) (inCall : Bool) : Pending → Prop
  | .unary _ operator => operator.kind.Unary ∧ T operator
  | .left _ operator operand _ => operator.kind.Binary ∧ T operator ∧ operand.Runnable T
  | .right _ operator _ => operator.kind.Binary ∧ T operator
  | .decide _ operand _ => operand.Runnable T
  | .assign _ name _ => T name
  | .callee _ paren arguments _ => T paren ∧ Expr.RunnableAll T arguments
  | .argument _ paren called before rest _ =>
    T paren ∧ called.Runnable T ∧ (∀ v ∈ before, v.Runnable T) ∧ Expr.RunnableAll T rest
  | .sequence rest _ => Stmt.RunnableAll T inCall rest
  | .choose positive negative _ => positive.Runnable T inCall ∧ negative.Runnable T inCall
  | .loopTest condition body _ => condition.Runnable T ∧ body.Runnable T inCall
  | .loopBody condition body _ => condition.Runnable T ∧ body.Runnable T inCall
  | .result => inCall = true
  | _ => True

/-- Waiting work that can be done. -/
def Pending.RunnableAll (T : Token → Prop) : List Pending → Prop
  | [] => True
  | p :: stack => p.Runnable T (inCall stack) ∧ RunnableAll T stack

/-- A next thing to do that can be done; a fault is one that programs can run into. -/
def Control.Runnable (host : Host) (T : Token → Prop) (reason : Bytes → Prop) (inCall : Bool) :
    Control → Prop
  | .eval e _ => e.Runnable T
  | .exec s _ => s.Runnable T inCall
  | .yield v => v.Runnable T
  | .leave v => inCall = true ∧ v.Runnable T
  | .fail f => f.Expected host T reason

/-- All functions that the frames bind can be called. -/
def Store.Runnable (T : Token → Prop) (s : Store) : Prop :=
  ∀ ref x v, s.lookup? ref x = some v → v.Runnable T

/-- All functions that the host answers with can be called. -/
def Host.Answers (host : Host) (T : Token → Prop) : Prop :=
  ∀ calls f args v, host.call calls f args = .ok v → v.Runnable T

/-- The machine has only trees that can be run: what it does next, what waits, and what the
functions in its frames have as their code. -/
structure Machine.Runnable (host : Host) (T : Token → Prop) (reason : Bytes → Prop) (m : Machine) :
    Prop where
  control : m.control.Runnable host T reason (Pending.inCall m.stack)
  stack : Pending.RunnableAll T m.stack
  store : m.store.Runnable T
  sink : ∀ text, m.sink.Gives text → reason text

/-- If the next step looks up a name in vain, then the name is undefined; its distance leads to a
frame. -/
structure Machine.Near (host : Host) (m : Machine) : Prop where
  read : ∀ {id name env fault}, m.control = .eval (.ident id name) env →
    readName host m.store id name env = .error fault → fault = .undefined name.lexeme
  assign : ∀ {v id name env stack fault}, m.control = .yield v →
    m.stack = .assign id name env :: stack →
    findName host m.store id name env = .error fault → fault = .undefined name.lexeme

-- ==== Frames

namespace Store.Runnable

variable {s : Store} {ref : FrameRef} {name : Bytes} {v : Value}

/-- A value that can be called is bound. -/
theorem define (h : s.Runnable T) (hv : v.Runnable T) : (s.define ref name v).Runnable T :=
  All.define h hv

theorem add (h : s.Runnable T) (parent : Option FrameRef) : (s.add parent).Runnable T :=
  All.add h parent

/-- The arguments of a call are bound. -/
theorem bindParams (h : s.Runnable T) (params : List Token) {args : List Value}
    (hargs : ∀ v ∈ args, v.Runnable T) : (Machine.bindParams s ref params args).Runnable T :=
  All.bindParams h params hargs

/-- What a name is read as can be called if it is a function. -/
theorem readName {id : Nat} {name : Token} {env : FrameRef} (h : s.Runnable T)
    (hread : Machine.readName host s id name env = .ok v) : v.Runnable T :=
  All.readName h hread

end Store.Runnable

-- ==== Steps

namespace Machine.Runnable

/-- The waiting work is left as it is. -/
theorem goOn {c : Control} (h : m.Runnable host T reason)
    (hc : c.Runnable host T reason (Pending.inCall m.stack)) :
    { m with control := c }.Runnable host T reason :=
  ⟨hc, h.stack, h.store, h.sink⟩

/-- The work is left for what is done first; it is not the end of a call. -/
theorem push {p : Pending} {c : Control} (h : m.Runnable host T reason)
    (hp : p.Runnable T (Pending.inCall m.stack))
    (hc : c.Runnable host T reason (Pending.inCall (p :: m.stack))) :
    { m with control := c, stack := p :: m.stack }.Runnable host T reason :=
  ⟨hc, ⟨hp, h.stack⟩, h.store, h.sink⟩

/-- The outcome of an operator is a value that is no function, or a fault of the program. -/
theorem settle {result : Except Fault Value} (h : m.Runnable host T reason)
    (hr : Computes host T reason result) :
    { m with control := .settle result }.Runnable host T reason := by
  cases result with
  | ok v => exact h.goOn (Value.runnable_of_arity? hr)
  | error f => exact h.goOn hr

/-- The body of a function is carried out in the course of a call. -/
theorem invoke {paren : Token} {f : Closure} {args : List Value} (h : m.Runnable host T reason)
    (hparen : T paren) (hf : Value.Runnable T (.function f)) (hargs : ∀ v ∈ args, v.Runnable T) :
    (m.invoke paren f args).Runnable host T reason := by
  obtain ⟨code, hcode, hbody⟩ := hf
  unfold Machine.invoke
  split
  · exact h.goOn ⟨hparen, .tooDeep⟩
  · rw [hcode]
    exact ⟨trivial, ⟨hbody, trivial, h.stack⟩, (h.store.add _).bindParams code.params hargs, h.sink⟩

/-- A call enters a function, asks the host, or fails at its closing parenthesis: what is called is
no function, takes another number of arguments, is too deep, or the host refuses. -/
theorem apply {paren : Token} {callee : Value} {args : List Value} (answers : host.Answers T)
    (h : m.Runnable host T reason) (hparen : T paren) (hcallee : callee.Runnable T)
    (hargs : ∀ v ∈ args, v.Runnable T) :
    (m.apply host paren callee args).Runnable host T reason := by
  unfold Machine.apply
  cases callee.arity? with
  | none => exact h.goOn ⟨hparen, .notCallable⟩
  | some arity =>
      dsimp only
      split
      next hdiffer => exact h.goOn ⟨hparen, .wrongArity hdiffer⟩
      next =>
        cases callee with
        | function f => exact h.invoke hparen hcallee hargs
        | native f =>
            have hanswer : Control.Runnable host T reason (Pending.inCall m.stack)
                (.answer paren (host.call m.calls f args)) := by
              cases hcall : host.call m.calls f args with
              | error text => exact ⟨hparen, .native hcall⟩
              | ok v =>
                  have hv := answers _ _ _ _ hcall
                  cases v <;> exact hv
            exact ⟨hanswer, h.stack, h.store, h.sink⟩
        | _ => exact h.goOn ⟨hparen, .notCallable⟩

/-- The next argument is evaluated, or the call is made. -/
theorem passArguments {paren : Token} {callee : Value} {before : List Value} {rest : List Expr}
    (answers : host.Answers T) (h : m.Runnable host T reason) (hparen : T paren)
    (hcallee : callee.Runnable T) (hbefore : ∀ v ∈ before, v.Runnable T)
    (hrest : Expr.RunnableAll T rest) (id : Nat) (env : FrameRef) :
    (m.passArguments host id paren callee before rest env).Runnable host T reason := by
  cases rest with
  | nil =>
      exact h.apply answers hparen hcallee fun v hv => hbefore v (List.mem_reverse.mp hv)
  | cons e rest => exact h.push ⟨hparen, hcallee, hbefore, hrest.2⟩ hrest.1

/-- An expression is evaluated. Only a name can fail here, and it is undefined then: that a distance
leads to no frame is ruled out by `near`. -/
theorem evalStep {e : Expr} {env : FrameRef} (h : m.Runnable host T reason) (he : e.Runnable T)
    (near : ∀ {id name fault}, e = .ident id name →
      readName host m.store id name env = .error fault → fault = .undefined name.lexeme) :
    (m.evalStep host e env).Runnable host T reason := by
  cases e with
  | absent => exact he.elim
  | literal id value =>
      obtain ⟨v, hv⟩ := he
      simp only [Machine.evalStep, hv]
      refine h.goOn ?_
      cases value <;> cases hv <;> trivial
  | grouping id inner => exact h.goOn he
  | unary id operator operand => exact h.push ⟨he.1, he.2.1⟩ he.2.2
  | binary id left operator right => exact h.push ⟨he.1, he.2.1, he.2.2.2⟩ he.2.2.1
  | logical id left operator right => exact h.push he.2 he.1
  | assign id name value => exact h.push he.1 he.2
  | ident id name =>
      dsimp only [Machine.evalStep]
      cases hread : readName host m.store id name env with
      | ok v => exact h.goOn (h.store.readName hread)
      | error fault =>
          obtain rfl := near rfl hread
          exact h.goOn ⟨he, .undefined⟩
  | call id callee paren arguments => exact h.push ⟨he.1, he.2.2⟩ he.2.1

/-- A statement is carried out, and leaves work that can be done. None fails here; a return is
carried out only where a call is under way, which is what its place in the program says. -/
theorem execStep {s : Stmt} {env : FrameRef} (h : m.Runnable host T reason)
    (hs : s.Runnable T (Pending.inCall m.stack)) : (m.execStep s env).Runnable host T reason := by
  cases s with
  | absent => exact h.goOn trivial
  | expression id value => exact h.push trivial hs
  | print id value => exact h.push trivial hs
  | var id name initializer =>
      cases initializer with
      | absent => exact ⟨trivial, h.stack, h.store.define trivial, h.sink⟩
      | _ => exact h.push trivial (hs.resolve_left nofun)
  | block id body => exact ⟨trivial, ⟨hs, h.stack⟩, h.store.add _, h.sink⟩
  | branch id condition positive negative => exact h.push hs.2 hs.1
  | loop id condition body => exact h.push hs hs.1
  | function id name params body =>
      have hstore : Store.Runnable T { m.store with issued := m.store.issued + 1 } := h.store
      exact ⟨trivial, h.stack, hstore.define ⟨_, rfl, hs⟩, h.sink⟩
  | result id keyword value =>
      cases value with
      | absent => exact h.goOn ⟨hs.1, trivial⟩
      | _ => exact h.push hs.1 (hs.2.resolve_left nofun)

/-- The work goes on with a result. Operators, calls and assignments can fail here, each at its own
token, and printing may fail by the sink. As with names, an assignment fails only where the name is
undefined. -/
theorem resumeStep {p : Pending} {v : Value} (answers : host.Answers T)
    (h : m.Runnable host T reason) (hp : p.Runnable T (Pending.inCall m.stack))
    (hv : v.Runnable T)
    (near : ∀ {id name env fault}, p = .assign id name env →
      findName host m.store id name env = .error fault → fault = .undefined name.lexeme) :
    (m.resumeStep host p v).Runnable host T reason := by
  cases p with
  | unary id operator => exact h.settle (applyUnary_computes hp.1 hp.2 v)
  | left id operator right env => exact h.push ⟨hp.1, hp.2.1⟩ hp.2.2
  | right id operator left => exact h.settle (applyBinary_computes hp.1 hp.2 left v)
  | decide operator right env =>
      dsimp only [Machine.resumeStep]
      split
      · exact h.goOn hv
      · exact h.goOn hp
  | assign id name env =>
      dsimp only [Machine.resumeStep]
      cases hfind : findName host m.store id name env with
      | ok ref => exact ⟨hv, h.stack, h.store.define hv, h.sink⟩
      | error fault =>
          obtain rfl := near rfl hfind
          exact h.goOn ⟨hp, .undefined⟩
  | callee id paren arguments env =>
      exact h.passArguments answers hp.1 hv (List.forall_mem_nil _) hp.2 id env
  | argument id paren callee before rest env =>
      obtain ⟨hparen, hcallee, hbefore, hrest⟩ := hp
      exact h.passArguments answers hparen hcallee (List.forall_mem_cons.mpr ⟨hv, hbefore⟩) hrest id
        env
  | invoked => exact ⟨trivial, h.stack, h.store, h.sink⟩
  | discard => exact h.goOn trivial
  | print =>
      dsimp only [Machine.resumeStep]
      cases hnext : m.sink.next? with
      | none => exact ⟨trivial, h.stack, h.store, h.sink⟩
      | some r =>
          have hreason := h.sink r.reason ⟨m.sink.offered, r, hnext, rfl⟩
          exact ⟨hreason, h.stack, h.store, h.sink⟩
  | bind name env => exact ⟨trivial, h.stack, h.store.define hv, h.sink⟩
  | sequence rest env =>
      cases rest with
      | nil => exact h.goOn trivial
      | cons s rest => exact h.push hp.2 hp.1
  | choose positive negative env =>
      refine h.goOn ?_
      cases v.isTruthy with
      | true => exact hp.1
      | false => exact hp.2
  | loopTest condition body env =>
      dsimp only [Machine.resumeStep]
      split
      · exact h.push hp hp.2
      · exact h.goOn trivial
  | loopBody condition body env => exact h.push hp hp.1
  | result => exact h.goOn ⟨hp, hv⟩

/-- A step of a machine that has only trees that can be run. A return that finds the end of a call
has come back, and otherwise the call is still further down. -/
theorem step (answers : host.Answers T) (near : m.Near host) (h : m.Runnable host T reason) :
    (m.step host).Runnable host T reason := by
  obtain ⟨control, stack, store, sink, depth, calls⟩ := m
  obtain ⟨hcontrol, hstack, hstore, hsink⟩ := h
  have idle : ∀ {stack : List Pending}, Pending.RunnableAll T stack →
      Runnable host T reason ⟨.yield .nil, stack, store, sink, depth, calls⟩ :=
    fun h => ⟨trivial, h, hstore, hsink⟩
  cases control with
  | eval e env =>
      exact (idle hstack).evalStep hcontrol fun he => near.read (congrArg (Control.eval · env) he)
  | exec s env => exact (idle hstack).execStep hcontrol
  | yield v =>
      cases stack with
      | nil => exact ⟨hcontrol, hstack, hstore, hsink⟩
      | cons p stack =>
          exact (idle hstack.2).resumeStep answers hstack.1 hcontrol fun hp =>
            near.assign rfl (congrArg (· :: stack) hp)
  | leave v =>
      cases stack with
      | nil => exact ⟨hcontrol, hstack, hstore, hsink⟩
      | cons p stack =>
          cases p with
          | invoked => exact ⟨hcontrol.2, hstack.2, hstore, hsink⟩
          | _ => exact ⟨hcontrol, hstack.2, hstore, hsink⟩
  | fail f =>
      cases stack with
      | nil => exact ⟨hcontrol, hstack, hstore, hsink⟩
      | cons p stack => cases p <;> exact ⟨hcontrol, hstack.2, hstore, hsink⟩

end Machine.Runnable

-- ==== Returns

/-- Work that waits for a statement to end, within one call. -/
def Pending.OfStatement : Pending → Prop
  | .sequence _ _ => True
  | .loopBody _ _ _ => True
  | _ => False

/-- A return comes back to its call, past the statements that it leaves, and is the value of the
call. -/
theorem Machine.run_leave {v : Value} {work rest : List Pending} (hcontrol : m.control = .leave v)
    (hstack : m.stack = work ++ .invoked :: rest) (hwork : ∀ p ∈ work, p.OfStatement) :
    m.run host (work.length + 1) =
      { m with control := .yield v, stack := rest, depth := m.depth - 1 } := by
  obtain ⟨control, stack, store, sink, depth, calls⟩ := m
  subst hcontrol hstack
  induction work with
  | nil => rfl
  | cons p work ih =>
      obtain ⟨hp, hrest⟩ := List.forall_mem_cons.mp hwork
      rw [List.length_cons, run, if_neg (by simp [isDone])]
      cases p with
      | sequence => exact ih hrest
      | loopBody => exact ih hrest
      | _ => exact hp.elim

end Lox
