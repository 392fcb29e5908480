/-
One step of both machines.

# What is shown

From machines that are tied, one step on each side leads to machines that are tied (`Tied.step`).
The cases are those of the step: what an expression, a statement and a piece of waiting work do.
Only where a frame is added, a name is declared or a name is bound does the layout change, and it
only grows.

# Where the two differ

The machine that runs programs looks names up by distances and goes out by parents; the lexical
machine looks them up in its scopes (`Heap.use`). The lexical machine declares a name before it
carries out the statement that declares it (`declaring_tied`), in a new map of scopes, and the other
one binds the name when its value is known (`define_tied`). A block or a call adds a frame on the
one side and an empty scope on the other (`enter_tied`, `invoke_tied`).

# Where they do not

Operators, conditions, arguments and returns are the same on both sides but for functions, which
agree (`Doing.settle`). The clock is the one function of the host, and answers both alike
(`answer_tied`).
-/
import Lox.Proofs.Frames.Change

namespace Lox

open Lexical (CellRef Scopes Cells)

variable {vs : List Visit} {L : Layout} {scene : Scene} {scopes : List Scope}
variable {ρ : FrameRef} {σ : Scopes} {store : Store} {mem : Cells}
variable {K : List Pending} {K' : List (Pending Scopes)} {sink : Sink} {depth calls : Nat}
variable {v w : Value} {v' w' : Value Scopes}
variable {host : Host} {reading : Nat → Float}

-- ==== Operators

/-- Both operators come to values that agree, or to the same fault. -/
theorem Doing.settle {awaited : Awaited} {r : Except Fault Value} {r' : Except Fault (Value Scopes)}
    (h : Settles (Closure.Agrees vs L) 0 r r') (exact : Exact L scene ρ)
    (stack : Stack vs L awaited ρ scene K K') : Doing vs L (.settle r) (.settle r') K K' := by
  cases h with
  | ok agrees => exact .yield exact agrees stack
  | error f =>
      rw [Fault.moved_zero]
      exact .fail f stack

-- ==== Expressions

/-- An expression is evaluated on both sides, with what the walk knew there. All but a name only go
on to their parts; a name is where a distance meets a search through the scopes, and `Heap.use` has
both come to the same. -/
theorem evalStep_tied (hs : Serves host reading vs) (heap : Heap vs L store mem)
    (exact : Exact L scene ρ) (chain : Chain L scopes ρ σ) (holds : Holds L scopes ρ) {e : Expr}
    (seen : SeenExpr vs scene scopes e) (stack : Stack vs L .value ρ scene K K') :
    Tied vs L (Machine.evalStep host ⟨.yield .nil, K, store, sink, depth, calls⟩ e ρ)
      (Lexical.Machine.evalStep ⟨.yield .nil, K', mem, sink, depth, calls⟩ e σ) := by
  cases e with
  | absent => exact ⟨heap, .fail _ stack, rfl, rfl, rfl⟩
  | literal id value =>
      cases value with
      | nil => exact ⟨heap, .yield exact .nil stack, rfl, rfl, rfl⟩
      | bool b => exact ⟨heap, .yield exact (.bool b) stack, rfl, rfl, rfl⟩
      | number x => exact ⟨heap, .yield exact (.number x) stack, rfl, rfl, rfl⟩
      | string s => exact ⟨heap, .yield exact (.string s) stack, rfl, rfl, rfl⟩
      | integer n => exact ⟨heap, .fail _ stack, rfl, rfl, rfl⟩
  | grouping id inner =>
      exact ⟨heap, .eval exact chain holds seen.grouping stack, rfl, rfl, rfl⟩
  | unary id operator operand =>
      exact ⟨heap, .eval exact chain holds seen.unary (.unary id operator stack), rfl, rfl, rfl⟩
  | binary id left operator right =>
      obtain ⟨hl, hr⟩ := seen.binary
      exact ⟨heap, .eval exact chain holds hl (.left id operator chain holds hr stack),
        rfl, rfl, rfl⟩
  | logical id left operator right =>
      obtain ⟨hl, hr⟩ := seen.logical
      exact ⟨heap, .eval exact chain holds hl (.decide operator chain holds hr stack),
        rfl, rfl, rfl⟩
  | assign id name value =>
      exact ⟨heap, .eval exact chain holds seen.assign (.assign chain holds seen stack),
        rfl, rfl, rfl⟩
  | ident id name =>
      obtain ⟨ref, hread, -, hrel, -⟩ := heap.use hs chain seen rfl
      rcases Value.Alike.rel_cases hrel with ⟨v, v', hv, hv', agrees⟩ | ⟨hv, hv'⟩
      · simp only [Machine.evalStep, Lexical.Machine.evalStep, hread, Store.get, Cells.read, hv,
          hv']
        exact ⟨heap, .yield exact agrees stack, rfl, rfl, rfl⟩
      · simp only [Machine.evalStep, Lexical.Machine.evalStep, hread, Store.get, Cells.read, hv,
          hv']
        exact ⟨heap, .fail _ stack, rfl, rfl, rfl⟩
  | call id callee paren arguments =>
      obtain ⟨hc, ha⟩ := seen.call
      exact ⟨heap, .eval exact chain holds hc (.callee id paren chain holds ha stack),
        rfl, rfl, rfl⟩

-- ==== Statements

/-- A variable with an initializer is bound when the value is there. -/
theorem execStep_var {initializer : Expr} (h : initializer ≠ .absent) (m : Machine) (id : Nat)
    (name : Token) (ρ : FrameRef) :
    m.execStep (.var id name initializer) ρ =
      { m with control := .eval initializer ρ, stack := .bind name ρ :: m.stack } := by
  cases initializer <;> first | exact absurd rfl h | rfl

theorem Lexical.Machine.execStep_var {initializer : Expr} (h : initializer ≠ .absent)
    (m : Lexical.Machine) (id : Nat) (name : Token) (σ : Scopes) :
    m.execStep (.var id name initializer) σ =
      { m with control := .eval initializer σ, stack := .bind name σ :: m.stack } := by
  cases initializer <;> first | exact absurd rfl h | rfl

/-- A return with a value is carried out when the value is there. -/
theorem execStep_result {value : Expr} (h : value ≠ .absent) (m : Machine) (id : Nat)
    (keyword : Token) (ρ : FrameRef) :
    m.execStep (.result id keyword value) ρ =
      { m with control := .eval value ρ, stack := .result :: m.stack } := by
  cases value <;> first | exact absurd rfl h | rfl

theorem Lexical.Machine.execStep_result {value : Expr} (h : value ≠ .absent)
    (m : Lexical.Machine) (id : Nat) (keyword : Token) (σ : Scopes) :
    m.execStep (.result id keyword value) σ =
      { m with control := .eval value σ, stack := .result :: m.stack } := by
  cases value <;> first | exact absurd rfl h | rfl

/-- Going into a block. -/
theorem enter_tied (heap : Heap vs L store mem) (exact : Exact L scene ρ)
    (chain : Chain L scene.scopes ρ σ) {body : List Stmt} (seen : SeenBody vs scene.enter body)
    (stack : Stack vs L .statement ρ scene K K') :
    ∃ L', Tied vs L'
      ⟨.yield .nil, .sequence body store.nextRef :: K, store.add (some ρ), sink, depth, calls⟩
      ⟨.yield .nil, .sequence body ([] :: σ) :: K', mem, sink, depth, calls⟩ := by
  obtain ⟨L', hs, heap', exact', chain', owns'⟩ := heap.enter exact.toSound chain
  have hyounger : ρ < store.nextRef := heap.lt_of_chain chain
  exact ⟨L', heap', .yield exact' .nil (.sequence chain' owns' seen hyounger
    (exact.spared hs hyounger) (stack.keeps (hs.keeps hyounger))), rfl, rfl, rfl⟩

/-- Binding the name of a declaration, and going on after it. -/
theorem define_tied {awaited : Awaited} {name : Token} (heap : Heap vs L store mem)
    (exact : Exact L scene ρ) (chain : Chain L (Scope.record name.lexeme false scene.scopes) ρ σ)
    (agrees : Agrees vs (L.bind ρ name.lexeme) v v')
    (stack : Stack vs L awaited ρ (scene.define name.lexeme) K K') :
    Tied vs (L.bind ρ name.lexeme)
      ⟨.yield .nil, K, store.define ρ name.lexeme v, sink, depth, calls⟩
      ⟨.yield .nil, K', mem.define σ name.lexeme v', sink, depth, calls⟩ :=
  ⟨heap.define chain agrees, .yield (exact.define name.lexeme) .nil
    (stack.keeps (Layout.keeps_bind (.inr (Nat.le_refl ρ)))), rfl, rfl, rfl⟩

/-- A statement is carried out on both sides. The lexical machine has declared its name already, so
the scopes that its scopes are tied to are those after the statement, while the frame does not have
the name yet. -/
theorem execStep_tied (heap : Heap vs L store mem) (exact : Exact L scene ρ) {s : Stmt}
    (chain : Chain L (s.scopesAfter scene.scopes) ρ σ) (seen : SeenStmt vs scene s)
    (stack : Stack vs L .statement ρ (scene.after s) K K') :
    ∃ L', Tied vs L' (Machine.execStep ⟨.yield .nil, K, store, sink, depth, calls⟩ s ρ)
      (Lexical.Machine.execStep ⟨.yield .nil, K', mem, sink, depth, calls⟩ s σ) := by
  cases s with
  | absent => exact ⟨L, heap, .yield exact .nil stack, rfl, rfl, rfl⟩
  | expression id value =>
      exact ⟨L, heap, .eval exact chain exact.holds seen.expression (.discard stack),
        rfl, rfl, rfl⟩
  | print id value =>
      exact ⟨L, heap, .eval exact chain exact.holds seen.print (.print stack), rfl, rfl, rfl⟩
  | var id name initializer =>
      have chain' := Chain.define.mpr chain
      by_cases hi : initializer = .absent
      · subst hi
        exact ⟨_, define_tied heap exact chain' .nil stack⟩
      · rw [execStep_var hi, Lexical.Machine.execStep_var hi]
        exact ⟨L, heap, .eval exact chain' (exact.holds.declare name.lexeme) seen.var
          (.bind chain' stack), rfl, rfl, rfl⟩
  | block id body => exact enter_tied heap exact chain seen.block stack
  | branch id condition positive negative =>
      obtain ⟨hc, ⟨hp, hdp⟩, hn, hdn⟩ := seen.branch
      exact ⟨L, heap, .eval exact chain exact.holds hc (.choose chain hp hdp hn hdn stack),
        rfl, rfl, rfl⟩
  | loop id condition body =>
      obtain ⟨hc, hb, hd⟩ := seen.loop
      exact ⟨L, heap, .eval exact chain exact.holds hc (.loopTest chain hc hb hd stack),
        rfl, rfl, rfl⟩
  | function id name params body =>
      have chain' := Chain.define.mpr chain
      have hissued : store.issued = mem.issued := heap.issued
      refine ⟨L.bind ρ name.lexeme, ?_⟩
      have agrees : Agrees vs (L.bind ρ name.lexeme)
          (.function ⟨store.issued + 1, some ⟨name, params, body⟩, ρ⟩)
          (.function ⟨mem.issued + 1, some ⟨name, params, body⟩, σ⟩) := by
        rw [hissued]
        refine .function (.mk fun code hcode => ?_)
        obtain rfl := Option.some.inj hcode
        exact ⟨scene.define name.lexeme, chain.mono (L.le_bind ρ name.lexeme),
          (exact.define name.lexeme).toSound, seen.function⟩
      exact define_tied heap.issue exact chain' agrees stack
  | result id keyword value =>
      by_cases hv : value = .absent
      · subst hv
        exact ⟨L, heap, .leave exact .nil stack, rfl, rfl, rfl⟩
      · rw [execStep_result hv, Lexical.Machine.execStep_result hv]
        exact ⟨L, heap, .eval exact chain exact.holds seen.result (.result stack), rfl, rfl, rfl⟩

-- ==== Calls

/-- The body of a function is entered, in a frame under the one that it was declared in. The scene
there is the one that the function kept, whatever has been declared around the call; the work below
it is not disturbed, since the frame is new. -/
theorem invoke_tied (heap : Heap vs L store mem) (exact : Exact L scene ρ)
    (younger : ρ < store.nextRef) (paren : Token) {ident : Nat} {code : Option Code}
    {ρf : FrameRef} {σf : Scopes} (encloses : ∀ c, code = some c → Encloses vs L c ρf σf)
    {args : List Value} {args' : List (Value Scopes)}
    (hargs : List.Forall₂ (Agrees vs L) args args')
    (harity : args.length = Closure.arity ⟨ident, code, ρf⟩)
    (stack : Stack vs L .value ρ scene K K') :
    ∃ L', Tied vs L'
      (Machine.invoke ⟨.yield .nil, K, store, sink, depth, calls⟩ paren ⟨ident, code, ρf⟩ args)
      (Lexical.Machine.invoke ⟨.yield .nil, K', mem, sink, depth, calls⟩ paren ⟨ident, code, σf⟩
        args') := by
  by_cases hdepth : Machine.maxDepth ≤ depth
  · simp only [Machine.invoke, Lexical.Machine.invoke, hdepth, if_true]
    exact ⟨L, heap, .fail _ stack, rfl, rfl, rfl⟩
  · cases code with
    | none =>
        simp only [Machine.invoke, Lexical.Machine.invoke, hdepth, if_false]
        exact ⟨L, heap, .fail _ stack, rfl, rfl, rfl⟩
    | some code =>
        obtain ⟨scene', chain, sound, seen⟩ := encloses code rfl
        obtain ⟨L₁, hs₁, heap₁, exact₁, chain₁, owns₁⟩ := heap.enter sound chain
        obtain ⟨L₂, hs₂, heap₂, exact₂, chain₂, owns₂⟩ := bindParams_exact code.params heap₁ exact₁
          chain₁ owns₁ harity.symm (Agrees.mono_all hargs (List.Subset.refl _) hs₁.toLe)
        rw [← Scene.enterFunction_eq] at exact₂ chain₂
        have hs := hs₁.trans hs₂
        simp only [Machine.invoke, Lexical.Machine.invoke, hdepth, if_false]
        exact ⟨L₂, heap₂, .yield exact₂ .nil (.sequence chain₂ owns₂ seen younger
          (exact.spared hs younger) (.invoked (stack.keeps (hs.keeps younger)))), rfl, rfl, rfl⟩

/-- The clock answers both machines alike. -/
theorem answer_tied (hs : Serves host reading vs) (heap : Heap vs L store mem)
    (exact : Exact L scene ρ) (paren : Token) (f : Native) (args : List Value)
    (stack : Stack vs L .value ρ scene K K') :
    Tied vs L ⟨.answer paren (host.call calls f args), K, store, sink, depth, calls + 1⟩
      ⟨.answer paren (Lexical.hostCall reading calls f), K', mem, sink, depth, calls + 1⟩ := by
  unfold Host.call Lexical.hostCall
  rw [hs.clock]
  by_cases hf : f.ident = 0
  · simp only [hf, if_true]
    exact ⟨heap, .yield exact (.number _) stack, rfl, rfl, rfl⟩
  · have hout : (#[fun calls (_ : List Value) => Except.ok (Value.number (reading calls))] :
        Array (Nat → HostFunction))[f.ident]? = none := by
      simpa using hf
    simp only [hout, hf, if_false]
    exact ⟨heap, .yield exact .nil stack, rfl, rfl, rfl⟩

/-- The same is called with the same arguments. Values that agree take as many arguments, and so the
call is made, refused or answered by the host on both sides. -/
theorem apply_tied (hs : Serves host reading vs) (heap : Heap vs L store mem)
    (exact : Exact L scene ρ) (younger : ρ < store.nextRef) (paren : Token)
    (hcallee : Agrees vs L v v') {args : List Value} {args' : List (Value Scopes)}
    (hargs : List.Forall₂ (Agrees vs L) args args') (stack : Stack vs L .value ρ scene K K') :
    ∃ L', Tied vs L'
      (Machine.apply host ⟨.yield .nil, K, store, sink, depth, calls⟩ paren v args)
      (Lexical.Machine.apply reading ⟨.yield .nil, K', mem, sink, depth, calls⟩ paren v' args') := by
  have hlen : args'.length = args.length := hargs.length_eq.symm
  unfold Machine.apply Lexical.Machine.apply
  rw [hcallee.arity? Closure.Agrees.same, hlen]
  cases ha : v.arity? with
  | none => exact ⟨L, heap, .fail _ stack, rfl, rfl, rfl⟩
  | some arity =>
      by_cases hne : (args.length : Int) ≠ arity
      · dsimp only
        rw [if_pos hne, if_pos hne]
        exact ⟨L, heap, .fail _ stack, rfl, rfl, rfl⟩
      · dsimp only
        rw [if_neg hne, if_neg hne]
        have heq : (args.length : Int) = arity := not_not.mp hne
        cases hcallee with
        | function related =>
            have harity : (Closure.arity _ : Int) = arity := Option.some.inj ha
            cases related with
            | mk encloses =>
                exact invoke_tied heap exact younger paren encloses hargs
                  (Int.ofNat.inj (heq.trans harity.symm)) stack
        | native f => exact ⟨L, answer_tied hs heap exact paren f args stack⟩
        | _ => exact ⟨L, heap, .fail _ stack, rfl, rfl, rfl⟩

/-- The next argument is evaluated on both sides, or the call is made. -/
theorem passArguments_tied (hs : Serves host reading vs) (heap : Heap vs L store mem)
    (exact : Exact L scene ρ) (id : Nat) (paren : Token) (chain : Chain L scopes ρ σ)
    (holds : Holds L scopes ρ) (hcallee : Agrees vs L v v') {before : List Value}
    {before' : List (Value Scopes)} (passed : List.Forall₂ (Agrees vs L) before before')
    {rest : List Expr} (seen : SeenExprs vs scene scopes rest)
    (stack : Stack vs L .value ρ scene K K') :
    ∃ L', Tied vs L'
      (Machine.passArguments host ⟨.yield .nil, K, store, sink, depth, calls⟩ id paren v before
        rest ρ)
      (Lexical.Machine.passArguments reading ⟨.yield .nil, K', mem, sink, depth, calls⟩ id paren v'
        before' rest σ) := by
  cases rest with
  | nil =>
      exact apply_tied hs heap exact (heap.lt_of_chain chain) paren hcallee
        (List.rel_reverse passed) stack
  | cons e rest =>
      obtain ⟨he, hrest⟩ := seen.cons
      exact ⟨L, heap, .eval exact chain holds he
        (.argument id paren chain holds hcallee passed hrest stack), rfl, rfl, rfl⟩

-- ==== Waiting work

/-- A statement that is not a declaration. -/
theorem Doing.execPlain (exact : Exact L scene ρ) (chain : Chain L scene.scopes ρ σ) {s : Stmt}
    (seen : SeenStmt vs scene s) (plain : s.declared? = none)
    (stack : Stack vs L .statement ρ scene K K') : Doing vs L (.exec s ρ) (.exec s σ) K K' := by
  refine .exec exact ?_ seen ?_
  · rw [Stmt.scopesAfter_eq_self plain]
    exact chain
  · rw [Scene.after_eq_self plain]
    exact stack

/-- Declaring the name of a statement before it is carried out. -/
theorem declaring_tied (heap : Heap vs L store mem) (exact : Exact L scene ρ)
    (chain : Chain L scene.scopes ρ σ) (owns : Owns L ρ σ) (s : Stmt) :
    ∃ L', L.Spares L' ρ ∧
      Heap vs L' store (Lexical.Machine.declaring mem σ s).2 ∧ Exact L' scene ρ ∧
      Chain L' (s.scopesAfter scene.scopes) ρ (Lexical.Machine.declaring mem σ s).1 ∧
      Owns L' ρ (Lexical.Machine.declaring mem σ s).1 := by
  unfold Lexical.Machine.declaring Stmt.scopesAfter
  cases hd : s.declared? with
  | none => exact ⟨L, .refl L ρ, heap, exact, chain, owns⟩
  | some name =>
      obtain ⟨L', hs, hb, heap', chain', owns'⟩ := heap.declare chain owns name.lexeme
      exact ⟨L', hs, heap', exact.of_bound_eq hs.toLe hb, Chain.define.mp chain', owns'⟩

/-- The same work goes on with values that agree, with one case for each kind of work. Where a
variable is set, an assignment finds a cell that is bound on both sides or on neither, and a
declaration binds the cell that its name was given. -/
theorem resumeStep_tied (hs : Serves host reading vs) (heap : Heap vs L store mem)
    (exact : Exact L scene ρ) (agrees : Agrees vs L v v') {awaited : Awaited} {p : Pending}
    {p' : Pending Scopes} (stack : Stack vs L awaited ρ scene (p :: K) (p' :: K')) :
    ∃ L', Tied vs L'
      (Machine.resumeStep host ⟨.yield .nil, K, store, sink, depth, calls⟩ p v)
      (Lexical.Machine.resumeStep reading ⟨.yield .nil, K', mem, sink, depth, calls⟩ p' v') := by
  cases stack with
  | unary id operator below =>
      have settles := applyUnary_settles operator 0 agrees
      rw [Token.moved_zero] at settles
      exact ⟨L, heap, .settle settles exact below, rfl, rfl, rfl⟩
  | left id operator chain holds seen below =>
      exact ⟨L, heap, .eval exact chain holds seen (.right id operator agrees below), rfl, rfl, rfl⟩
  | right id operator before below =>
      have settles := applyBinary_settles Closure.Agrees.same operator 0 before agrees
      rw [Token.moved_zero] at settles
      exact ⟨L, heap, .settle settles exact below, rfl, rfl, rfl⟩
  | decide operator chain holds seen below =>
      simp only [Machine.resumeStep, Lexical.Machine.resumeStep, agrees.isTruthy]
      split
      · exact ⟨L, heap, .yield exact agrees below, rfl, rfl, rfl⟩
      · exact ⟨L, heap, .eval exact chain holds seen below, rfl, rfl, rfl⟩
  | @assign _ _ _ _ _ _ id name value chain holds seen below =>
      obtain ⟨ref, -, hfind, hrel, hassign⟩ := heap.use hs chain seen rfl
      have hsome := Value.Alike.isSome_of_rel hrel
      cases hl : store.lookup? ref name.lexeme with
      | some old =>
          obtain ⟨mem', hmem', heap'⟩ := hassign v v' agrees (by rw [hl]; rfl)
          simp only [Machine.resumeStep, Lexical.Machine.resumeStep, hfind, Store.bound, hl,
            Option.isSome_some, if_true, hmem']
          exact ⟨L, heap', .yield exact agrees below, rfl, rfl, rfl⟩
      | none =>
          rw [hl] at hsome
          simp only [Machine.resumeStep, Lexical.Machine.resumeStep, hfind, Store.bound, hl,
            Cells.assign, hsome, Option.isSome_none, Bool.false_eq_true, if_false]
          exact ⟨L, heap, .fail _ below, rfl, rfl, rfl⟩
  | callee id paren chain holds seen below =>
      exact passArguments_tied hs heap exact id paren chain holds agrees .nil seen below
  | argument id paren chain holds hcallee passed seen below =>
      exact passArguments_tied hs heap exact id paren chain holds hcallee (.cons agrees passed) seen
        below
  | discard below => exact ⟨L, heap, .yield exact .nil below, rfl, rfl, rfl⟩
  | print below =>
      simp only [Machine.resumeStep, Lexical.Machine.resumeStep, agrees.display Closure.Agrees.same]
      cases sink.next? with
      | none => exact ⟨L, heap, .yield exact .nil below, rfl, rfl, rfl⟩
      | some refusal => exact ⟨L, heap, .fail _ below, rfl, rfl, rfl⟩
  | bind chain below =>
      exact ⟨_, define_tied heap exact chain (Agrees.mono agrees (List.Subset.refl _) (L.le_bind ..)) below⟩
  | choose chain seenP plainP seenN plainN below =>
      simp only [Machine.resumeStep, Lexical.Machine.resumeStep, agrees.isTruthy]
      cases v.isTruthy with
      | true => exact ⟨L, heap, .execPlain exact chain seenP plainP below, rfl, rfl, rfl⟩
      | false => exact ⟨L, heap, .execPlain exact chain seenN plainN below, rfl, rfl, rfl⟩
  | loopTest chain seenC seenB plain below =>
      simp only [Machine.resumeStep, Lexical.Machine.resumeStep, agrees.isTruthy]
      split
      · exact ⟨L, heap, .execPlain exact chain seenB plain (.loopBody chain seenC seenB plain below),
          rfl, rfl, rfl⟩
      · exact ⟨L, heap, .yield exact .nil below, rfl, rfl, rfl⟩
  | result below => exact ⟨L, heap, .leave exact agrees below, rfl, rfl, rfl⟩
  | loopBody chain seenC seenB plain below =>
      exact ⟨L, heap, .eval exact chain exact.holds seenC (.loopTest chain seenC seenB plain below),
        rfl, rfl, rfl⟩
  | invoked below => exact ⟨L, heap, .yield exact .nil below, rfl, rfl, rfl⟩
  | @sequence _ _ _ _ _ _ σ rest chain owns seen younger exact₀ below =>
      cases rest with
      | nil => exact ⟨L, heap, .yield exact₀ .nil below, rfl, rfl, rfl⟩
      | cons s rest =>
          obtain ⟨hseen, hrest⟩ := seen.cons
          obtain ⟨L', hs', heap', exact', chain', owns'⟩ := declaring_tied heap exact chain owns s
          have hnext : Chain L' (scene.after s).scopes ρ (Lexical.Machine.declaring mem σ s).1 := by
            rw [Scene.after_scopes]
            exact chain'
          exact ⟨L', heap', .exec exact' chain' hseen (.sequence hnext owns' hrest younger
            (exact₀.spared hs' younger) (below.keeps (hs'.keeps younger))), rfl, rfl, rfl⟩
  | @program _ rest outermost seen =>
      cases rest with
      | nil => exact ⟨L, heap, .yield exact .nil (.done _ _), rfl, rfl, rfl⟩
      | cons s rest =>
          obtain ⟨hseen, hrest⟩ := seen.cons
          have hafter : s.scopesAfter scene.scopes = [] := by simpa using outermost
          have hdecl : Lexical.Machine.declaring mem [] s = ([], mem) := by
            unfold Lexical.Machine.declaring
            cases s.declared? <;> rfl
          simp only [Machine.resumeStep, Lexical.Machine.resumeStep, hdecl]
          refine ⟨L, heap, .exec exact ?_ hseen (.program ?_ hrest), rfl, rfl, rfl⟩
          · rw [hafter]
            exact .top
          · rw [Scene.after_scopes, hafter]

-- ==== The step

/-- From machines that are tied, a step on each side leads to machines that are tied. The layout may
have grown, by a frame or by a cell. A return or a fault takes work off both stacks, and comes to
the frame that the work below is in. -/
theorem Tied.step {m : Machine} {l : Lexical.Machine} (hs : Serves host reading vs)
    (h : Tied vs L m l) : ∃ L', Tied vs L' (m.step host) (l.step reading) := by
  obtain ⟨control, K, store, sink, depth, calls⟩ := m
  obtain ⟨control', K', mem, sink', depth', calls'⟩ := l
  obtain ⟨heap, doing, hsink, hdepth, hcalls⟩ := h
  dsimp only at heap doing hsink hdepth hcalls
  subst hsink hdepth hcalls
  cases doing with
  | eval exact chain holds seen stack => exact ⟨L, evalStep_tied hs heap exact chain holds seen stack⟩
  | exec exact chain seen stack => exact execStep_tied heap exact chain seen stack
  | yield exact agrees stack =>
      cases K with
      | nil =>
          cases stack
          exact ⟨L, heap, .yield exact agrees (.done _ _), rfl, rfl, rfl⟩
      | cons p K =>
          cases K' with
          | nil => cases stack
          | cons p' K' => exact resumeStep_tied hs heap exact agrees stack
  | leave exact agrees stack =>
      cases stack with
      | loopBody chain seenC seenB plain below =>
          exact ⟨L, heap, .leave exact agrees below, rfl, rfl, rfl⟩
      | invoked below => exact ⟨L, heap, .yield exact agrees below, rfl, rfl, rfl⟩
      | sequence chain owns seen younger exact₀ below =>
          exact ⟨L, heap, .leave exact₀ agrees below, rfl, rfl, rfl⟩
      | program outermost seen => exact ⟨L, heap, .leave exact agrees (.done _ _), rfl, rfl, rfl⟩
      | done => exact ⟨L, heap, .leave exact agrees (.done _ _), rfl, rfl, rfl⟩
  | @fail ρ scene _ _ _ f stack =>
      cases stack with
      | program => exact ⟨L, heap, .fail f (.done Store.global scene), rfl, rfl, rfl⟩
      | done => exact ⟨L, heap, .fail f (.done ρ scene), rfl, rfl, rfl⟩
      | _ => exact ⟨L, heap, .fail f ‹_›, rfl, rfl, rfl⟩

end Lox
