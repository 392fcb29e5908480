/-
Moved machines go in step.

# One step

One step of a machine and one step of the machine beside it lead to machines beside each other
(`Machine.Moved.step`). There is one lemma for each part of a step, by cases on the tree or on the
work that waits; what stays the same in all of them is gathered in `Settled`.

# Who is to blame

When a fault comes up, the node to blame is the one that the step looks at (`Machine.site?`): the
two faults stand at the same token of that node, and so as many lines apart as that node is moved.
As long as no fault has come up no node is to blame (`unblamed`), and once one has, the steps only
take work off the stack (`step_failed`).

# Any number of steps

By induction, any number of steps lead to machines beside each other (`Machine.Moved.run`), and the
node to blame is that of the step in which the fault came up (`Machine.blamed`). Both are done at
the same time (`Machine.Moved.isDone`).
-/
import Lox.Proofs.Machine.Moved

namespace Lox

variable {f : Nat → Int} {host host' : Host} {before : List Bytes} {node : Option Nat}
variable {m m' : Machine} {K K' : List Pending} {store store' : Store} {sink sink' : Sink}
variable {depth calls : Nat} {v v' w w' : Value}

-- ==== The node that a step looks at

/-- The node that waiting work belongs to, if it can fail at one of the node's tokens. -/
def Pending.id? : Pending → Option Nat
  | .unary id _ => some id
  | .right id _ _ => some id
  | .assign id _ _ => some id
  | .callee id _ _ _ => some id
  | .argument id _ _ _ _ _ => some id
  | _ => none

/-- The node that the next step looks at, if the step can fail at one of the node's tokens. -/
def Machine.site? (m : Machine) : Option Nat :=
  match m.control, m.stack with
  | .eval e _, _ => e.id?
  | .yield _, p :: _ => p.id?
  | _, _ => none

-- ==== One step

/-- What does not change from a step to the next, taken apart, so that the lemmas about single steps
need no machine to speak of. -/
structure Settled (f : Nat → Int) (before : List Bytes) (K K' : List Pending)
    (store store' : Store) (sink sink' : Sink) : Prop where
  stack : List.Forall₂ (Pending.Moved f) K K'
  store : store.Moved f store'
  sink : sink' = { sink with taken := sink.taken ++ before }

/-- An expression is evaluated on both sides. A name may be undefined, at its own node; then the
fault has moved with the token of the name, and nothing else in the two machines depends on where
tokens stand. -/
theorem evalStep_moved (hh : host.Moved f host') (h : Settled f before K K' store store' sink sink')
    (e : Expr) (env : FrameRef) :
    Machine.Moved f before e.id?
      (Machine.evalStep host ⟨.yield .nil, K, store, sink, depth, calls⟩ e env)
      (Machine.evalStep host' ⟨.yield .nil, K', store', sink', depth, calls⟩ (e.moved f) env) := by
  obtain ⟨hstack, hstore, hsink⟩ := h
  cases e with
  | absent => exact ⟨.fail .absentExpression, hstack, hstore, hsink, rfl, rfl⟩
  | literal id value =>
      cases value with
      | nil => exact ⟨.yield .nil, hstack, hstore, hsink, rfl, rfl⟩
      | bool b => exact ⟨.yield (.bool b), hstack, hstore, hsink, rfl, rfl⟩
      | number x => exact ⟨.yield (.number x), hstack, hstore, hsink, rfl, rfl⟩
      | string s => exact ⟨.yield (.string s), hstack, hstore, hsink, rfl, rfl⟩
      | integer n => exact ⟨.fail .hostLiteral, hstack, hstore, hsink, rfl, rfl⟩
  | grouping id inner => exact ⟨.eval inner env, hstack, hstore, hsink, rfl, rfl⟩
  | unary id operator operand =>
      exact ⟨.eval operand env, .cons (.unary id operator) hstack, hstore, hsink, rfl, rfl⟩
  | binary id left operator right =>
      exact ⟨.eval left env, .cons (.left id operator right env) hstack, hstore, hsink, rfl, rfl⟩
  | logical id left operator right =>
      exact ⟨.eval left env, .cons (.decide (Token.moved_kind _ _) right env) hstack, hstore, hsink,
        rfl, rfl⟩
  | assign id name value =>
      exact ⟨.eval value env, .cons (.assign id name env) hstack, hstore, hsink, rfl, rfl⟩
  | ident id name =>
      simp only [Machine.evalStep, Expr.moved]
      rcases hh.readName hstore id name (f id) env with ⟨v, v', hv, hv', moved⟩ | ⟨fault, hf, hf'⟩
      · rw [hv, hv']
        exact ⟨.yield moved, hstack, hstore, hsink, rfl, rfl⟩
      · rw [hf, hf']
        exact ⟨.fail (.raised name (.binding fault)), hstack, hstore, hsink, rfl, rfl⟩
  | call id callee paren arguments =>
      exact ⟨.eval callee env, .cons (.callee id paren arguments env) hstack, hstore, hsink, rfl, rfl⟩

/-- A statement is carried out on both sides. No step of this kind fails. A function is kept with
its code, which has moved as the statement has. -/
theorem execStep_moved (h : Settled f before K K' store store' sink sink') (s : Stmt)
    (env : FrameRef) :
    Machine.Moved f before node
      (Machine.execStep ⟨.yield .nil, K, store, sink, depth, calls⟩ s env)
      (Machine.execStep ⟨.yield .nil, K', store', sink', depth, calls⟩ (s.moved f) env) := by
  obtain ⟨hstack, hstore, hsink⟩ := h
  cases s with
  | absent => exact ⟨.yield .nil, hstack, hstore, hsink, rfl, rfl⟩
  | expression id value => exact ⟨.eval value env, .cons .discard hstack, hstore, hsink, rfl, rfl⟩
  | print id value => exact ⟨.eval value env, .cons .print hstack, hstore, hsink, rfl, rfl⟩
  | var id name initializer =>
      cases initializer with
      | absent => exact ⟨.yield .nil, hstack, hstore.define env name.lexeme .nil, hsink, rfl, rfl⟩
      | _ => exact ⟨.eval _ env, .cons (.bind (Token.moved_lexeme _ _) env) hstack, hstore, hsink, rfl, rfl⟩
  | block id body =>
      simp only [Machine.execStep, Stmt.moved, hstore.nextRef]
      exact ⟨.yield .nil, .cons (.sequence body _) hstack, hstore.add _, hsink, rfl, rfl⟩
  | branch id condition positive negative =>
      exact ⟨.eval condition env, .cons (.choose positive negative env) hstack, hstore, hsink,
        rfl, rfl⟩
  | loop id condition body =>
      exact ⟨.eval condition env, .cons (.loopTest condition body env) hstack, hstore, hsink,
        rfl, rfl⟩
  | function id name params body =>
      have hcode : Code.Moved f ⟨name, params, body⟩
          ⟨name.moved (f id), params.map (Token.moved (f id)), Stmt.movedAll f body⟩ :=
        ⟨rfl, by simp [Function.comp_def], rfl⟩
      simp only [Machine.execStep, Stmt.moved, Store.closure, hstore.issued]
      refine ⟨.yield .nil, hstack, ?_, hsink, rfl, rfl⟩
      have hissue := hstore.issue
      rw [hstore.issued] at hissue
      exact hissue.define env name.lexeme (.function (.code hcode))
  | result id keyword value =>
      cases value with
      | absent => exact ⟨.leave .nil, hstack, hstore, hsink, rfl, rfl⟩
      | _ => exact ⟨.eval _ env, .cons .result hstack, hstore, hsink, rfl, rfl⟩

/-- What a sink takes does not depend on what it has taken. -/
theorem Sink.take_append (s : Sink) (before : List Bytes) (text : Bytes) :
    Sink.take { s with taken := s.taken ++ before } text
      = { s.take text with taken := (s.take text).taken ++ before } := by
  simp only [take, next?, List.append_assoc]

/-- Both operators come to values that are alike, or fail at their tokens. -/
theorem Control.Moved.settle {r r' : Except Fault Value} {id : Nat}
    (h : Settles (Closure.Moved f) (f id) r r') :
    Control.Moved f (some id) (.settle r) (.settle r') := by
  cases h with
  | ok moved => exact .yield moved
  | error fault => exact .fail fault

/-- The hosts give the same answer, or the same reason at the closing parentheses. -/
theorem Control.Moved.answer (hh : host.Moved f host') (calls : Nat) (g : Native)
    {args args' : List Value} (hargs : List.Forall₂ (Value.Moved f) args args') (id : Nat)
    (paren : Token) :
    Control.Moved f (some id) (.answer paren (host.call calls g args))
      (.answer (paren.moved (f id)) (host'.call calls g args')) := by
  rcases hh.call calls g args args' hargs with ⟨v, v', hv, hv', moved⟩ | ⟨text, ht, ht'⟩
  · rw [hv, hv']
    cases moved with
    | void => exact .yield .nil
    | function related => exact .yield (.function related)
    | nil => exact .yield .nil
    | bool b => exact .yield (.bool b)
    | number x => exact .yield (.number x)
    | string s => exact .yield (.string s)
    | native g => exact .yield (.native g)
    | foreign g => exact .yield (.foreign g)
  · rw [ht, ht']
    exact .fail (.raised paren (.native text))

/-- The bodies of the functions are entered, or there are too many calls. -/
theorem invoke_moved (h : Settled f before K K' store store' sink sink') (id : Nat) (paren : Token)
    {g g' : Closure} (hg : Closure.Moved f g g') {args args' : List Value}
    (hargs : List.Forall₂ (Value.Moved f) args args') :
    Machine.Moved f before (some id)
      (Machine.invoke ⟨.yield .nil, K, store, sink, depth, calls⟩ paren g args)
      (Machine.invoke ⟨.yield .nil, K', store', sink', depth, calls⟩ (paren.moved (f id)) g' args') := by
  obtain ⟨hstack, hstore, hsink⟩ := h
  unfold Machine.invoke
  dsimp only
  split
  · exact ⟨.fail (.raised paren .tooDeep), hstack, hstore, hsink, rfl, rfl⟩
  · cases hg with
    | noCode ident env => exact ⟨.fail .noCode, hstack, hstore, hsink, rfl, rfl⟩
    | @code ident c c' env moved =>
        dsimp only
        rw [hstore.nextRef, moved.body]
        exact ⟨.yield .nil, .cons (.sequence c.body _) (.cons .invoked hstack),
          (hstore.add _).bindParams _ moved.params hargs, hsink, rfl, rfl⟩

/-- The same is called with the same arguments, at the node of the call. All faults of a call stand
at its closing parenthesis. -/
theorem apply_moved (hh : host.Moved f host') (h : Settled f before K K' store store' sink sink')
    (id : Nat) (paren : Token) (hv : v.Moved f v') {args args' : List Value}
    (hargs : List.Forall₂ (Value.Moved f) args args') :
    Machine.Moved f before (some id)
      (Machine.apply host ⟨.yield .nil, K, store, sink, depth, calls⟩ paren v args)
      (Machine.apply host' ⟨.yield .nil, K', store', sink', depth, calls⟩ (paren.moved (f id)) v'
        args') := by
  unfold Machine.apply
  rw [hv.arity? Closure.Moved.same, hargs.length_eq.symm]
  cases v.arity? with
  | none => exact ⟨.fail (.raised paren .notCallable), h.stack, h.store, h.sink, rfl, rfl⟩
  | some arity =>
      dsimp only
      split
      · exact ⟨.fail (.raised paren (.wrongArity arity args.length)), h.stack, h.store, h.sink,
          rfl, rfl⟩
      · cases hv with
        | function related => exact invoke_moved h id paren related hargs
        | native g => exact ⟨.answer hh calls g hargs id paren, h.stack, h.store, h.sink, rfl, rfl⟩
        | _ => exact ⟨.fail (.raised paren .notCallable), h.stack, h.store, h.sink, rfl, rfl⟩

/-- The next argument is evaluated on both sides, or the call is made. -/
theorem passArguments_moved (hh : host.Moved f host')
    (h : Settled f before K K' store store' sink sink') (id : Nat) (paren : Token)
    (hv : v.Moved f v') {passed passed' : List Value}
    (hpassed : List.Forall₂ (Value.Moved f) passed passed') (rest : List Expr) (env : FrameRef) :
    Machine.Moved f before (some id)
      (Machine.passArguments host ⟨.yield .nil, K, store, sink, depth, calls⟩ id paren v passed rest
        env)
      (Machine.passArguments host' ⟨.yield .nil, K', store', sink', depth, calls⟩ id
        (paren.moved (f id)) v' passed' (Expr.movedAll f rest) env) := by
  cases rest with
  | nil => exact apply_moved hh h id paren hv (List.rel_reverse hpassed)
  | cons e rest =>
      exact ⟨.eval e env, .cons (.argument id paren hv hpassed rest env) h.stack, h.store, h.sink,
        rfl, rfl⟩

/-- The same work goes on with the same result, with one case for each kind of work. Faults stand at
a token that the work has kept for this, and it belongs to the node that the work is for. -/
theorem resumeStep_moved (hh : host.Moved f host')
    (h : Settled f before K K' store store' sink sink') {p p' : Pending} (hp : p.Moved f p')
    (hv : v.Moved f v') :
    Machine.Moved f before p.id?
      (Machine.resumeStep host ⟨.yield .nil, K, store, sink, depth, calls⟩ p v)
      (Machine.resumeStep host' ⟨.yield .nil, K', store', sink', depth, calls⟩ p' v') := by
  have htruthy := hv.isTruthy
  cases hp with
  | unary id operator =>
      exact ⟨.settle (applyUnary_settles operator (f id) hv), h.stack, h.store, h.sink, rfl, rfl⟩
  | left id operator right env =>
      exact ⟨.eval right env, .cons (.right id operator hv) h.stack, h.store, h.sink, rfl, rfl⟩
  | right id operator hleft =>
      exact ⟨.settle (applyBinary_settles Closure.Moved.same operator (f id) hleft hv), h.stack,
        h.store, h.sink, rfl, rfl⟩
  | decide kind right env =>
      simp only [Machine.resumeStep, htruthy, kind]
      split
      · exact ⟨.yield hv, h.stack, h.store, h.sink, rfl, rfl⟩
      · exact ⟨.eval right env, h.stack, h.store, h.sink, rfl, rfl⟩
  | assign id name env =>
      simp only [Machine.resumeStep, hh.findName h.store id name (f id) env]
      cases Machine.findName host store id name env with
      | ok ref => exact ⟨.yield hv, h.stack, h.store.define ref name.lexeme hv, h.sink, rfl, rfl⟩
      | error fault =>
          exact ⟨.fail (.raised name (.binding fault)), h.stack, h.store, h.sink, rfl, rfl⟩
  | callee id paren arguments env => exact passArguments_moved hh h id paren hv .nil arguments env
  | argument id paren hcallee hpassed rest env =>
      exact passArguments_moved hh h id paren hcallee (.cons hv hpassed) rest env
  | invoked => exact ⟨.yield .nil, h.stack, h.store, h.sink, rfl, rfl⟩
  | discard => exact ⟨.yield .nil, h.stack, h.store, h.sink, rfl, rfl⟩
  | print =>
      simp only [Machine.resumeStep, hv.display Closure.Moved.same, h.sink, Sink.take_append,
        Sink.next?]
      cases sink.refusal? sink.offered with
      | none => exact ⟨.yield .nil, h.stack, h.store, rfl, rfl, rfl⟩
      | some refusal =>
          exact ⟨.fail (.sinkFailed refusal.reason), h.stack, h.store, rfl, rfl, rfl⟩
  | bind lexeme env =>
      simp only [Machine.resumeStep, lexeme]
      exact ⟨.yield .nil, h.stack, h.store.define env _ hv, h.sink, rfl, rfl⟩
  | sequence rest env =>
      cases rest with
      | nil => exact ⟨.yield .nil, h.stack, h.store, h.sink, rfl, rfl⟩
      | cons s rest =>
          exact ⟨.exec s env, .cons (.sequence rest env) h.stack, h.store, h.sink, rfl, rfl⟩
  | choose positive negative env =>
      simp only [Machine.resumeStep, htruthy]
      cases v.isTruthy with
      | true => exact ⟨.exec positive env, h.stack, h.store, h.sink, rfl, rfl⟩
      | false => exact ⟨.exec negative env, h.stack, h.store, h.sink, rfl, rfl⟩
  | loopTest condition body env =>
      simp only [Machine.resumeStep, htruthy]
      split
      · exact ⟨.exec body env, .cons (.loopBody condition body env) h.stack, h.store, h.sink,
          rfl, rfl⟩
      · exact ⟨.yield .nil, h.stack, h.store, h.sink, rfl, rfl⟩
  | loopBody condition body env =>
      exact ⟨.eval condition env, .cons (.loopTest condition body env) h.stack, h.store, h.sink,
        rfl, rfl⟩
  | result => exact ⟨.leave hv, h.stack, h.store, h.sink, rfl, rfl⟩

/-- Has a fault come up? -/
def Machine.hasFailed (m : Machine) : Bool :=
  match m.control with
  | .fail _ => true
  | _ => false

namespace Machine.Moved

/-- As long as no fault has come up, no node is to blame. -/
theorem unblamed (h : m.Moved f before node m') (hok : m.hasFailed = false) (b : Option Nat) :
    m.Moved f before b m' := by
  obtain ⟨control, stack, store, sink, depth, calls⟩ := m
  obtain ⟨control', stack', store', sink', depth', calls'⟩ := m'
  obtain ⟨hcontrol, hstack, hstore, hsink, hdepth, hcalls⟩ := h
  refine ⟨?_, hstack, hstore, hsink, hdepth, hcalls⟩
  cases hcontrol with
  | eval e env => exact .eval e env
  | exec s env => exact .exec s env
  | yield moved => exact .yield moved
  | leave moved => exact .leave moved
  | fail fault => cases hok

/-- If the step fails, the fault stands at a token of the node that the step looks at. Otherwise it
is not said at which node the two machines are: there the next step decides. -/
theorem step (hh : host.Moved f host') (h : m.Moved f before node m') (hok : m.hasFailed = false) :
    (m.step host).Moved f before m.site? (m'.step host') := by
  obtain ⟨control, stack, store, sink, depth, calls⟩ := m
  obtain ⟨control', stack', store', sink', depth', calls'⟩ := m'
  obtain ⟨hcontrol, hstack, hstore, hsink, hdepth, hcalls⟩ := h
  dsimp only at hcontrol hstack hstore hsink hdepth hcalls
  subst hdepth hcalls
  cases hcontrol with
  | eval e env => exact evalStep_moved hh ⟨hstack, hstore, hsink⟩ e env
  | exec s env => exact execStep_moved ⟨hstack, hstore, hsink⟩ s env
  | yield moved =>
      cases hstack with
      | nil => exact ⟨.yield moved, .nil, hstore, hsink, rfl, rfl⟩
      | cons hp hstack => exact resumeStep_moved hh ⟨hstack, hstore, hsink⟩ hp moved
  | leave moved =>
      cases hstack with
      | nil => exact ⟨.leave moved, .nil, hstore, hsink, rfl, rfl⟩
      | cons hp hstack =>
          cases hp with
          | invoked => exact ⟨.yield moved, hstack, hstore, hsink, rfl, rfl⟩
          | _ => exact ⟨.leave moved, hstack, hstore, hsink, rfl, rfl⟩
  | fail fault => cases hok

/-- A fault only takes work off the stack. -/
theorem step_failed (h : m.Moved f before node m') (hfailed : m.hasFailed = true) :
    (m.step host).Moved f before node (m'.step host') ∧ (m.step host).hasFailed = true := by
  obtain ⟨control, stack, store, sink, depth, calls⟩ := m
  obtain ⟨control', stack', store', sink', depth', calls'⟩ := m'
  obtain ⟨hcontrol, hstack, hstore, hsink, hdepth, hcalls⟩ := h
  dsimp only at hcontrol hstack hstore hsink hdepth hcalls
  subst hdepth hcalls
  cases hcontrol with
  | fail fault =>
      cases hstack with
      | nil => exact ⟨⟨.fail fault, .nil, hstore, hsink, rfl, rfl⟩, rfl⟩
      | cons hp hstack =>
          cases hp with
          | invoked => exact ⟨⟨.fail fault, hstack, hstore, hsink, rfl, rfl⟩, rfl⟩
          | _ => exact ⟨⟨.fail fault, hstack, hstore, hsink, rfl, rfl⟩, rfl⟩
  | _ => cases hfailed

/-- Both machines are done, or none is. -/
theorem isDone (h : m.Moved f before node m') : m'.isDone = m.isDone := by
  unfold Machine.isDone
  have hcontrol := h.control
  have hstack := h.stack
  generalize m.control = control, m'.control = control' at hcontrol
  generalize m.stack = stack, m'.stack = stack' at hstack
  cases hcontrol <;> cases hstack <;> rfl

end Machine.Moved

-- ==== Any number of steps

/-- The node to blame for the fault that comes up within so many steps. -/
def Machine.blamed (host : Host) : Nat → Machine → Option Nat
  | 0, _ => none
  | fuel + 1, m => if (m.step host).hasFailed then m.site? else blamed host fuel (m.step host)

namespace Machine.Moved

/-- After a fault both machines come to their ends with it. -/
theorem run_failed (h : m.Moved f before node m') (hfailed : m.hasFailed = true) (fuel : Nat) :
    (m.run host fuel).Moved f before node (m'.run host' fuel) := by
  induction fuel generalizing m m' with
  | zero => exact h
  | succ fuel ih =>
      unfold Machine.run
      rw [h.isDone]
      split
      · exact h
      · obtain ⟨hstep, hfailed'⟩ := h.step_failed hfailed
        exact ih hstep hfailed'

/-- Any number of steps. -/
theorem run (hh : host.Moved f host') (h : m.Moved f before node m') (hok : m.hasFailed = false)
    (fuel : Nat) :
    (m.run host fuel).Moved f before (m.blamed host fuel) (m'.run host' fuel) := by
  induction fuel generalizing m m' node with
  | zero => exact h.unblamed hok _
  | succ fuel ih =>
      unfold Machine.run
      rw [h.isDone]
      split
      · exact h.unblamed hok _
      · have hstep := h.step hh hok
        unfold Machine.blamed
        split
        next hfailed => exact hstep.run_failed hfailed fuel
        next hok' => exact ih hstep (by simpa using hok')

end Machine.Moved

end Lox
