/-
What a step does not look at.

A step looks at the top of the stack and at no work below it, and it looks at the sink only if it
prints. So a machine that does not print takes the same step with more work below its own and with
another sink (`step_framed`); and a step that prints does nothing but that (`step_prints`). Between
them these two say all that later modules have to know of the sink: what a run prints can be told
from what a run prints into a sink that takes everything, and a run can be compared with one whose
output is shown as it comes.

There is one equation for each part of a step, by cases on what is done next and on the work on top.
None of them needs an induction. Whether a step prints is told beforehand, by the work that waits
for the result (`prints?`).
-/
import Lox.Machine

namespace Lox.Machine

variable {host : Host} {m : Machine} {T : List Pending} {sink : Sink}

-- ==== Work below, and another sink

/-- The machine, with more work below its own and with another sink. -/
def framed (m : Machine) (T : List Pending) (sink : Sink) : Machine :=
  { m with stack := m.stack ++ T, sink := sink }

/-- Evaluating puts work on top and looks at none. -/
theorem evalStep_framed (m : Machine) (e : Expr) (env : FrameRef) :
    evalStep host (m.framed T sink) e env = (evalStep host m e env).framed T sink := by
  cases e with
  | literal id value => cases value <;> rfl
  | ident id name =>
      simp only [evalStep, framed]
      cases readName host m.store id name env <;> rfl
  | _ => rfl

/-- So does carrying out a statement. -/
theorem execStep_framed (m : Machine) (s : Stmt) (env : FrameRef) :
    execStep (m.framed T sink) s env = (execStep m s env).framed T sink := by
  cases s with
  | var id name initializer => cases initializer <;> rfl
  | result id keyword value => cases value <;> rfl
  | _ => rfl

/-- Entering a function puts its body and the end of the call on top. -/
theorem invoke_framed (m : Machine) (paren : Token) (f : Closure) (args : List Value) :
    (m.framed T sink).invoke paren f args = (m.invoke paren f args).framed T sink := by
  unfold invoke
  by_cases h : maxDepth ≤ m.depth
  · rw [if_pos h, if_pos (show maxDepth ≤ (m.framed T sink).depth from h)]
    rfl
  · rw [if_neg h, if_neg (show ¬maxDepth ≤ (m.framed T sink).depth from h)]
    cases f.code <;> rfl

/-- A call looks at its arguments, at the host and at the counter. -/
theorem apply_framed (m : Machine) (paren : Token) (callee : Value) (args : List Value) :
    (m.framed T sink).apply host paren callee args =
      (m.apply host paren callee args).framed T sink := by
  unfold apply
  cases callee.arity? with
  | none => rfl
  | some arity =>
      dsimp only
      split
      · rfl
      · cases callee with
        | function f => exact invoke_framed m paren f args
        | _ => rfl

theorem passArguments_framed (m : Machine) (id : Nat) (paren : Token) (callee : Value)
    (before : List Value) (rest : List Expr) (env : FrameRef) :
    (m.framed T sink).passArguments host id paren callee before rest env =
      (m.passArguments host id paren callee before rest env).framed T sink := by
  cases rest with
  | nil => exact apply_framed m paren callee before.reverse
  | cons e rest => rfl

/-- The work on top has been taken off, and is no printing. -/
theorem resumeStep_framed (m : Machine) {p : Pending} (hp : p ≠ .print) (v : Value) :
    resumeStep host (m.framed T sink) p v = (resumeStep host m p v).framed T sink := by
  cases p with
  | decide operator right env =>
      simp only [resumeStep]
      split <;> rfl
  | assign id name env =>
      simp only [resumeStep, framed]
      cases findName host m.store id name env <;> rfl
  | callee id paren arguments env => exact passArguments_framed ..
  | argument id paren callee before rest env => exact passArguments_framed ..
  | print => exact absurd rfl hp
  | sequence rest env => cases rest <;> rfl
  | loopTest condition body env =>
      simp only [resumeStep]
      split <;> rfl
  | _ => rfl

-- ==== Steps

/-- A machine that prints has a result for the work on top of its stack. -/
theorem of_prints? {text : Bytes} (h : m.prints? = some text) :
    ∃ v stack, m.control = .yield v ∧ m.stack = .print :: stack ∧
      text = v.display ++ utf8 "\n" := by
  unfold prints? at h
  split at h
  next v stack hcontrol hstack => exact ⟨v, stack, hcontrol, hstack, (Option.some.inj h).symm⟩
  next => cases h

/-- A machine that prints is not done. -/
theorem isDone_of_prints? {text : Bytes} (h : m.prints? = some text) : m.isDone = false := by
  obtain ⟨v, stack, hcontrol, hstack, -⟩ := of_prints? h
  rw [isDone, hcontrol, hstack]

/-- A machine that is not done and does not print takes the same step with more work below and with
another sink. -/
theorem step_framed (hdone : m.isDone = false) (h : m.prints? = none) :
    (m.framed T sink).step host = (m.step host).framed T sink := by
  obtain ⟨control, stack, store, σ, depth, calls⟩ := m
  cases control with
  | eval e env => exact evalStep_framed ⟨.yield .nil, stack, store, σ, depth, calls⟩ e env
  | exec s env => exact execStep_framed ⟨.yield .nil, stack, store, σ, depth, calls⟩ s env
  | yield v =>
      cases stack with
      | nil => cases hdone
      | cons p stack =>
          have hp : p ≠ .print := by
            rintro rfl
            cases h
          exact resumeStep_framed ⟨.yield .nil, stack, store, σ, depth, calls⟩ hp v
  | leave v =>
      cases stack with
      | nil => cases hdone
      | cons p stack => cases p <;> rfl
  | fail f =>
      cases stack with
      | nil => cases hdone
      | cons p stack => cases p <;> rfl

/-- A step that does not print leaves the sink as it is. -/
theorem sink_step (hdone : m.isDone = false) (h : m.prints? = none) :
    (m.step host).sink = m.sink := by
  have hself : m.framed [] m.sink = m := by rw [framed, List.append_nil]
  have hstep : (m.framed [] m.sink).step host = (m.step host).framed [] m.sink :=
    step_framed hdone h
  rw [hself] at hstep
  rw [hstep]
  rfl

/-- A step that prints hands its text to the sink, and goes on or gives up as the sink says. -/
theorem step_prints {text : Bytes} (h : m.prints? = some text) :
    m.step host =
      { m with
        control := .printed m.sink.next?, stack := m.stack.tail, sink := m.sink.take text } := by
  obtain ⟨control, stack, store, sink, depth, calls⟩ := m
  obtain ⟨v, rest, hcontrol, hstack, rfl⟩ := of_prints? h
  dsimp only at hcontrol hstack
  subst hcontrol hstack
  rfl

end Lox.Machine
