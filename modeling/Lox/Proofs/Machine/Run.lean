/-
Any number of steps.

# Runs

What one step keeps, a run keeps (`run_invariant`); a run may be cut in two (`run_add`); and a
machine that is done stays as it is (`run_of_isDone`). Every invariant of the machine is proved for
one step, with one lemma for each part of a step, and comes to runs by the first of these.

# What a step looks up

A run only depends on the distances of the nodes that it looks up (`run_congr`). A step looks up at
most one (`use?`), and asks the host for at most one answer, so hosts that agree on these lead to
the same step (`step_congr`). This is what lets a session grow: programs that come later add
distances of nodes of their own.

# Calls under way

The counter of calls under way is an instance of an invariant: it always tells how many calls the
waiting work comes back from (`Balanced`), so it is back at nought when a program has come to its
end.
-/
import Lox.Machine

namespace Lox.Machine

variable {host host' : Host} {m : Machine}

-- ==== Runs

/-- What each step keeps, any number of steps keep. -/
theorem run_invariant {P : Machine → Prop} (hstep : ∀ m, P m → P (m.step host)) (h : P m)
    (fuel : Nat) : P (m.run host fuel) := by
  induction fuel generalizing m with
  | zero => exact h
  | succ fuel ih =>
      rw [run]
      split
      · exact h
      · exact ih (hstep m h)

/-- A machine that is done does not change. -/
theorem run_of_isDone (h : m.isDone = true) (fuel : Nat) : m.run host fuel = m := by
  cases fuel with
  | zero => rfl
  | succ fuel => rw [run, if_pos h]

/-- A run, and then another one. -/
theorem run_add (m : Machine) (j k : Nat) : m.run host (j + k) = (m.run host j).run host k := by
  induction j generalizing m with
  | zero => rw [Nat.zero_add, run]
  | succ j ih =>
      rw [Nat.succ_add, run, run]
      split
      next hdone => rw [run_of_isDone hdone]
      · exact ih (m.step host)

theorem run_one (h : m.isDone = false) : m.run host 1 = m.step host := by
  rw [run, h, if_neg Bool.false_ne_true, run]

/-- A machine that is done has no work left. -/
theorem stack_of_isDone (h : m.isDone = true) : m.stack = [] := by
  obtain ⟨control, stack, store, sink, depth, calls⟩ := m
  cases stack with
  | nil => rfl
  | cons p stack => cases control <;> cases h

-- ==== What a step looks up

/-- The node whose distance the next step looks up. -/
def use? (m : Machine) : Option Nat :=
  match m.control, m.stack with
  | .eval (.ident id _) _, _ => some id
  | .yield _, .assign id _ _ :: _ => some id
  | _, _ => none

/-- Hosts that give the same answer to a call lead to the same. Nothing is asked of them if the value
is none of their functions, or is called with a wrong number of arguments. -/
theorem apply_congr (m : Machine) (paren : Token) (callee : Value) (args : List Value)
    (h : isHostCall callee args = true → host'.call m.calls = host.call m.calls) :
    m.apply host' paren callee args = m.apply host paren callee args := by
  cases callee with
  | native f =>
      dsimp only [apply, Value.arity?]
      split
      · rfl
      next hargs => rw [h (decide_eq_true (Decidable.not_not.mp hargs))]
  | _ => rfl

/-- Hosts that agree on what a step asks them lead to the same step: on the distance of the node that
it looks up, and on the answer to the call that it makes. -/
theorem step_congr (hcall : m.asksHost = true → host'.call m.calls = host.call m.calls)
    (h : ∀ id, m.use? = some id → host'.resolution[id]? = host.resolution[id]?) :
    m.step host' = m.step host := by
  obtain ⟨control, stack, store, sink, depth, calls⟩ := m
  cases control with
  | eval e env =>
      cases e with
      | ident id name => simp only [step, evalStep, readName, h id rfl]
      | _ => rfl
  | exec s env => rfl
  | yield v =>
      cases stack with
      | nil => rfl
      | cons p stack =>
          cases p with
          | assign id name env => simp only [step, resumeStep, findName, h id rfl]
          | callee id paren arguments env => cases arguments with
            | nil => exact apply_congr _ paren v [] hcall
            | cons e rest => rfl
          | argument id paren callee before rest env => cases rest with
            | nil => exact apply_congr _ paren callee (v :: before).reverse hcall
            | cons e rest => rfl
          | sequence rest env => cases rest <;> rfl
          | _ => rfl
  | leave v => cases stack with
      | nil => rfl
      | cons p stack => cases p <;> rfl
  | fail f => cases stack with
      | nil => rfl
      | cons p stack => cases p <;> rfl

/-- Hosts that agree on the distances that a run looks up lead to the same run. -/
theorem run_congr (hf : host'.functions = host.functions)
    (h : ∀ k id, (m.run host k).use? = some id → host'.resolution[id]? = host.resolution[id]?)
    (fuel : Nat) : m.run host' fuel = m.run host fuel := by
  induction fuel generalizing m with
  | zero => rfl
  | succ fuel ih =>
      rw [run, run]
      split
      · rfl
      next hdone =>
        have hcall : host'.call = host.call := by
          funext calls f args
          rw [Host.call, Host.call, hf]
        have hstep : m.step host' = m.step host := step_congr (fun _ => by rw [hcall]) (h 0)
        rw [hstep]
        refine ih fun k id hid => h (k + 1) id ?_
        rw [run, if_neg hdone]
        exact hid

-- ==== Calls under way

/-- The number of calls that the waiting work comes back from. -/
def underWay : List Pending → Nat
  | [] => 0
  | .invoked :: stack => underWay stack + 1
  | _ :: stack => underWay stack

/-- The machine counts the calls that are under way. -/
def Balanced (m : Machine) : Prop := m.depth = underWay m.stack

namespace Balanced

/-- A call is counted, and the work that comes back from it is put on the stack. -/
theorem apply (h : m.Balanced) (paren : Token) (callee : Value) (args : List Value) :
    (m.apply host paren callee args).Balanced := by
  unfold Machine.apply
  cases callee.arity? with
  | none => exact h
  | some arity =>
      dsimp only
      split
      · exact h
      · cases callee with
        | function f =>
            dsimp only [invoke]
            split
            · exact h
            · cases f.code with
              | none => exact h
              | some code => exact congrArg (· + 1) h
        | _ => exact h

theorem passArguments (h : m.Balanced) (id : Nat) (paren : Token) (callee : Value)
    (before : List Value) (rest : List Expr) (env : FrameRef) :
    (m.passArguments host id paren callee before rest env).Balanced := by
  cases rest with
  | nil => exact h.apply paren callee before.reverse
  | cons e rest => exact h

/-- Evaluating leaves work that is no end of a call. -/
theorem evalStep (h : m.Balanced) (e : Expr) (env : FrameRef) :
    (m.evalStep host e env).Balanced := by
  cases e with
  | literal id value => cases value <;> exact h
  | ident id name =>
      dsimp only [Machine.evalStep]
      cases readName host m.store id name env <;> exact h
  | _ => exact h

/-- So does carrying out a statement. -/
theorem execStep (h : m.Balanced) (s : Stmt) (env : FrameRef) : (m.execStep s env).Balanced := by
  cases s with
  | var id name initializer => cases initializer <;> exact h
  | result id keyword value => cases value <;> exact h
  | _ => exact h

/-- The end of a call is taken off the stack and counted down. Going into a function puts one there
and counts up (`passArguments`), and no other work concerns the count. -/
theorem resumeStep {p : Pending} {stack : List Pending} {store : Store} {sink : Sink}
    {depth calls : Nat} (h : depth = underWay (p :: stack)) (v : Value) :
    (Machine.resumeStep host ⟨.yield .nil, stack, store, sink, depth, calls⟩ p v).Balanced := by
  cases p with
  | decide operator right env =>
      dsimp only [Machine.resumeStep]
      split <;> exact h
  | assign id name env =>
      dsimp only [Machine.resumeStep]
      cases findName host store id name env <;> exact h
  | callee id paren arguments env =>
      exact passArguments (m := ⟨.yield .nil, stack, store, sink, depth, calls⟩) h ..
  | argument id paren callee before rest env =>
      exact passArguments (m := ⟨.yield .nil, stack, store, sink, depth, calls⟩) h ..
  | invoked => exact congrArg (· - 1) h
  | print =>
      dsimp only [Machine.resumeStep]
      cases sink.next? <;> exact h
  | sequence rest env => cases rest <;> exact h
  | loopTest condition body env =>
      dsimp only [Machine.resumeStep]
      split <;> exact h
  | _ => exact h

/-- A step keeps the count, with a return and with a fault too: both take work off the stack one
piece at a time, and count down where a call ends. -/
theorem step (h : m.Balanced) : (m.step host).Balanced := by
  obtain ⟨control, stack, store, sink, depth, calls⟩ := m
  cases control with
  | eval e env => exact evalStep h e env
  | exec s env => exact execStep h s env
  | yield v =>
      cases stack with
      | nil => exact h
      | cons p stack => exact resumeStep h v
  | leave v =>
      cases stack with
      | nil => exact h
      | cons p stack => cases p with
        | invoked => exact congrArg (· - 1) h
        | _ => exact h
  | fail f =>
      cases stack with
      | nil => exact h
      | cons p stack => cases p with
        | invoked => exact congrArg (· - 1) h
        | _ => exact h

/-- The count is right at each moment of a run. -/
theorem run (h : m.Balanced) (fuel : Nat) : (m.run host fuel).Balanced :=
  run_invariant (P := Balanced) (fun _ => step) h fuel

end Balanced

end Lox.Machine
