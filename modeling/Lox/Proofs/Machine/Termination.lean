/-
A machine without loops comes to an end.

# The cost of work

Each step within one call lowers the cost of what is left to do in that call. The cost of a tree is
the number of steps that it takes at most, calls of functions with code left out; a waiting piece of
work costs what its trees cost and one step more.

# Calls

Only a call of a function with code brings in more work (`Proceeds`), and the cost of that work has
nothing to do with that of the caller: the function comes from a frame, and it may be the caller
itself. But there is room for one call less in it. So `LoopFree.ends` goes by the calls that there
is still room for and, with the same room, by the cost: a call ends because it has less room, and
the work that waits for it costs less than the call did.

# One call at a time

To have a measure at all, the machine is looked at within one call, with a stack that comes back
from none (`underWay` is nought). A step then stays within the call, or it goes into another one,
whose work lies on top of an end of a call and of the work that waits (`Proceeds.enters`). That call
is a machine of its own with that work below; it ends by induction, comes back (`Ends.comes_back`),
and leaves the work that waited.
-/
import Lox.Proofs.Machine.LoopFree
import Lox.Proofs.Machine.Outcome

namespace Lox

-- ==== The cost of work

mutual

/-- How many steps the expression takes, calls of functions with code left out. Each node counts for
stepping into it and for handing on its result. -/
def Expr.cost : Expr → Nat
  | .absent => 1
  | .literal _ _ => 1
  | .grouping _ inner => inner.cost + 1
  | .unary _ _ operand => operand.cost + 2
  | .binary _ left _ right => left.cost + right.cost + 3
  | .logical _ left _ right => left.cost + right.cost + 2
  | .assign _ _ value => value.cost + 2
  | .ident _ _ => 1
  | .call _ callee _ arguments => callee.cost + Expr.costAll arguments + 1

/-- How many steps it takes to pass the arguments and to call. -/
def Expr.costAll : List Expr → Nat
  | [] => 1
  | e :: rest => e.cost + Expr.costAll rest + 1

end

mutual

/-- How many steps the statement takes at most if it has no loop. A declaration of a function is one
step, whatever its body is, and both branches of an `if` are counted. -/
def Stmt.cost : Stmt → Nat
  | .absent => 1
  | .expression _ value => value.cost + 2
  | .print _ value => value.cost + 2
  | .var _ _ initializer => initializer.cost + 2
  | .block _ body => Stmt.costAll body + 1
  | .branch _ condition positive negative => condition.cost + positive.cost + negative.cost + 2
  | .loop _ _ _ => 0
  | .function _ _ _ _ => 1
  | .result _ _ value => value.cost + 2

/-- The same of the statements one after the other. -/
def Stmt.costAll : List Stmt → Nat
  | [] => 1
  | s :: rest => s.cost + Stmt.costAll rest + 1

end

/-- How many steps the work takes at most once it has its result. -/
def Pending.cost : Pending → Nat
  | .left _ _ operand _ => operand.cost + 2
  | .decide _ operand _ => operand.cost + 1
  | .callee _ _ arguments _ => Expr.costAll arguments
  | .argument _ _ _ _ rest _ => Expr.costAll rest
  | .sequence rest _ => Stmt.costAll rest
  | .choose positive negative _ => positive.cost + negative.cost + 1
  | _ => 1

/-- The same of all the work that waits. -/
def Pending.costAll : List Pending → Nat
  | [] => 0
  | p :: stack => p.cost + costAll stack

/-- How many steps it takes at most to come to a result. -/
def Control.cost : Control → Nat
  | .eval e _ => e.cost
  | .exec s _ => s.cost
  | _ => 0

/-- Every expression takes a step. -/
theorem Expr.cost_pos (e : Expr) : 0 < e.cost := by
  cases e <;> simp [cost]

/-- So does every statement that is no loop. -/
theorem Stmt.cost_pos {s : Stmt} (hs : s.hasLoop = false) : 0 < s.cost := by
  cases s with
  | loop id condition body => cases hs
  | _ => simp [cost]

/-- So does every piece of work. -/
theorem Pending.cost_pos (p : Pending) : 0 < p.cost := by
  cases p with
  | callee id paren arguments env => cases arguments <;> simp [cost, Expr.costAll]
  | argument id paren callee before rest env => cases rest <;> simp [cost, Expr.costAll]
  | sequence rest env => cases rest <;> simp [cost, Stmt.costAll]
  | _ => simp [cost]

/-- Work that is taken off the stack leaves less. -/
theorem Pending.costAll_lt (p : Pending) (stack : List Pending) :
    costAll stack < costAll (p :: stack) :=
  Nat.lt_add_of_pos_left p.cost_pos

namespace Machine

variable {host : Host} {m : Machine}

/-- How many steps there are at most up to the end, calls of functions with code left out. -/
def cost (m : Machine) : Nat := m.control.cost + Pending.costAll m.stack

-- ==== Steps

/-- What a step comes to in a machine of the given depth whose work is worth `n` steps. -/
inductive Proceeds (depth n : Nat) : Machine → Prop where
  /-- The machine stays within its call, and less is left to do in it. -/
  | stays {m : Machine} (flat : underWay m.stack = 0) (level : m.depth = depth)
      (cheaper : m.cost < n) : Proceeds depth n m
  /-- The machine goes into a call, and less is left to do when it comes back. -/
  | enters {m : Machine} {work : List Pending} (room : depth < maxDepth)
      (flat : underWay m.stack = 0) (level : m.depth = depth + 1)
      (flatBelow : underWay work = 0) (cheaper : Pending.costAll work < n) :
      Proceeds depth n (m.on (.invoked :: work))

/-- The machine has a result, a return or a fault, and what waits for it is worth less. -/
theorem Proceeds.settled {c : Control} {stack : List Pending} {store : Store} {sink : Sink}
    {depth calls n : Nat} (hc : c.cost = 0) (flat : underWay stack = 0)
    (cheaper : Pending.costAll stack < n) :
    Proceeds depth n ⟨c, stack, store, sink, depth, calls⟩ := by
  refine .stays flat rfl ?_
  show c.cost + Pending.costAll stack < n
  rw [hc, Nat.zero_add]
  exact cheaper

/-- An expression is taken apart, and its parts cost less. -/
theorem evalStep_proceeds (flat : underWay m.stack = 0) (e : Expr) (env : FrameRef) :
    Proceeds m.depth (e.cost + Pending.costAll m.stack) (m.evalStep host e env) := by
  have hless : Pending.costAll m.stack < e.cost + Pending.costAll m.stack :=
    Nat.lt_add_of_pos_left e.cost_pos
  cases e with
  | absent => exact .settled rfl flat hless
  | literal id value =>
      dsimp only [evalStep]
      cases Value.ofLiteral? value <;> exact .settled rfl flat hless
  | ident id name =>
      dsimp only [evalStep]
      cases readName host m.store id name env <;> exact .settled rfl flat hless
  | _ =>
      refine .stays flat rfl ?_
      simp only [evalStep, cost, Control.cost, Expr.cost, Pending.costAll, Pending.cost]
      omega

/-- A statement is taken apart, and its parts cost less, with what is put on the stack for them.
Statements that are done at once have nothing left to cost. -/
theorem execStep_proceeds {s : Stmt} (flat : underWay m.stack = 0) (hs : s.hasLoop = false)
    (env : FrameRef) : Proceeds m.depth (s.cost + Pending.costAll m.stack) (m.execStep s env) := by
  have hless : Pending.costAll m.stack < s.cost + Pending.costAll m.stack :=
    Nat.lt_add_of_pos_left (Stmt.cost_pos hs)
  cases s with
  | absent => exact .settled rfl flat hless
  | function id name params body => exact .settled rfl flat hless
  | loop id condition body => cases hs
  | var id name initializer =>
      cases initializer with
      | absent => exact .settled rfl flat hless
      | _ =>
          refine .stays flat rfl ?_
          simp only [execStep, cost, Control.cost, Stmt.cost, Pending.costAll, Pending.cost]
          omega
  | result id keyword value =>
      cases value with
      | absent => exact .settled rfl flat hless
      | _ =>
          refine .stays flat rfl ?_
          simp only [execStep, cost, Control.cost, Stmt.cost, Pending.costAll, Pending.cost]
          omega
  | _ =>
      refine .stays flat rfl ?_
      simp only [execStep, cost, Control.cost, Stmt.cost, Pending.costAll, Pending.cost]
      omega

/-- A call goes into a function if there is room, and comes to an outcome at once if not. In the
first case the cost is that of the body, which has nothing to do with the cost before; but the depth
has grown, and it is limited. -/
theorem apply_proceeds {n : Nat} (flat : underWay m.stack = 0)
    (hless : Pending.costAll m.stack < n) (paren : Token) (callee : Value) (args : List Value) :
    Proceeds m.depth n (m.apply host paren callee args) := by
  unfold apply
  cases callee.arity? with
  | none => exact .settled rfl flat hless
  | some arity =>
      dsimp only
      split
      · exact .settled rfl flat hless
      · cases callee with
        | function f =>
            dsimp only [invoke]
            split
            · exact .settled rfl flat hless
            next hroom =>
              cases f.code with
              | none => exact .settled rfl flat hless
              | some code =>
                  -- the body is all the work there is above the point to come back to
                  exact .enters (m := ⟨_, [.sequence _ _], _, _, _, _⟩) (Nat.lt_of_not_le hroom)
                    rfl rfl flat hless
        | native f =>
            refine .settled ?_ flat hless
            cases host.call m.calls f args with
            | error text => rfl
            | ok v => cases v <;> rfl
        | _ => exact .settled rfl flat hless

/-- The next argument costs less than all of them. -/
theorem passArguments_proceeds (flat : underWay m.stack = 0) (id : Nat) (paren : Token)
    (callee : Value) (before : List Value) (rest : List Expr) (env : FrameRef) :
    Proceeds m.depth (Expr.costAll rest + Pending.costAll m.stack)
      (m.passArguments host id paren callee before rest env) := by
  cases rest with
  | nil =>
      have hless : Pending.costAll m.stack < 1 + Pending.costAll m.stack := by omega
      exact apply_proceeds flat hless paren callee before.reverse
  | cons e rest =>
      refine .stays flat rfl ?_
      simp only [passArguments, cost, Control.cost, Expr.costAll, Pending.costAll, Pending.cost]
      omega

/-- The work has its result and goes on, at less than its cost. There are no loops, so no work comes
back to what it was; the end of a call does not come up, since no call of this level is under
way. -/
theorem resumeStep_proceeds {p : Pending} (flat : underWay (p :: m.stack) = 0) (hp : p.LoopFree)
    (v : Value) :
    Proceeds m.depth (p.cost + Pending.costAll m.stack) (m.resumeStep host p v) := by
  have hless := Pending.costAll_lt p m.stack
  cases p with
  | unary id operator =>
      refine .settled ?_ flat hless
      cases applyUnary operator v <;> rfl
  | left id operator right env =>
      refine .stays flat rfl ?_
      simp only [resumeStep, cost, Control.cost, Pending.costAll, Pending.cost]
      omega
  | right id operator left =>
      refine .settled ?_ flat hless
      cases applyBinary operator left v <;> rfl
  | decide operator right env =>
      dsimp only [resumeStep]
      split
      · exact .settled rfl flat hless
      · refine .stays flat rfl ?_
        simp only [cost, Control.cost, Pending.cost]
        omega
  | assign id name env =>
      dsimp only [resumeStep]
      cases findName host m.store id name env <;> exact .settled rfl flat hless
  | callee id paren arguments env => exact passArguments_proceeds flat ..
  | argument id paren callee before rest env => exact passArguments_proceeds flat ..
  | invoked => cases flat
  | print =>
      dsimp only [resumeStep]
      cases m.sink.next? <;> exact .settled rfl flat hless
  | sequence rest env =>
      cases rest with
      | nil => exact .settled rfl flat hless
      | cons s rest =>
          refine .stays flat rfl ?_
          simp only [resumeStep, cost, Control.cost, Stmt.costAll, Pending.costAll, Pending.cost]
          omega
  | choose positive negative env =>
      refine .stays flat rfl ?_
      dsimp only [resumeStep, cost, Pending.cost, Control.cost]
      split <;> omega
  | loopTest condition body env => exact hp.elim
  | loopBody condition body env => exact hp.elim
  | discard => exact .settled rfl flat hless
  | bind name env => exact .settled rfl flat hless
  | result => exact .settled rfl flat hless

/-- A machine without loops that is not done gets on with the call that it is in, or goes into
another one. -/
theorem LoopFree.step_proceeds (h : m.LoopFree) (flat : underWay m.stack = 0)
    (hdone : m.isDone = false) : Proceeds m.depth m.cost (m.step host) := by
  obtain ⟨control, stack, store, sink, depth, calls⟩ := m
  have idle : ∀ {c : Control}, c.cost = 0 →
      cost ⟨c, stack, store, sink, depth, calls⟩ = Pending.costAll stack := by
    intro c hc
    rw [cost, hc, Nat.zero_add]
  cases control with
  | eval e env =>
      exact evalStep_proceeds (m := ⟨.yield .nil, stack, store, sink, depth, calls⟩) flat e env
  | exec s env =>
      exact execStep_proceeds (m := ⟨.yield .nil, stack, store, sink, depth, calls⟩) flat h.control
        env
  | yield v =>
      rw [idle rfl]
      cases stack with
      | nil => cases hdone
      | cons p stack =>
          have hp := h.stack p List.mem_cons_self
          exact resumeStep_proceeds (m := ⟨.yield .nil, stack, store, sink, depth, calls⟩) flat hp v
  | _ =>
      -- a return or a fault takes the work off the stack
      rw [idle rfl]
      cases stack with
      | nil => cases hdone
      | cons p stack =>
          have hless := Pending.costAll_lt p stack
          cases p with
          | invoked => cases flat
          | _ => exact .settled rfl flat hless

-- ==== Calls

/-- The machine comes to an end, with as many calls under way as before. -/
def Ends (host : Host) (m : Machine) : Prop :=
  ∃ k, (m.run host k).isDone = true ∧ (m.run host k).depth = m.depth

/-- A call that is done is left, and the counter of calls is set back. -/
theorem step_invoked (host : Host) (hdone : m.isDone = true) (work : List Pending) :
    ∃ c : Control, c.cost = 0 ∧ (m.on (.invoked :: work)).step host =
      ⟨c, work, m.store, m.sink, m.depth - 1, m.calls⟩ := by
  obtain ⟨control, stack, store, sink, depth, calls⟩ := m
  obtain rfl : stack = [] := stack_of_isDone hdone
  cases control with
  | eval e env => cases hdone
  | exec s env => cases hdone
  | yield v => exact ⟨.yield .nil, rfl, rfl⟩
  | leave v => exact ⟨.yield v, rfl, rfl⟩
  | fail f => exact ⟨.fail f, rfl, rfl⟩

/-- A call that comes to an end comes back to the work that waits for it. -/
theorem Ends.comes_back (h : m.Ends host) (work : List Pending) :
    ∃ k, underWay ((m.on (.invoked :: work)).run host k).stack = underWay work ∧
      ((m.on (.invoked :: work)).run host k).depth = m.depth - 1 ∧
      ((m.on (.invoked :: work)).run host k).cost = Pending.costAll work := by
  obtain ⟨fuel, hdone, hdepth⟩ := h
  obtain ⟨k, hk⟩ := run_on host m (.invoked :: work) fuel
  obtain ⟨c, hc, hleft⟩ := step_invoked host hdone work
  refine ⟨k + 1, ?_⟩
  rw [run_add, hk, run_one isDone_on_cons, hleft, hdepth, cost, hc, Nat.zero_add]
  exact ⟨rfl, rfl, rfl⟩

-- ==== Runs

/-- A machine that comes, in the same call, to one that ends does end. -/
theorem Ends.of_run {k : Nat} (h : (m.run host k).Ends host)
    (level : (m.run host k).depth = m.depth) : m.Ends host := by
  obtain ⟨j, hdone, hdepth⟩ := h
  refine ⟨k + j, ?_, ?_⟩
  · rw [run_add]
    exact hdone
  · rw [run_add, hdepth, level]

/-- A machine without loops comes to an end, however its functions call each other. The recursion is
on the room that is left for calls, and for the same room on the cost of the work: a call is run to
its end by itself first, and then the work goes on. -/
theorem LoopFree.ends (hhost : host.LoopFree) (m : Machine) (h : m.LoopFree)
    (flat : underWay m.stack = 0) : m.Ends host := by
  cases hdone : m.isDone with
  | true => exact ⟨0, hdone, rfl⟩
  | false =>
      have hstep : (m.run host 1).LoopFree := h.run hhost 1
      have proceeds : Proceeds m.depth m.cost (m.run host 1) := by
        rw [run_one hdone]
        exact h.step_proceeds flat hdone
      generalize hnext : m.run host 1 = next at hstep proceeds
      cases proceeds with
      | stays flat level cheaper =>
          subst hnext
          exact .of_run (ends hhost _ hstep flat) level
      | @enters inner work room flat level flatBelow cheaper =>
          have hinner : inner.LoopFree :=
            ⟨hstep.control, fun p hp => hstep.stack p (List.mem_append_left _ hp), hstep.store⟩
          obtain ⟨k, hwork, hdepth, hcost⟩ := (ends hhost inner hinner flat).comes_back work
          have hback : m.run host (1 + k) = (inner.on (.invoked :: work)).run host k := by
            rw [run_add, hnext]
          have hlevel : (m.run host (1 + k)).depth = m.depth := by
            rw [hback, hdepth, level, Nat.add_sub_cancel]
          have hflat : underWay (m.run host (1 + k)).stack = 0 := by
            rw [hback, hwork, flatBelow]
          exact .of_run (ends hhost _ (h.run hhost _) hflat) hlevel
termination_by (maxDepth - m.depth, m.cost)
decreasing_by
  · rw [level]
    exact Prod.Lex.right _ cheaper
  · -- the callee has less room
    rw [level]
    exact Prod.Lex.left _ _ (by omega)
  · -- the caller is back where it was, with less to do
    rw [hlevel, hback, hcost]
    exact Prod.Lex.right _ cheaper

end Machine

end Lox
