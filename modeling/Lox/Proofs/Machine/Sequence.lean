/-
A program with more statements after it.

A step does not touch the work below the top of the stack (`step_on`), so what a statement does, it
does whatever follows it. A program that comes to its end therefore leads, with more statements
after it, to the point where only these are left, and to the same frames and the same output by then
(`run_then`).

The induction is on the number of steps. At each of them the machine of the program has some work of
its own above the statements that are left, and the machine with more statements after it has the
same work above the same statements and more; only where no work is left above them does a step look
at the statements, and it takes the first one off on both sides. When the program has no statement
left, it is at its end, and the other machine has just the further ones.
-/
import Lox.Proofs.Machine.Framed
import Lox.Proofs.Machine.Run

namespace Lox.Machine

variable {host : Host} {m : Machine} {T : List Pending}

-- ==== Work below

/-- The machine, with more work below its own. -/
def on (m : Machine) (T : List Pending) : Machine := { m with stack := m.stack ++ T }

/-- A machine that is not done does the same with more work below. -/
theorem step_on (h : m.isDone = false) : (m.on T).step host = (m.step host).on T := by
  cases hp : m.prints? with
  | none =>
      have hon : (m.step host).on T = (m.step host).framed T m.sink := by
        rw [framed, ← sink_step h hp]
        rfl
      rw [hon, ← step_framed h hp]
      rfl
  | some text =>
      obtain ⟨v, rest, hcontrol, hstack, htext⟩ := of_prints? hp
      have hp' : (m.on T).prints? = some text := by
        simp only [prints?, on, hcontrol, hstack, List.cons_append, htext]
      have htail : (m.on T).stack.tail = m.stack.tail ++ T := by
        simp only [on, hstack, List.cons_append, List.tail_cons]
      rw [step_prints hp, step_prints hp', htail]
      rfl

-- ==== More statements

/-- With work below, a machine is not done. -/
theorem isDone_on_cons {p : Pending} : (m.on (p :: T)).isDone = false := by
  obtain ⟨control, stack, store, sink, depth, calls⟩ := m
  cases control <;> cases stack <;> rfl

/-- A program that comes to its end comes, with `more` after it, to the point where only `more` is
left. -/
theorem run_then {rest : List Stmt} (more : List Stmt) {env : FrameRef} {fuel : Nat} {w : Value}
    (hcontrol : ((m.on [.sequence rest env]).run host fuel).control = .yield w)
    (hstack : ((m.on [.sequence rest env]).run host fuel).stack = []) :
    ∃ k v, (m.on [.sequence (rest ++ more) env]).run host k =
      { (m.on [.sequence rest env]).run host fuel with
        control := .yield v, stack := [.sequence more env] } := by
  induction fuel generalizing m rest with
  | zero =>
      have hne : m.stack ++ [Pending.sequence rest env] ≠ [] := by simp
      exact absurd hstack hne
  | succ fuel ih =>
      rw [run, isDone_on_cons, if_neg Bool.false_ne_true] at hcontrol hstack ⊢
      cases hdone : m.isDone with
      | false =>
          rw [step_on hdone] at hcontrol hstack ⊢
          obtain ⟨k, v, hk⟩ := ih hcontrol hstack
          refine ⟨k + 1, v, ?_⟩
          rw [run, isDone_on_cons, if_neg Bool.false_ne_true, step_on hdone]
          exact hk
      | true =>
          -- the statement is done, and the next one comes
          obtain ⟨control, stack, store, sink, depth, calls⟩ := m
          obtain rfl : stack = [] := stack_of_isDone hdone
          cases control with
          | eval e env => cases hdone
          | exec s env => cases hdone
          | yield v =>
              cases rest with
              | nil =>
                  have hend : run host fuel ⟨.yield .nil, [], store, sink, depth, calls⟩
                      = ⟨.yield .nil, [], store, sink, depth, calls⟩ := run_of_isDone rfl fuel
                  refine ⟨0, v, ?_⟩
                  show _ = { run host fuel ⟨.yield .nil, [], store, sink, depth, calls⟩ with
                    control := .yield v, stack := [.sequence more env] }
                  rw [hend]
                  rfl
              | cons s rest =>
                  obtain ⟨k, w, hk⟩ :=
                    ih (m := ⟨.exec s env, [], store, sink, depth, calls⟩) hcontrol hstack
                  exact ⟨k + 1, w, hk⟩
          | leave v =>
              rw [run_of_isDone rfl] at hcontrol
              cases hcontrol
          | fail f =>
              rw [run_of_isDone rfl] at hcontrol
              cases hcontrol

end Lox.Machine
