/-
A piece of work, from its beginning to its outcome.

# Busy machines

What a machine has set out to do, it does above the work that waits, until it has an outcome for
that work: a result, a return or a fault (`Answers`). Up to then it is busy with it (`BusyFor`), and
goes the way that it would go with nothing waiting (`run_busy`). So what holds of every machine that
starts with an empty stack holds of each expression and each statement in the middle of a program.

# Why

A step does not touch the work below the top of the stack, as long as there is work above it
(`Machine.step_on`). The machine alone is done exactly if the machine with work below has an outcome
for that work (`answers_on_iff`), and not before. Both lemmas are by induction on the number of
steps. The other way round, whatever a machine does alone, it does with any work below (`run_on`);
there the number of steps may be smaller, since a machine that is done takes no more steps alone.
-/
import Lox.Proofs.Machine.Sequence

namespace Lox

/-- A result, a return or a fault. -/
def Control.isOutcome : Control → Bool
  | .eval _ _ => false
  | .exec _ _ => false
  | .yield _ => true
  | .leave _ => true
  | .fail _ => true

namespace Machine

variable {host : Host} {m : Machine} {T : List Pending} {n : Nat}

/-- The machine has an outcome for the work `T`. -/
def Answers (T : List Pending) (m : Machine) : Prop :=
  m.control.isOutcome = true ∧ m.stack = T

/-- What the machine set out to do is under way for `n` steps: there is no outcome of it before. -/
def BusyFor (host : Host) (m : Machine) (n : Nat) : Prop :=
  ∀ k < n, ¬(m.run host k).Answers m.stack

/-- The machine, with nothing waiting. -/
def alone (m : Machine) : Machine := { m with stack := [] }

/-- The work that was taken away, put back. -/
theorem alone_on (m : Machine) : m.alone.on m.stack = m := rfl

-- ==== The work below

/-- With nothing waiting, an outcome is the end. -/
theorem answers_nil_iff : m.Answers [] ↔ m.isDone = true := by
  obtain ⟨control, stack, store, sink, depth, calls⟩ := m
  unfold Answers isDone Control.isOutcome
  cases control <;> cases stack <;> simp

/-- With work below, an outcome is the end of the machine alone. -/
theorem answers_on_iff : (m.on T).Answers T ↔ m.isDone = true := by
  rw [← answers_nil_iff]
  simp [Answers, on]

/-- A machine that is not done is not done with more work below. -/
theorem isDone_on (h : m.isDone = false) : (m.on T).isDone = false := by
  cases T with
  | cons p T => exact isDone_on_cons
  | nil =>
      show isDone { m with stack := m.stack ++ [] } = false
      rw [List.append_nil]
      exact h

/-- A machine that is busy goes the way that it would go alone. -/
theorem run_busy (h : m.BusyFor host n) : m.run host n = (m.alone.run host n).on m.stack := by
  induction n with
  | zero => exact m.alone_on.symm
  | succ n ih =>
      have hn : m.run host n = (m.alone.run host n).on m.stack :=
        ih fun k hk => h k (Nat.lt_succ_of_lt hk)
      have hdone : (m.alone.run host n).isDone = false := by
        apply Bool.eq_false_iff.mpr
        intro hdone
        apply h n (Nat.lt_succ_self n)
        rw [hn]
        exact answers_on_iff.mpr hdone
      have hbusy : (m.run host n).isDone = false := by
        rw [hn]
        exact isDone_on hdone
      rw [run_add, run_add, run_one hbusy, run_one hdone, hn, step_on hdone]

/-- What a machine does alone, it does with any work below. -/
theorem run_on (host : Host) (m : Machine) (T : List Pending) (fuel : Nat) :
    ∃ k, (m.on T).run host k = (m.run host fuel).on T := by
  induction fuel generalizing m with
  | zero => exact ⟨0, rfl⟩
  | succ fuel ih =>
      cases hdone : m.isDone with
      | true =>
          rw [run_of_isDone hdone]
          exact ⟨0, rfl⟩
      | false =>
          obtain ⟨k, hk⟩ := ih (m.step host)
          refine ⟨k + 1, ?_⟩
          rw [run, isDone_on hdone, if_neg Bool.false_ne_true, step_on hdone, hk, run, hdone,
            if_neg Bool.false_ne_true]

end Machine

end Lox
