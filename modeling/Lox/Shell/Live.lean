/-
Running in a shell.

A run in a shell is heard of while it goes on: a text that it prints goes out at once, and the clock
is read at the moment at which the program asks for it. In between the machine goes on by itself.

# Two kinds of steps

Whether a step prints or calls the host can be seen before it is taken (`isHeard`). All steps up to
such a one are taken without the shell (`runQuietly`), with a host that is never asked; then the
shell does its part and the step is taken with its answer (`stepLive`). So a shell is free in what
it does between two steps, and a machine stays what it is: the steps are the same ones.

# Shown or kept

What is printed, reported and logged is shown as it comes up, or kept to be looked at when the run
has ended (`Outlet`). A text that is shown goes to the shell in place of the sink, and the shell may
refuse it as a sink may.
-/
import Lox.Session
import Lox.Shell.Basic

namespace Lox

/-- What becomes of what a run prints, reports and logs. -/
inductive Outlet where
  /-- It is kept, to be looked at when the run has ended. -/
  | kept
  /-- It is shown as it comes up; of the log, what this level takes in. -/
  | shown (level : LogLevel)
deriving DecidableEq

/-- The host when its clock, which is its one function, shows this. -/
def Host.showing (h : Host) (seconds : Float) : Host :=
  { h with functions := #[fun _ _ => .ok (.number seconds)] }

section

variable {m : Type → Type} [Monad m] [Shell m]

namespace Outlet

/-- Tell what was found wrong. -/
def tell (outlet : Outlet) (reported : List Diagnostic) : m Unit :=
  match outlet with
  | kept => pure ()
  | shown _ => Shell.complain (Diagnostic.report reported)

/-- Tell what was logged. -/
def record (outlet : Outlet) (log : List LogRecord) : m Unit :=
  match outlet with
  | kept => pure ()
  | shown level => forEach Shell.log (LogRecord.shown level log)

end Outlet

namespace Machine

/-- Is the next step heard of: does it print, or call the host? -/
def isHeard (M : Machine) : Bool := M.isPrinting || M.asksHost

/-- Steps up to one that is heard of, but no more than `fuel`; and how many are left. -/
def runQuietly (host : Host) : Nat → Machine → Nat × Machine
  | 0, M => (0, M)
  | fuel + 1, M =>
    if M.isDone || M.isHeard then (fuel + 1, M) else runQuietly host fuel (M.step host)

theorem left_runQuietly (host : Host) (fuel : Nat) (M : Machine) :
    (M.runQuietly host fuel).1 ≤ fuel := by
  induction fuel generalizing M with
  | zero => exact Nat.le_refl _
  | succ fuel ih =>
      rw [runQuietly]
      split
      · exact Nat.le_refl _
      · exact Nat.le_succ_of_le (ih _)

/-- A step that is heard of. A text that is shown goes to the shell in place of the sink. -/
def stepLive (outlet : Outlet) (host : Host) (M : Machine) : m Machine := do
  if M.asksHost then return M.step (host.showing (← Shell.seconds))
  match outlet with
  | .kept => return M.step host
  | .shown _ =>
    match M.prints? with
    | none => return M.step host
    | some text =>
      let answer ← Shell.put text
      -- the work on top of the stack is the printing, and the shell has done it
      return { M with control := .printed answer, stack := M.stack.tail }

/-- Steps in a shell until there is nothing left to do, but no more than `fuel`. -/
def runLive (outlet : Outlet) (host : Host) (fuel : Nat) (M : Machine) : m Machine :=
  let quiet := M.runQuietly host fuel
  if quiet.1 = 0 ∨ quiet.2.isDone then return quiet.2
  else do
    let next ← quiet.2.stepLive outlet host
    next.runLive outlet host (quiet.1 - 1)
termination_by fuel
decreasing_by
  have hle : quiet.1 ≤ fuel := left_runQuietly host fuel M
  show quiet.1 - 1 < fuel
  omega

end Machine

/-- Carry out the statements of a program in a shell. -/
def Interpreter.interpretLive (outlet : Outlet) (fuel : Nat) (i : Interpreter) (program : Program) :
    m (Ending × Interpreter) := do
  let M ← (i.start program).runLive outlet i.host fuel
  return conclude i.host M

namespace Session

/-- A new session in a shell, whose clock it goes by. -/
def live : Session := clocked .unlimited fun _ => 0

/-- Run a source in a shell. Where all is shown, the run has kept nothing of what was printed. -/
def runLive (outlet : Outlet) (fuel : Nat) (s : Session) (source : Bytes) : m (Run × Session) := do
  match s.prepare source with
  | (.error run, s) =>
    outlet.record run.log
    outlet.tell run.reported
    return (run, s)
  | (.ok ready, s) =>
    outlet.record ready.log
    let (ending, interpreter) ← ready.interpreter.interpretLive outlet fuel ready.program
    let run := concluded ending interpreter.sink.contents ready.log
    outlet.tell run.reported
    outlet.record (endRecords ending)
    return (run, { s with interpreter := interpreter })

end Session

end

end Lox
