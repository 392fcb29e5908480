/-
Sessions.

A session runs one source after another. Each source is scanned and parsed, then resolved, then run;
a source with static diagnostics is not run. If scanning or parsing found any, they are all that is
reported, and nothing is resolved.

# What carries over

Global bindings, distances of local variables and node identities carry over from one source to the
next. A function that was declared in one source keeps its code, whose nodes have their distances in
the session, so that a later source can call it. A source that failed leaves the bindings it made
until then, and one that was rejected leaves nothing but the identities that its tree has taken.

# What is left to see

A run leaves an outcome, the diagnostics, what was printed and what was logged (`Run`), and the exit
code is told from the outcome. The number of machine steps is bounded; a run that takes more is left
unfinished.
-/
import Lox.Tree.Parse
import Lox.Interpreter
import Lox.Log

namespace Lox

/-- Exit codes of a process. -/
inductive ExitCode where
  /-- All went well. -/
  | ok
  /-- Something did not pass, as fixtures that fail. -/
  | failure
  /-- The command line makes no sense. -/
  | usage
  /-- The source was rejected. -/
  | dataError
  /-- There is no such input. -/
  | noInput
  /-- The program failed. -/
  | software
deriving DecidableEq, Repr

namespace ExitCode

/-- The number of an exit code. -/
def code : ExitCode → Nat
  | ok => 0
  | failure => 1
  | usage => 64
  | dataError => 65
  | noInput => 66
  | software => 70

/-- The exit code of a run that was rejected or failed; rejection counts first. -/
def ofRun (rejected failed : Bool) : ExitCode :=
  if rejected then dataError else if failed then software else ok

end ExitCode

/-- How the run of a source ended. -/
inductive Outcome where
  /-- It has static diagnostics and was not run. -/
  | rejected
  /-- It ran to its end. -/
  | completed
  /-- It failed while running. -/
  | failed
  /-- It was stopped because it took too many steps. -/
  | unfinished
deriving DecidableEq, Repr

/-- What the run of a source left to see. -/
structure Run where
  outcome : Outcome
  /-- What was found wrong, in order. -/
  diagnostics : List Diagnostic
  /-- What the reporter was told, in order. -/
  reported : List Diagnostic
  /-- What was printed. -/
  printed : Bytes
  log : List LogRecord

namespace Run

/-- A run of which nothing is reported yet. -/
def silent (outcome : Outcome) (printed : Bytes) (log : List LogRecord) : Run :=
  ⟨outcome, [], [], printed, log⟩

/-- Keep a diagnostic and tell the reporter. -/
def report (r : Run) (d : Diagnostic) : Run :=
  { r with diagnostics := r.diagnostics ++ [d], reported := r.reported ++ [d] }

/-- Was the source rejected? -/
def hadError (r : Run) : Bool := r.outcome = .rejected

/-- Did the program fail? -/
def hadRuntimeError (r : Run) : Bool := r.outcome = .failed

/-- The exit code of a run. -/
def exitCode (r : Run) : ExitCode := .ofRun r.hadError r.hadRuntimeError

end Run

/-- What is kept from one source to the next. -/
structure Session where
  interpreter : Interpreter
  /-- The last node identity taken. -/
  issued : Nat

namespace Session

/-- A new session that prints to `sink`, with the readings of its clock in seconds. -/
def clocked (sink : Sink) (reading : Nat → Float) : Session := ⟨.clocked sink reading, 0⟩

/-- A new session whose clock stands still. -/
def new (sink : Sink) (seconds : Float) : Session := clocked sink fun _ => seconds

/-- The run of a source that was rejected. -/
def reject (diagnostics : List Diagnostic) (log : List LogRecord) : Run :=
  diagnostics.foldl Run.report (.silent .rejected [] log)

/-- The record of a finished parse. -/
def parseRecord (tokens statements diagnostics : Nat) : LogRecord :=
  .debug "front end finished"
    [("stage", .text (utf8 "parse")), ("tokens", .number tokens),
      ("statements", .number statements), ("diagnostics", .number diagnostics)]

/-- The record of a finished resolution. -/
def resolveRecord (locals diagnostics : Nat) : LogRecord :=
  .debug "resolved"
    [("stage", .text (utf8 "resolve")), ("locals", .number locals),
      ("diagnostics", .number diagnostics)]

/-- The record of a fault. -/
def faultRecord (fault : Fault) : LogRecord :=
  .debug "runtime error" [("stage", .text (utf8 "interpret")), ("error", .text fault.text)]

/-- The record of a finished run. -/
def runRecord (ok : Bool) : LogRecord :=
  .debug "run finished" [("ok", .flag ok)]

/-- The records of the end of a run. -/
def endRecords : Ending → List LogRecord
  | .finished _ => [runRecord true]
  | .failed fault => [faultRecord fault, runRecord false]
  | .unfinished => []

/-- The run of a program, by how it ended, with what was logged before. -/
def concluded (ending : Ending) (printed : Bytes) (log : List LogRecord) : Run :=
  let log := log ++ endRecords ending
  match ending with
  | .finished _ => .silent .completed printed log
  | .failed fault => (Run.silent .failed printed log).report fault.diagnostic
  | .unfinished => .silent .unfinished printed log

/-- A program that is ready to run. -/
structure Ready where
  program : Program
  interpreter : Interpreter
  /-- What was logged on the way. -/
  log : List LogRecord

/-- Read a source: it is rejected, or ready to run. The session takes note of the identities. -/
def prepare (s : Session) (source : Bytes) (form : LoopForm := .compact) :
    Except Run Ready × Session :=
  let scanned := scan source
  let parsed := parse scanned.tokens s.issued form
  -- also the tree of a source that is rejected has taken its identities
  let s := { s with issued := parsed.issued }
  let found := scanned.diagnostics ++ parsed.diagnostics
  let log := [parseRecord scanned.tokens.length parsed.program.length found.length]
  if !found.isEmpty then (.error (reject found log), s)
  else
    let resolved := resolve s.interpreter.knows parsed.program
    let log := log ++ [resolveRecord resolved.resolution.size resolved.diagnostics.length]
    if !resolved.diagnostics.isEmpty then (.error (reject resolved.diagnostics log), s)
    else
      let interpreter := s.interpreter.addResolution resolved.resolution
      -- what earlier sources printed is not part of this run
      let interpreter := { interpreter with sink := interpreter.sink.drained }
      (.ok ⟨parsed.program, interpreter, log⟩, s)

/-- Run a source, with a bound on the number of machine steps. -/
def run (fuel : Nat) (s : Session) (source : Bytes) (form : LoopForm := .compact) :
    Run × Session :=
  match s.prepare source form with
  | (.error run, s) => (run, s)
  | (.ok ready, s) =>
    let (ending, interpreter) := ready.interpreter.interpret fuel ready.program
    (concluded ending interpreter.sink.contents ready.log, { s with interpreter := interpreter })

end Session

end Lox
