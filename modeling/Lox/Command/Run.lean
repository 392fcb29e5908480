/-
Commands, as they are carried out in a shell.

Each one does its work and gives the exit code.
-/
import Lox.Command.Flags
import Lox.Command.Request
import Lox.Fixture.Suite
import Lox.Repl.Loop

namespace Lox.Command

variable {m : Type → Type} [Monad m] [Shell m]

/-- The name and version of the program. -/
def versionText : Bytes := utf8 "lox 0.1.0\n"

/-- How the program is used. -/
def usageText : Bytes :=
  utf8 ("Usage:\n" ++
    "  lox                       start the REPL\n" ++
    "  lox <file.lox>            run a script\n" ++
    "  lox run [target|file]     run a lox.yml target or a script\n" ++
    "  lox test [-p N] [dir]     run annotated fixture scripts\n" ++
    "  lox version\n" ++
    "Flags:\n" ++
    "  -v, --verbose             debug tracing on stderr (or LOX_LOG=debug)\n")

/-- Complain in one line, and give an exit code. -/
def complain (text : Bytes) (code : ExitCode) : m ExitCode := do
  Shell.complain (text ++ [Bytes.lineFeed])
  return code

/-- Complain of arguments that are too many. -/
def unexpected (arguments : List Bytes) : m ExitCode :=
  complain (utf8 "unexpected arguments: " ++ Bytes.join (utf8 " ") arguments) .usage

/-- The record of a script that is about to run. -/
def scriptRecord (path source : Bytes) : LogRecord :=
  .debug "running script" [("path", .text path), ("bytes", .number source.length)]

-- ==== Scripts

/-- Run the script at a path. -/
def runScript (fuel : Nat) (level : LogLevel) (path : Bytes) : m ExitCode := do
  match ← Shell.read path with
  | .error fault =>
    complain (utf8 "lox: cannot read " ++ path ++ utf8 ": " ++ fault.message) .noInput
  | .ok source =>
    forEach Shell.log (LogRecord.shown level [scriptRecord path source])
    let (run, _) ← Session.live.runLive (.shown level) fuel source
    return run.exitCode

/-- Run the script of a target of a manifest. -/
def runTarget (fuel : Nat) (level : LogLevel) (manifest : Manifest) (t : Target) : m ExitCode :=
  runScript fuel level (manifest.resolve t.main)

/-- Run the default target. -/
def runDefault (fuel : Nat) (level : LogLevel) (manifest? : Option Manifest) : m ExitCode :=
  match manifest? with
  | none =>
    complain (utf8 "lox run requires a manifest target or source file (" ++ Manifest.fileName ++
      utf8 " not found)") .usage
  | some manifest =>
    match Manifest.defaultTarget manifest? with
    | .error fault => complain (utf8 "manifest error: " ++ fault.message) .dataError
    | .ok t => runTarget fuel level manifest t

/-- Run what an argument names: a target, or else the script at this path. -/
def runNamed (fuel : Nat) (level : LogLevel) (manifest? : Option Manifest) (name : Bytes) :
    m ExitCode :=
  match manifest?, Manifest.findTarget manifest? name with
  | some manifest, some t => runTarget fuel level manifest t
  | _, _ => runScript fuel level name

/-- Run a target or a script. A manifest that cannot be used is in the way, except of what looks
like the path of a script. -/
def runEntry (fuel : Nat) (level : LogLevel) (arguments : List Bytes) : m ExitCode := do
  match arguments with
  | _ :: extra :: more => unexpected (extra :: more)
  | [] =>
    match ← Manifest.current with
    | .ok manifest => runDefault fuel level (some manifest)
    | .error (.notFound _) => runDefault fuel level none
    | .error problem =>
      complain (utf8 "failed to load manifest: " ++ problem.message) .dataError
  | [name] =>
    match ← Manifest.current with
    | .ok manifest => runNamed fuel level (some manifest) name
    | .error (.notFound _) => runNamed fuel level none name
    | .error problem =>
      if Request.looksLikePath name then
        Shell.complain (utf8 "warning: unable to load manifest (" ++ problem.message ++
          utf8 "); falling back to direct file execution\n")
        runNamed fuel level none name
      else complain (utf8 "failed to load manifest: " ++ problem.message) .dataError

-- ==== Fixtures

/-- The lines on a fixture. -/
def reportText (r : Report) : Bytes :=
  if r.passed then utf8 "PASS " ++ r.path ++ utf8 " (" ++ r.elapsed ++ utf8 ")\n"
  else
    utf8 "FAIL " ++ r.path ++ utf8 "\n" ++
      r.mismatches.flatMap fun mismatch => utf8 "    " ++ mismatch.message ++ utf8 "\n"

/-- The last line on a suite. -/
def summaryText (reports : List Report) : Bytes :=
  Bytes.ofNat (reports.countP (·.passed)) ++ utf8 " passed, " ++
    Bytes.ofNat (reports.countP (!·.passed)) ++ utf8 " failed\n"

/-- Run the fixtures at a path. -/
def runSuite (fuel : Nat) (level : LogLevel) (path : Bytes) : m ExitCode := do
  match ← Suite.collect path with
  | .error message => complain message .noInput
  | .ok paths =>
    match ← Suite.run fuel level false paths with
    | .error message => complain message .noInput
    | .ok reports =>
      Shell.print (reports.flatMap reportText ++ summaryText reports)
      return if reports.all (·.passed) then .ok else .failure

/-- Run the fixtures of an argument, of the manifest, or of the standard directory. -/
def runTests (fuel : Nat) (level : LogLevel) (arguments : List Bytes) : m ExitCode := do
  match TestOptions.read arguments with
  | .error fault =>
    Shell.complain fault.message
    return .usage
  | .ok options =>
    match options.rest with
    | _ :: extra :: more => unexpected (extra :: more)
    | rest =>
      match ← Manifest.current with
      | .ok manifest => runSuite fuel level (rest.head?.getD manifest.fixturesPath)
      | .error (.notFound _) => runSuite fuel level (rest.head?.getD Manifest.defaultFixtures)
      | .error problem =>
        complain (utf8 "failed to load manifest: " ++ problem.message) .dataError

-- ==== The command line

/-- How much is to be logged: all that helps to find a cause if that was asked for, else what a
variable of the shell says. -/
def levelOf (verbose : Bool) : m LogLevel := do
  if verbose then return .debug
  return .ofText (← Shell.setting (utf8 "LOX_LOG"))

/-- Carry out a request, where `talk` holds the talk at the prompt. -/
def carryOut (fuel : Nat) (level : LogLevel) (talk : m Unit) : Request → m ExitCode
  | .help => do
    Shell.print usageText
    return .ok
  | .version => do
    Shell.print versionText
    return .ok
  | .prompt => do
    talk
    return .ok
  | .run arguments => runEntry fuel level arguments
  | .test arguments => runTests fuel level arguments
  | .script path => runScript fuel level path
  | .misuse => do
    Shell.complain usageText
    return .usage

/-- The talk at the prompt when all answers are known. -/
def talkOver (fuel : Nat) (level : LogLevel) (answers : List Answer) : m Unit := do
  (← Repl.start level).feedAll fuel level answers

/-- Carry out a command line, where `talk` holds the talk at the prompt. -/
def execute (fuel : Nat) (talk : LogLevel → m Unit) (arguments : List Bytes) : m ExitCode := do
  let (arguments, verbose) := Request.splitVerbose arguments
  let level ← levelOf verbose
  carryOut fuel level (talk level) (Request.ofArguments arguments)

end Lox.Command
