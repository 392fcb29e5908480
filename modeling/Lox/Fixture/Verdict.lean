/-
Does a script do what its annotations say?

A fixture is a script with expectations in it. Its verdict is the list of ways in which the run
differs from them, and an empty list is a pass. Errors are compared without regard to their order: a
tally of those that are expected is counted down by those that are reported.
-/
import Lox.Fixture.Expectation
import Lox.Table
import Lox.Text.Quoted

namespace Lox

/-- A difference between what a script did and what it should have done. Lines count from one. -/
inductive Mismatch where
  | missingLine (number : Nat) (want : Bytes)
  | extraLine (number : Nat) (got : Bytes)
  | wrongLine (number : Nat) (got want : Bytes)
  | extraError (got : Bytes)
  | missingError (want : Bytes)
  | wrongFailure (got want : Bytes)
  | wrongExit (got want : Int)
deriving DecidableEq

namespace Mismatch

/-- The wording of a mismatch. -/
def message : Mismatch → Bytes
  | missingLine number want =>
    utf8 "missing output line " ++ Bytes.ofNat number ++ utf8 ": " ++ Text.quote want
  | extraLine number got =>
    utf8 "unexpected output line " ++ Bytes.ofNat number ++ utf8 ": " ++ Text.quote got
  | wrongLine number got want =>
    utf8 "output line " ++ Bytes.ofNat number ++ utf8 ": got " ++ Text.quote got ++
      utf8 ", want " ++ Text.quote want
  | extraError got => utf8 "unexpected error: " ++ got
  | missingError want => utf8 "missing error: " ++ want
  | wrongFailure got want =>
    utf8 "runtime error: got " ++ Text.quote got ++ utf8 ", want " ++ Text.quote want
  | wrongExit got want =>
    utf8 "exit code: got " ++ Bytes.ofInt got ++ utf8 ", want " ++ Bytes.ofInt want

end Mismatch

/-- Errors with the number of times that each is awaited. One that is not awaited any more may stay
in the tally. -/
abbrev Tally := Table Nat

namespace Tally

/-- How many times an error is awaited. -/
def times (t : Tally) (error : Bytes) : Nat := (t.lookup error).getD 0

/-- Await an error once more. -/
def add (t : Tally) (error : Bytes) : Tally := Table.set error (t.times error + 1) t

/-- Await each error of a list. -/
def ofList (errors : List Bytes) : Tally := errors.foldl add []

/-- Count an error down each time that it is reported: the errors that were not awaited when they
were reported, and the tally that is left. -/
def strike (t : Tally) : List Bytes → List Bytes × Tally
  | [] => ([], t)
  | got :: gots =>
    if 0 < t.times got then strike (Table.set got (t.times got - 1) t) gots
    else
      let (extra, rest) := t.strike gots
      (got :: extra, rest)

/-- The errors that are awaited, each as often as it is. -/
def awaited (t : Tally) : List Bytes := t.flatMap fun (error, n) => List.replicate n error

end Tally

namespace Fixture

/-- Compare printed lines with expected ones, the first of which has this number. -/
def compareLines (number : Nat) : List Bytes → List Bytes → List Mismatch
  | [], [] => []
  | [], want :: wants => .missingLine number want :: compareLines (number + 1) [] wants
  | got :: gots, [] => .extraLine number got :: compareLines (number + 1) gots []
  | got :: gots, want :: wants =>
    if got = want then compareLines (number + 1) gots wants
    else .wrongLine number got want :: compareLines (number + 1) gots wants

/-- Compare reported errors with expected ones: those that the tally did not await, and those that
it still awaits in the end, in byte order. It is gone through in the order that `visit` gives it. -/
def compareErrors (visit : Tally → Tally) (gots wants : List Bytes) : List Mismatch :=
  let (extra, rest) := (Tally.ofList wants).strike gots
  extra.map .extraError ++ ((visit rest).awaited.mergeSort Bytes.le).map .missingError

/-- The last fault of a running program among the diagnostics, as it is written; empty if there is
none. -/
def failureText (diagnostics : List Diagnostic) : Bytes :=
  match (diagnostics.filter fun d => !d.isStatic).getLast? with
  | some d => d.render
  | none => []

/-- All ways in which a run differs from what is expected. -/
def compare (e : Expectation) (output : List Bytes) (diagnostics : List Diagnostic) (exit : Int)
    (visit : Tally → Tally := id) : List Mismatch :=
  let failure := failureText diagnostics
  let want : Int := e.exitCode.code
  compareLines 1 output e.output ++
    compareErrors visit ((diagnostics.filter (·.isStatic)).map (·.render)) e.errors ++
    (if failure = e.failure then [] else [.wrongFailure failure e.failure]) ++
    (if exit = want then [] else [.wrongExit exit want])

/-- The lines of printed text, of which the last one need not end with a line feed. -/
def outputLines (printed : Bytes) : List Bytes :=
  let text := if printed.getLast? = some Bytes.lineFeed then printed.dropLast else printed
  if text.isEmpty then [] else Bytes.splitOn Bytes.lineFeed text

/-- All ways in which the run of a script differs from what its annotations say. -/
def judge (source : Bytes) (run : Run) : List Mismatch :=
  compare (.ofSource source) (outputLines run.printed) run.reported run.exitCode.code

/-- The verdict on a script: it is run in a session of its own, with the readings of its clock. -/
def clockedVerdict (fuel : Nat) (reading : Nat → Float) (source : Bytes) : List Mismatch :=
  judge source ((Session.clocked .unlimited reading).run fuel source).1

/-- The verdict on a script whose clock stands still. -/
def verdict (fuel : Nat) (seconds : Float) (source : Bytes) : List Mismatch :=
  clockedVerdict fuel (fun _ => seconds) source

end Fixture

end Lox
