/-
Expectations written into a script.

A comment in a script can say what it should do: print a line, report an error, or fail. Only the
first annotation of the three kinds counts on a line, and a line to be printed is looked for first.
-/
import Lox.Session

namespace Lox

/-- What a script should do. -/
structure Expectation where
  /-- The lines it should print. -/
  output : List Bytes
  /-- The static diagnostics it should have, as they are written. -/
  errors : List Bytes
  /-- The fault it should fail with, as it is written; empty if it should not fail. -/
  failure : Bytes
deriving DecidableEq

namespace Expectation

/-- Nothing expected. -/
def none : Expectation := ⟨[], [], []⟩

/-- The exit code that the expectations imply. -/
def exitCode (e : Expectation) : ExitCode := .ofRun (!e.errors.isEmpty) (e.failure ≠ [])

/-- The text after the first occurrence of `mark`. -/
def afterMark? (mark : Bytes) : Bytes → Option Bytes
  | [] => Bytes.after? mark []
  | c :: text =>
    match Bytes.after? mark (c :: text) with
    | some rest => some rest
    | Option.none => afterMark? mark text

/-- The text after the first occurrence of `mark`, if there is any such text. -/
def textAfter? (mark : Bytes) (line : Bytes) : Option Bytes :=
  (afterMark? mark line).filter (· ≠ [])

/-- A line that a script should print; one space after the mark does not belong to it. -/
def outputLine? (line : Bytes) : Option Bytes :=
  (afterMark? (utf8 "// expect:") line).map fun rest =>
    match rest with
    | 32 :: text => text
    | text => text

/-- Does the text start with a line number in brackets? -/
def namesLine (text : Bytes) : Bool :=
  match Bytes.after? (utf8 "[line ") text with
  | some rest =>
    !(rest.takeWhile Bytes.isDigit).isEmpty && (rest.dropWhile Bytes.isDigit).head? == some 93
  | Option.none => false

/-- An error annotated on a line: the line of the annotation, unless it names another. -/
def errorText (line : Nat) (text : Bytes) : Bytes :=
  if namesLine text then text else utf8 "[line " ++ Bytes.ofNat line ++ utf8 "] " ++ text

/-- Add what one line says. The last failure that is annotated counts. -/
def addLine (e : Expectation) (number : Nat) (line : Bytes) : Expectation :=
  match outputLine? line with
  | some text => { e with output := e.output ++ [text] }
  | Option.none =>
    match textAfter? (utf8 "// expect runtime error: ") line with
    | some text => { e with failure := Diagnostic.withLineBelow text number }
    | Option.none =>
      match textAfter? (utf8 "// error: ") line with
      | some text => { e with errors := e.errors ++ [errorText number text] }
      | Option.none => e

/-- Add what lines say, of which the first has this number. -/
def addLines (e : Expectation) (number : Nat) : List Bytes → Expectation
  | [] => e
  | line :: rest => addLines (e.addLine number line) (number + 1) rest

/-- A line without the carriage returns at its end. -/
def stripReturns (line : Bytes) : Bytes :=
  (line.reverse.dropWhile (· == 13)).reverse

/-- The expectations written into a script. -/
def ofSource (source : Bytes) : Expectation :=
  none.addLines 1 ((Bytes.splitOn Bytes.lineFeed source).map stripReturns)

end Expectation

end Lox
