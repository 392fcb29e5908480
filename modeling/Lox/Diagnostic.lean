/-
Diagnostics: what is reported to the writer of a script.

A diagnostic names the stage that found the fault, the line, where on the line it is, and what
is wrong. Faults found before a script runs are static and are written on one line; a fault found
while it runs is written with its line below it.
-/
import Lox.Token.Basic

namespace Lox

/-- The part of the work that found a fault. -/
inductive Stage where
  | scan | parse | resolve | runtime
  | other (code : Int)
deriving DecidableEq, Repr

namespace Stage

/-- The stage with a given number. -/
def ofCode : Int → Stage
  | 0 => scan
  | 1 => parse
  | 2 => resolve
  | 3 => runtime
  | code => other code

/-- The name of a stage. -/
def name : Stage → String
  | scan => "scan"
  | parse => "parse"
  | resolve => "resolve"
  | runtime => "runtime"
  | other code => "stage_" ++ toString code

/-- Is a fault of this stage found without running the script? -/
def isStatic (s : Stage) : Bool := s ≠ runtime

end Stage

/-- A reported fault. -/
structure Diagnostic where
  stage : Stage
  line : Int
  place : Bytes := []
  message : Bytes
deriving DecidableEq

namespace Diagnostic

/-- The place of a token in a message: its lexeme, or the end of the script. -/
def placeOf (t : Token) : Bytes :=
  if t.kind = .eof then utf8 " at end" else utf8 " at '" ++ t.lexeme ++ utf8 "'"

/-- A fault at a token. -/
def atToken (stage : Stage) (t : Token) (message : Bytes) : Diagnostic where
  stage := stage
  line := t.line
  place := placeOf t
  message := message

/-- A fault of a running script, which tells its line and no place. -/
def running (t : Token) (message : Bytes) : Diagnostic where
  stage := .runtime
  line := t.line
  message := message

/-- Was the fault found without running the script? -/
def isStatic (d : Diagnostic) : Bool := d.stage.isStatic

/-- A message with its line below it, as faults of a running script are written. -/
def withLineBelow (message : Bytes) (line : Int) : Bytes :=
  message ++ utf8 "\n[line " ++ Bytes.ofInt line ++ utf8 "]"

/-- The written form of a diagnostic. -/
def render (d : Diagnostic) : Bytes :=
  if d.isStatic then
    utf8 "[line " ++ Bytes.ofInt d.line ++ utf8 "] Error" ++ d.place ++ utf8 ": " ++ d.message
  else withLineBelow d.message d.line

/-- The written form of a list of diagnostics, one after the other, if there are any. -/
def joined? : List Diagnostic → Option Bytes
  | [] => none
  | ds => some (Bytes.join (utf8 "\n") (ds.map render))

/-- What is written when each diagnostic is reported as it comes: each ends its line. -/
def report (ds : List Diagnostic) : Bytes :=
  ds.flatMap fun d => d.render ++ utf8 "\n"

end Diagnostic

end Lox
