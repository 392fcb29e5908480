/-
Options of the test command.

There is one option, `-p` with a number, also written `--p`, and with its value as the next
argument or after an equals sign. Options end at the first argument that is none, or at a double
dash.
-/
import Lox.Number.Integer
import Lox.Text.Quoted

namespace Lox

/-- What the test command is asked for. -/
structure TestOptions where
  /-- How many fixtures are to run at a time; zero if not given. -/
  parallel : Int := 0
  /-- The arguments after the options. -/
  rest : List Bytes := []
deriving DecidableEq

/-- What can be wrong with options. -/
inductive FlagFault where
  | malformed (argument : Bytes)
  | unknown (name : Bytes)
  | noValue (name : Bytes)
  | badValue (name value : Bytes) (fault : Number.IntegerFault)
  /-- Not a fault: the options are to be listed. -/
  | help
deriving DecidableEq

namespace FlagFault

/-- The options of the test command. -/
def usage : Bytes :=
  utf8 ("Usage of test:\n  -p int\n    \tnumber of fixtures to run concurrently " ++
    "(default from lox.yml, else 1)\n")

/-- What is wrong with a number. -/
def reason : Number.IntegerFault → String
  | .malformed => "parse error"
  | .tooLarge => "value out of range"

/-- The wording of a fault, with the options after it. -/
def message : FlagFault → Bytes
  | malformed argument => utf8 "bad flag syntax: " ++ argument ++ utf8 "\n" ++ usage
  | unknown name => utf8 "flag provided but not defined: -" ++ name ++ utf8 "\n" ++ usage
  | noValue name => utf8 "flag needs an argument: -" ++ name ++ utf8 "\n" ++ usage
  | badValue name value fault =>
    utf8 "invalid value " ++ Text.quote value ++ utf8 " for flag -" ++ name ++ utf8 ": " ++
      utf8 (reason fault) ++ utf8 "\n" ++ usage
  | help => usage

end FlagFault

namespace TestOptions

/-- The dash. -/
def dash : UInt8 := 45

/-- The equals sign. -/
def equals : UInt8 := 61

/-- The name of an option and the value given with it, where the argument is without its dashes. -/
def splitValue (text : Bytes) : Bytes × Option Bytes :=
  let name := text.takeWhile (· != equals)
  match text.drop name.length with
  | [] => (name, none)
  | _ :: value => (name, some value)

/-- Take the value of the option with this name. -/
def set (o : TestOptions) (name value : Bytes) : Except FlagFault TestOptions :=
  match Number.readInteger value with
  | .ok n => .ok { o with parallel := n }
  | .error fault => .error (.badValue name value fault)

/-- The name and value of an option, from the text after its dashes. -/
def nameOf (argument text : Bytes) : Except FlagFault (Bytes × Option Bytes) :=
  match text with
  | [] => .error (.malformed argument)
  | b :: _ =>
    if b = dash || b = equals then .error (.malformed argument)
    else
      let (name, value?) := splitValue text
      if name = utf8 "p" then .ok (name, value?)
      else if name = utf8 "help" || name = utf8 "h" then .error .help
      else .error (.unknown name)

/-- An argument as an option: the text after its dashes, or nothing if it is none. -/
def afterDashes? : Bytes → Option Bytes
  | 45 :: 45 :: text => some text
  | [45] => none
  | 45 :: text => some text
  | _ => none

/-- Read options after those in `o`. -/
def readFrom (o : TestOptions) : List Bytes → Except FlagFault TestOptions
  | [] => .ok o
  | [argument] =>
    if argument = utf8 "--" then .ok o
    else match afterDashes? argument with
      | none => .ok { o with rest := [argument] }
      | some text => do
        match ← nameOf argument text with
        | (name, some value) => o.set name value
        | (name, none) => .error (.noValue name)
  | argument :: next :: rest =>
    if argument = utf8 "--" then .ok { o with rest := next :: rest }
    else match afterDashes? argument with
      | none => .ok { o with rest := argument :: next :: rest }
      | some text => do
        match ← nameOf argument text with
        | (name, some value) => (← o.set name value).readFrom (next :: rest)
        | (name, none) => (← o.set name next).readFrom rest

/-- Read the options of the test command. -/
def read (arguments : List Bytes) : Except FlagFault TestOptions := readFrom {} arguments

end TestOptions

end Lox
