/-
What a command line asks for.
-/
import Lox.Path

namespace Lox

/-- What a command line asks for. -/
inductive Request where
  | help
  | version
  | prompt
  | run (arguments : List Bytes)
  | test (arguments : List Bytes)
  | script (path : Bytes)
  /-- It makes no sense. -/
  | misuse
deriving DecidableEq

namespace Request

/-- Is this one of the arguments that ask for more to be logged? -/
def isVerbose (argument : Bytes) : Bool := argument = utf8 "-v" || argument = utf8 "--verbose"

/-- The arguments without those that ask for more to be logged, and whether there were any. -/
def splitVerbose (arguments : List Bytes) : List Bytes × Bool :=
  (arguments.filter fun a => !isVerbose a, arguments.any isVerbose)

/-- What the arguments ask for. -/
def ofArguments : List Bytes → Request
  | [] => prompt
  | command :: rest =>
    if command ∈ [utf8 "--help", utf8 "-h", utf8 "help"] then help
    else if command ∈ [utf8 "--version", utf8 "-V", utf8 "version"] then version
    else if command = utf8 "repl" then prompt
    else if command = utf8 "run" then run rest
    else if command = utf8 "test" then test rest
    else if Bytes.startsWith (utf8 "-") command || !rest.isEmpty then misuse
    else script command

/-- Does the argument look like a path rather than the name of a target? -/
def looksLikePath (argument : Bytes) : Bool :=
  argument.contains Path.slash || argument.contains 92 || Path.isScript argument ||
    Bytes.startsWith (utf8 ".") argument

end Request

end Lox
