/-
The shell that a command runs in.

A command reads files and variables, writes files, prints, complains and logs. What it does is
written for any shell that can do these things, so that the same code runs on a disk and in memory.
-/
import Lox.Log
import Lox.Sink

namespace Lox

/-- What a path can name. -/
inductive FileKind where
  | file
  | directory
deriving DecidableEq, Repr

/-- Why a file could not be used. -/
inductive FileCause where
  | missing
  | notDirectory
  | isDirectory
  /-- The path holds a zero byte. -/
  | invalid
  /-- The path or a part of it is too long. -/
  | tooLong
  | other (text : Bytes)
deriving DecidableEq

namespace FileCause

/-- The wording of a cause. -/
def message : FileCause → Bytes
  | missing => utf8 "no such file or directory"
  | notDirectory => utf8 "not a directory"
  | isDirectory => utf8 "is a directory"
  | invalid => utf8 "invalid argument"
  | tooLong => utf8 "file name too long"
  | other text => text

/-- A path of this many bytes is too long. -/
def pathLimit : Nat := 4096

/-- Why a path cannot name anything, whatever files there are. -/
def ofPath? (path : Bytes) : Option FileCause :=
  if 0 ∈ path then some invalid
  else if pathLimit ≤ path.length then some tooLong
  else if path.isEmpty then some missing
  else none

end FileCause

/-- What was to be done with a file. -/
inductive FileAction where
  | opening
  | reading
  | asking
  | listing
deriving DecidableEq, Repr

namespace FileAction

/-- The name of an action in messages. -/
def name : FileAction → String
  | opening => "open"
  | reading => "read"
  | asking => "stat"
  | listing => "lstat"

end FileAction

/-- An action on a file that failed. -/
structure FileFault where
  action : FileAction
  path : Bytes
  cause : FileCause
deriving DecidableEq

namespace FileFault

/-- The wording of a file fault. -/
def message (f : FileFault) : Bytes :=
  utf8 f.action.name ++ utf8 " " ++ f.path ++ utf8 ": " ++ f.cause.message

end FileFault

/-- What a shell can do. -/
class Shell (m : Type → Type) where
  /-- The directory that relative paths start from. -/
  directory : m Bytes
  /-- The value of a variable; one that is not set is empty. -/
  setting : Bytes → m Bytes
  /-- What a path names. -/
  status : Bytes → m (Except FileCause FileKind)
  /-- The names in a directory. -/
  entries : Bytes → m (Except FileCause (List Bytes))
  /-- The contents of a file. -/
  read : Bytes → m (Except FileFault Bytes)
  /-- Make a file or replace its contents; nothing happens if that is impossible. -/
  write : Bytes → Bytes → m Unit
  /-- Print to the standard output; the answer tells of a text that was not taken as a whole. -/
  put : Bytes → m (Option Refusal)
  /-- Print to the standard error. -/
  complain : Bytes → m Unit
  /-- Write a log record. -/
  log : LogRecord → m Unit
  /-- The time since this was last asked for, as a text. -/
  elapsed : m Bytes
  /-- The reading of the clock, in seconds. -/
  seconds : m Float

/-- Print to the standard output, whatever becomes of it. -/
def Shell.print {m : Type → Type} [Monad m] [Shell m] (text : Bytes) : m Unit :=
  discard (Shell.put text)

/-- Do something with each item in turn. -/
def forEach {m : Type → Type} [Monad m] {α : Type} (f : α → m Unit) : List α → m Unit
  | [] => pure ()
  | a :: rest => do
    f a
    forEach f rest

end Lox
