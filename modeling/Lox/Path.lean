/-
Paths of files.

A path is a text whose parts are divided by slashes; it is absolute if it starts with one. Cleaning
a path removes empty parts and single dots, and takes a part back for each double dot, all by the
text alone.
-/
import Lox.Text.Bytes

namespace Lox.Path

/-- The slash. -/
def slash : UInt8 := 47

/-- Does the path start at the root? -/
def isAbsolute (path : Bytes) : Bool := path.head? == some slash

/-- Add a part to the parts before it, the latest of which comes first. A double dot takes back a
part, except where there is none to take back: there it stays, or at the root is dropped. -/
def addPart (rooted : Bool) (before : List Bytes) (part : Bytes) : List Bytes :=
  if part = [] ∨ part = utf8 "." then before
  else if part = utf8 ".." then
    match before with
    | [] => if rooted then [] else [part]
    | last :: rest => if last = utf8 ".." then part :: before else rest
  else part :: before

/-- The shortest path with the same meaning, by its text. -/
def clean (path : Bytes) : Bytes :=
  let rooted := isAbsolute path
  let parts := ((Bytes.splitOn slash path).foldl (addPart rooted) []).reverse
  let text := Bytes.join [slash] parts
  if rooted then slash :: text else if text.isEmpty then utf8 "." else text

/-- Parts put together and cleaned; empty ones count for nothing. -/
def join (parts : List Bytes) : Bytes :=
  match parts.filter (· ≠ []) with
  | [] => []
  | parts => clean (Bytes.join [slash] parts)

/-- The text up to and with the last slash, and the text after it. -/
def splitLast (path : Bytes) : Bytes × Bytes :=
  let base := (path.reverse.takeWhile (· != slash)).reverse
  (path.take (path.length - base.length), base)

/-- The directory that holds what the path names. -/
def parent (path : Bytes) : Bytes := clean (splitLast path).1

/-- The end of the last part from its last dot on; empty if it has no dot. -/
def extension (path : Bytes) : Bytes :=
  let base := (splitLast path).2
  let tail := base.reverse.takeWhile (· != 46)
  if tail.length < base.length then 46 :: tail.reverse else []

/-- Is this the path of a script? -/
def isScript (path : Bytes) : Bool := extension path = utf8 ".lox"

/-- The absolute path, where `directory` is the directory that relative paths start from. -/
def absolute (directory path : Bytes) : Bytes :=
  if isAbsolute path then clean path else join [directory, path]

/-- The directories that hold an absolute clean path, the path itself first and the root last. -/
def ancestors (path : Bytes) : List Bytes :=
  let parts := (Bytes.splitOn slash path).filter (· ≠ [])
  (List.range (parts.length + 1)).map fun n =>
    slash :: Bytes.join [slash] (parts.take (parts.length - n))

end Lox.Path
