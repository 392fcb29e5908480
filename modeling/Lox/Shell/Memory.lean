/-
A shell in memory.

Files and directories are kept by their absolute paths. A path is followed part by part: each part
on the way has to be there and to be a directory.
-/
import Lox.Shell.Basic
import Lox.Path

namespace Lox

/-- A clock: what it shows in seconds, by the number of times that it was read before. -/
structure Clock where
  reading : Nat → Float

/-- A number of seconds is the clock that always shows it. -/
instance : Coe Float Clock := ⟨fun seconds => ⟨fun _ => seconds⟩⟩

/-- A shell whose files, settings and output are values. -/
structure Memory where
  /-- Files and their contents, by absolute path. -/
  files : List (Bytes × Bytes)
  /-- Directories, by absolute path. -/
  directories : List Bytes
  /-- The directory that relative paths start from. -/
  current : Bytes
  settings : List (Bytes × Bytes)
  printed : Bytes := []
  complaints : Bytes := []
  records : List LogRecord := []
  /-- What is told of the time since it was last asked for. -/
  lapse : Bytes
  clock : Clock
  /-- How often the clock was read. -/
  asked : Nat := 0

namespace Memory

/-- What an absolute clean path names. -/
def kind? (s : Memory) (path : Bytes) : Option FileKind :=
  if (s.files.lookup path).isSome then some .file
  else if path ∈ s.directories then some .directory
  else none

/-- Add a directory and those that hold it. -/
def addDirectory (s : Memory) (path : Bytes) : Memory :=
  { s with directories := (Path.ancestors path).foldl (fun ds d => ds.insert d) s.directories }

/-- Replace the contents of a file, or add it at the end. -/
def setFile (path contents : Bytes) : List (Bytes × Bytes) → List (Bytes × Bytes)
  | [] => [(path, contents)]
  | (other, c) :: rest =>
    if other = path then (path, contents) :: rest else (other, c) :: setFile path contents rest

/-- Add a file and the directories that hold it. -/
def addFile (s : Memory) (path contents : Bytes) : Memory :=
  let s := s.addDirectory (Path.parent path)
  { s with files := setFile path contents s.files }

/-- The greatest number of bytes of a part of a path. -/
def partLimit : Nat := 255

/-- Follow the parts of a path from a directory that is there. A last part that is missing is still
followed, so that it can be made. -/
def follow (s : Memory) (place : Bytes) : List Bytes → Except FileCause Bytes
  | [] => .ok place
  | part :: rest =>
    match s.kind? place with
    | none => .error .missing
    | some .file => .error .notDirectory
    | some .directory =>
      if part = [] ∨ part = utf8 "." then s.follow place rest
      else if part = utf8 ".." then s.follow (Path.parent place) rest
      else if partLimit < part.length then .error .tooLong
      else s.follow (Path.join [place, part]) rest

/-- The absolute path that a path leads to. -/
def locate (s : Memory) (path : Bytes) : Except FileCause Bytes :=
  match FileCause.ofPath? path with
  | some cause => .error cause
  | none =>
    s.follow (if Path.isAbsolute path then [Path.slash] else s.current)
      (Bytes.splitOn Path.slash path)

/-- What a path names. -/
def statusOf (s : Memory) (path : Bytes) : Except FileCause FileKind :=
  match s.locate path with
  | .error cause => .error cause
  | .ok place =>
    match s.kind? place with
    | some kind => .ok kind
    | none => .error .missing

/-- The names in a directory. -/
def entriesOf (s : Memory) (path : Bytes) : Except FileCause (List Bytes) :=
  match s.locate path with
  | .error cause => .error cause
  | .ok place =>
    let names := (s.files.map (·.1) ++ s.directories).filterMap fun p =>
      if p ≠ place ∧ Path.parent p = place then some (Path.splitLast p).2 else none
    .ok names.eraseDups

/-- The contents of a file. -/
def contentsOf (s : Memory) (path : Bytes) : Except FileFault Bytes :=
  match s.locate path with
  | .error cause => .error ⟨.opening, path, cause⟩
  | .ok place =>
    match s.files.lookup place, s.kind? place with
    | some contents, _ => .ok contents
    | none, some _ => .error ⟨.reading, path, .isDirectory⟩
    | none, none => .error ⟨.opening, path, .missing⟩

/-- Make a file or replace its contents, if its directory is there. -/
def writeFile (s : Memory) (path contents : Bytes) : Memory :=
  match s.locate path with
  | .error _ => s
  | .ok place =>
    if s.kind? place = some .directory ∨ s.kind? (Path.parent place) ≠ some .directory then s
    else { s with files := setFile place contents s.files }

instance : Shell (StateM Memory) where
  directory := return (← get).current
  setting name := return ((← get).settings.lookup name).getD []
  status path := return (← get).statusOf path
  entries path := return (← get).entriesOf path
  read path := return (← get).contentsOf path
  write path contents := modify fun s => s.writeFile path contents
  put text := modifyGet fun s => (none, { s with printed := s.printed ++ text })
  complain text := modify fun s => { s with complaints := s.complaints ++ text }
  log record := modify fun s => { s with records := s.records ++ [record] }
  elapsed := return (← get).lapse
  seconds := modifyGet fun s => (s.clock.reading s.asked, { s with asked := s.asked + 1 })

end Memory

end Lox
