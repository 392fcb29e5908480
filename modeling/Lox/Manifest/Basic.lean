/-
Manifests of projects.

A manifest names a project and the scripts that are its targets, and sets up the prompt and the
fixtures. A draft is what was written in the file; a manifest has blanks trimmed, defaults filled
in and one target for each name, the first. Targets are kept in a table by name, and their names
beside it in the order of the file.
-/
import Lox.Path
import Lox.Table
import Lox.Text.Blank
import Lox.Text.Fold
import Lox.Text.Quoted

namespace Lox

/-- A target: the name it is run by, and its script. -/
structure Target where
  name : Bytes
  main : Bytes
deriving DecidableEq

namespace Manifest

/-- What a manifest file says. -/
structure Draft where
  name : Bytes := []
  version : Bytes := []
  /-- Targets in the order of the file, under trimmed names; names may repeat. -/
  targets : List Target := []
  prompt? : Option Bytes := none
  continuation? : Option Bytes := none
  history : Bytes := []
  fixtures : Bytes := []
  parallel : Int := 0

end Manifest

/-- A manifest. -/
structure Manifest where
  /-- The absolute path of its file. -/
  path : Bytes
  name : Bytes
  version : Bytes
  /-- Targets, by name. -/
  table : Table Target
  /-- The names of the targets in order. -/
  order : List Bytes
  prompt : Bytes
  continuation : Bytes
  /-- The file of the history of the prompt; empty if not given. -/
  history : Bytes
  /-- The directory of the fixtures. -/
  fixtures : Bytes
  /-- How many fixtures are to run at a time. -/
  parallel : Int
deriving DecidableEq

namespace Manifest

/-- The name of a manifest file. -/
def fileName : Bytes := utf8 "lox.yml"

/-- The prompt, where nothing else is given. -/
def defaultPrompt : Bytes := utf8 "> "

/-- The prompt for further lines, where nothing else is given. -/
def defaultContinuation : Bytes := utf8 "... "

/-- The directory of the fixtures, where nothing else is given. -/
def defaultFixtures : Bytes := utf8 "testdata"

-- ==== From a draft

/-- Add a target to a table and its name to the order, unless there is one with its name. -/
def addTarget (before : Table Target × List Bytes) (t : Target) : Table Target × List Bytes :=
  match before.1.lookup t.name with
  | some _ => before
  | none => (Table.set t.name ⟨t.name, Text.trim t.main⟩ before.1, before.2 ++ [t.name])

/-- The manifest that a draft stands for. -/
def ofDraft (path : Bytes) (draft : Draft) : Manifest where
  path := path
  name := Text.trim draft.name
  version := Text.trim draft.version
  table := (draft.targets.foldl addTarget ([], [])).1
  order := (draft.targets.foldl addTarget ([], [])).2
  prompt := draft.prompt?.getD defaultPrompt
  continuation := draft.continuation?.getD defaultContinuation
  history := Text.trim draft.history
  fixtures :=
    let given := Text.trim draft.fixtures
    if given.isEmpty then defaultFixtures else given
  parallel := draft.parallel

/-- The target with just this name. -/
def target? (m : Manifest) (name : Bytes) : Option Target := m.table.lookup name

-- ==== Validity

/-- What can be wrong with a manifest. -/
inductive Issue where
  | noName
  | noMain (target : Bytes)
  | notScript (target main : Bytes)
  | negativeParallel (given : Int)
deriving DecidableEq

namespace Issue

/-- The wording of an issue. -/
def message : Issue → Bytes
  | noName => utf8 "name must be provided"
  | noMain target => utf8 "target " ++ Text.quote target ++ utf8 " requires a main entrypoint"
  | notScript target main =>
    utf8 "target " ++ Text.quote target ++ utf8 " main " ++ Text.quote main ++
      utf8 " must be a .lox file"
  | negativeParallel given =>
    utf8 "fixtures.parallel must not be negative (got " ++ Bytes.ofInt given ++ utf8 ")"

/-- The wording of a list of issues. -/
def report : List Issue → Bytes
  | [] => utf8 "manifest: invalid configuration"
  | issues =>
    utf8 "manifest validation failed:" ++ issues.flatMap fun issue => utf8 "\n- " ++ issue.message

end Issue

/-- What is wrong with the script of the target with this name. -/
def mainIssues (name main : Bytes) : List Issue :=
  if main.isEmpty then [.noMain name]
  else if Path.isScript main then []
  else [.notScript name main]

/-- What is wrong with a manifest. Nothing can be said if a name in the order has no target. -/
def issues? (m : Manifest) : Option (List Issue) := do
  let found ← m.order.mapM fun name => (m.target? name).map fun t => mainIssues name t.main
  return (if m.name.isEmpty then [.noName] else []) ++ found.flatten ++
    (if m.parallel < 0 then [.negativeParallel m.parallel] else [])

-- ==== Targets

/-- The targets in order. -/
def targets (m : Manifest) : List Target := m.order.filterMap m.target?

/-- Why there is no target to run. -/
inductive TargetFault where
  | noTargets
  | absent
deriving DecidableEq, Repr

namespace TargetFault

/-- The wording of a target fault. -/
def message : TargetFault → Bytes
  | noTargets => utf8 "manifest: no targets defined"
  | absent => utf8 "missing manifest or target"

end TargetFault

/-- A path of the manifest; relative ones start from its directory. -/
def resolve (m : Manifest) (path : Bytes) : Bytes :=
  if Path.isAbsolute path then Path.clean path else Path.join [Path.parent m.path, path]

/-- The target to run if none is named: the first. -/
def defaultTarget (m? : Option Manifest) : Except TargetFault Target :=
  match m? with
  | none => .error .noTargets
  | some m =>
    match m.order with
    | [] => .error .noTargets
    | name :: _ =>
      match m.target? name with
      | some t => .ok t
      | none => .error .absent

/-- The target that a name asks for: the one with just this name, or else the first whose name
differs only in case. -/
def findTarget (m? : Option Manifest) (name : Bytes) : Option Target :=
  match m? with
  | none => none
  | some m =>
    let name := Text.trim name
    match m.target? name with
    | some t => some t
    | none => (m.order.find? fun key => Text.equalFold key name).bind m.target?

/-- The path of a target's script. -/
def mainPath (m? : Option Manifest) (t? : Option Target) : Except TargetFault Bytes :=
  match m?, t? with
  | some m, some t => .ok (m.resolve t.main)
  | _, _ => .error .absent

/-- The path of the directory of the fixtures. -/
def fixturesPath (m : Manifest) : Bytes := m.resolve m.fixtures

end Manifest

end Lox
