/-
Manifest files: where they are found, and how they are read.
-/
import Lox.Manifest.Draft
import Lox.Shell.Basic

namespace Lox.Manifest

/-- Why there is no manifest. -/
inductive FileProblem where
  /-- There is none in a directory or those that hold it. -/
  | notFound (origin : Bytes)
  /-- The search for it failed. -/
  | search (fault : FileFault)
  | emptyPath
  | unopened (path : Bytes) (fault : FileFault)
  | empty (path : Bytes)
  | malformed (path : Bytes)
  | draft (path : Bytes) (fault : DraftFault)
  | invalid (issues : List Issue)
deriving DecidableEq

namespace FileProblem

/-- The wording of a problem. -/
def message : FileProblem → Bytes
  | notFound origin =>
    utf8 "no " ++ fileName ++ utf8 " found from " ++ origin ++ utf8 " upwards: " ++ fileName ++
      utf8 " not found"
  | search fault => fault.message
  | emptyPath => utf8 "manifest: empty path"
  | unopened path fault => utf8 "manifest: open " ++ path ++ utf8 ": " ++ fault.message
  | empty path => utf8 "manifest: " ++ path ++ utf8 " is empty"
  | malformed path => utf8 "manifest: parse " ++ path ++ utf8 ": yaml: malformed document"
  | draft path fault => utf8 "manifest: parse " ++ path ++ utf8 ": " ++ fault.message
  | invalid issues => Issue.report issues

end FileProblem

/-- The manifest that a text holds, where the text is the file at this path. -/
def ofText (path text : Bytes) : Except FileProblem Manifest :=
  match Yaml.read text with
  | .malformed => .error (.malformed path)
  | .absent => .error (.empty path)
  | .root node =>
    match Draft.ofNode node with
    | .error fault => .error (.draft path fault)
    | .ok draft =>
      let m := ofDraft path draft
      match m.issues? with
      | some [] => .ok m
      | some issues => .error (.invalid issues)
      | none => .error (.invalid [])

variable {m : Type → Type} [Monad m] [Shell m]

/-- The manifest in the file at a path. -/
def load (path : Bytes) : m (Except FileProblem Manifest) := do
  if path.isEmpty then return .error .emptyPath
  let path := Path.absolute (← Shell.directory) path
  match ← Shell.read path with
  | .ok text => return ofText path text
  | .error fault =>
    match fault.action with
    | .opening => return .error (.unopened path fault)
    | _ => return .error (.malformed path)

/-- The first manifest file in a list of directories. -/
def findIn (origin : Bytes) : List Bytes → m (Except FileProblem Bytes)
  | [] => return .error (.notFound origin)
  | directory :: rest => do
    let path := Path.join [directory, fileName]
    match ← Shell.status path with
    | .ok .file => return .ok path
    | .ok .directory => findIn origin rest
    | .error .missing => findIn origin rest
    | .error cause => return .error (.search ⟨.asking, path, cause⟩)

/-- The manifest file that counts at a path: that in its directory, or in the nearest one that holds
it. -/
def find (start : Bytes) : m (Except FileProblem Bytes) := do
  let path := Path.absolute (← Shell.directory) start
  let origin := match ← Shell.status path with
    | .ok .file => Path.parent path
    | _ => path
  findIn origin (Path.ancestors origin)

/-- The manifest that counts in the working directory. -/
def current : m (Except FileProblem Manifest) := do
  match ← find (utf8 ".") with
  | .ok path => load path
  | .error problem => return .error problem

end Lox.Manifest
