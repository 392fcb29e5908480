/-
Suites of fixtures: all scripts below a directory, and their verdicts.
-/
import Lox.Fixture.Verdict
import Lox.Shell.Live
import Lox.Path

namespace Lox

/-- The verdict on one fixture of a suite. -/
structure Report where
  path : Bytes
  mismatches : List Mismatch
  elapsed : Bytes

namespace Report

/-- Did the script do what its annotations say? -/
def passed (r : Report) : Bool := r.mismatches.isEmpty

end Report

namespace Suite

variable {m : Type → Type} [Monad m] [Shell m]

/-- No path leads through more directories than this, since a path has a limited length. -/
def maxNesting : Nat := 4096

/-- The scripts at a path: the path itself if it is that of a script, or those in a directory. -/
def walk : Nat → Bytes → m (Except FileFault (List Bytes))
  | 0, _ => return .ok []
  | depth + 1, path => do
    match ← Shell.status path with
    | .error cause => return .error ⟨.listing, path, cause⟩
    | .ok .file => return .ok (if Path.isScript path then [path] else [])
    | .ok .directory =>
      match ← Shell.entries path with
      | .error cause => return .error ⟨.opening, path, cause⟩
      | .ok names => names.foldlM (walkNext depth path) (.ok [])
where
  /-- Go on with one name of a directory, unless something failed before. -/
  walkNext (depth : Nat) (path : Bytes) (found : Except FileFault (List Bytes)) (name : Bytes) :
      m (Except FileFault (List Bytes)) := do
    match found with
    | .error fault => return .error fault
    | .ok paths =>
      match ← walk depth (Path.join [path, name]) with
      | .error fault => return .error fault
      | .ok more => return .ok (paths ++ more)

/-- The scripts at or below a path, in byte order. -/
def collect (path : Bytes) : m (Except Bytes (List Bytes)) := do
  match ← walk maxNesting path with
  | .ok paths => return .ok (paths.mergeSort Bytes.le)
  | .error fault =>
    return .error (utf8 "collect fixtures in " ++ path ++ utf8 ": " ++ fault.message)

/-- The verdict on the fixture at a path. -/
def check (fuel : Nat) (path : Bytes) : m (Except Bytes Report) := do
  match ← Shell.read path with
  | .error fault => return .error (utf8 "fixture " ++ path ++ utf8 ": " ++ fault.message)
  | .ok source =>
    let _ ← Shell.elapsed (m := m)
    let (run, _) ← Session.live.runLive .kept fuel source
    return .ok ⟨path, Fixture.judge source run, ← Shell.elapsed⟩

/-- The record of a finished fixture. -/
def record (r : Report) : LogRecord :=
  .debug "fixture finished" [("fixture", .text r.path), ("passed", .flag r.passed)]

/-- The verdicts on fixtures, in order. The first one that cannot be read ends it all. -/
def checkAll (fuel : Nat) (level : LogLevel) : List Bytes → m (Except Bytes (List Report))
  | [] => return .ok []
  | path :: rest => do
    match ← check fuel path with
    | .error message => return .error message
    | .ok report =>
      forEach Shell.log (LogRecord.shown level [record report])
      match ← checkAll fuel level rest with
      | .error message => return .error message
      | .ok reports => return .ok (report :: reports)

/-- The verdicts on fixtures, in order; a suite that is cancelled before its first fixture has
none. -/
def run (fuel : Nat) (level : LogLevel) (cancelled : Bool) (paths : List Bytes) :
    m (Except Bytes (List Report)) :=
  if cancelled && !paths.isEmpty then return .error (utf8 "context canceled")
  else checkAll fuel level paths

end Suite

end Lox
