/-
Settings of the prompt: from the manifest, the home directory and a variable of the shell.
-/
import Lox.Manifest.File
import Lox.Repl.Chunk

namespace Lox

/-- Settings of the prompt. -/
structure Settings where
  prompts : Prompts
  /-- The file of the history; empty if there is none. -/
  history : Bytes
deriving DecidableEq

namespace Settings

/-- The record of a manifest that cannot be used. -/
def warning (problem : Manifest.FileProblem) : LogRecord :=
  ⟨.warn, [("error", .text problem.message)], "ignoring unreadable manifest"⟩

/-- The settings without a manifest. -/
def standard (home : Bytes) : Settings where
  prompts := ⟨Manifest.defaultPrompt, Manifest.defaultContinuation⟩
  history := if home.isEmpty then [] else Path.join [home, utf8 ".lox_history"]

/-- The settings of a manifest, where `s` are those without it. -/
def ofManifest (s : Settings) (m : Manifest) : Settings where
  prompts := ⟨m.prompt, m.continuation⟩
  history :=
    if m.history.isEmpty then s.history
    else if Path.isAbsolute m.history then m.history
    else Path.join [Path.parent m.path, m.history]

/-- The settings with another history file, if one is given. -/
def withHistory (s : Settings) (given : Bytes) : Settings :=
  let path := Text.trim given
  if path.isEmpty then s else { s with history := path }

/-- The settings that count in the working directory. A manifest that cannot be used is logged. -/
def load {m : Type → Type} [Monad m] [Shell m] (level : LogLevel) : m Settings := do
  let plain := standard (← Shell.setting (utf8 "HOME"))
  let settings ← match ← Manifest.current with
    | .ok manifest => pure (plain.ofManifest manifest)
    | .error (.notFound _) => pure plain
    | .error problem => do
      forEach Shell.log (LogRecord.shown level [warning problem])
      pure plain
  return settings.withHistory (← Shell.setting (utf8 "LOX_HISTORY"))

end Settings

end Lox
