/-
The prompt at work.

The loop takes one answer at a time. A complete chunk is put into the history and run in the one
session of the loop. At the end the history is written.
-/
import Lox.Repl.History
import Lox.Repl.Settings
import Lox.Shell.Live
import Lox.Text.Control

namespace Lox

/-- The state of the prompt. -/
structure Repl where
  settings : Settings
  history : History
  session : Session
  pending : OpenChunk := {}

namespace Repl

variable {m : Type → Type} [Monad m] [Shell m]

/-- Start the prompt: load the settings and the history. -/
def start (level : LogLevel) : m Repl := do
  let settings ← Settings.load level
  let history ← if settings.history.isEmpty then pure [] else do
    match ← Shell.read settings.history with
    | .ok text => pure (History.ofText text)
    | .error _ => pure []
  return ⟨settings, history, .live, {}⟩

/-- The prompt to show next. -/
def prompt (r : Repl) : Bytes := r.pending.prompt r.settings.prompts

/-- Can the prompt be shown? It may not hold a control character. -/
def promptFits (r : Repl) : Bool := (Utf8.decode r.prompt).all fun g => !Text.isControl g.shown

/-- Leave the prompt: write the history. -/
def finish (r : Repl) : m Unit := do
  Shell.print [Bytes.lineFeed]
  unless r.settings.history.isEmpty do
    Shell.write r.settings.history r.history.toText

/-- Run a chunk, unless it is blank. -/
def runChunk (fuel : Nat) (level : LogLevel) (r : Repl) (source : Bytes) : m Repl := do
  let r := { r with pending := {} }
  if Text.isAllBlank source then return r
  let (_, session) ← r.session.runLive (.shown level) fuel source
  return { r with history := r.history.add source, session := session }

/-- Show the prompt and take the answer. There is no next state if that ended the loop. -/
def feed (fuel : Nat) (level : LogLevel) (r : Repl) (answer : Answer) : m (Option Repl) := do
  let answer := if r.promptFits then answer else .failure
  match r.pending.step r.settings.prompts answer with
  | .inl pending => return some { r with pending := pending }
  | .inr chunk =>
    if chunk.ok then return some (← r.runChunk fuel level chunk.source)
    else
      r.finish
      return none

/-- Take the answers in order. After the last the input has ended, which first completes what is
pending. -/
def feedAll (fuel : Nat) (level : LogLevel) (r : Repl) : List Answer → m Unit
  | [] => do
    match ← r.feed fuel level .ended with
    | none => return
    | some r => discard (r.feed fuel level .ended)
  | answer :: rest => do
    match ← r.feed fuel level answer with
    | none => return
    | some r => r.feedAll fuel level rest

end Repl

end Lox
