/-
The program: commands carried out on the files, the variables and the terminal of the user.
-/
import Lox.Command.Run
import Lox.Number.Duration
import Std.Time.DateTime.Timestamp

namespace Lox

/-- Actions of the program, with the time when it was last asked for. -/
abbrev Terminal := ReaderT (IO.Ref Nat) IO

namespace Terminal

/-- A path as the files of the user take it; a text that is no path names nothing. -/
def pathOf (path : Bytes) : String := (Utf8.toString? path).getD ""

/-- Why a path cannot name a file of the user. -/
def refusal? (path : Bytes) : Option FileCause :=
  match FileCause.ofPath? path with
  | some cause => some cause
  | none => if (pathOf path).isEmpty then some .missing else none

/-- Bytes as streams and files take them. -/
def pack (text : Bytes) : ByteArray := ⟨text.toArray⟩

/-- The cause of an error, where `wrongType` is what a path of the wrong kind means. -/
def causeOf (wrongType : FileCause) : IO.Error → FileCause
  | .noFileOrDirectory _ _ _ => .missing
  | .noSuchThing _ _ _ => .missing
  | .inappropriateType _ _ _ => wrongType
  | .invalidArgument _ _ _ => .tooLong
  | e => .other (utf8 (toString e))

/-- Do something that may fail. -/
def attempt {α : Type} (action : IO α) : IO (Except IO.Error α) := do
  try return .ok (← action)
  catch e => return .error e

/-- What a path names. -/
def statusOf (path : Bytes) : IO (Except FileCause FileKind) := do
  if let some cause := refusal? path then return .error cause
  let here ← IO.currentDir
  match ← attempt ((here / pathOf path).metadata) with
  | .error e => return .error (causeOf .notDirectory e)
  | .ok data => return .ok (match data.type with
    | .dir => .directory
    | _ => .file)

/-- The names in a directory. -/
def entriesOf (path : Bytes) : IO (Except FileCause (List Bytes)) := do
  if let some cause := refusal? path then return .error cause
  let here ← IO.currentDir
  match ← attempt ((here / pathOf path).readDir) with
  | .error e => return .error (causeOf .notDirectory e)
  | .ok entries => return .ok (entries.toList.map fun e => utf8 e.fileName)

/-- The contents of a file. -/
def contentsOf (path : Bytes) : IO (Except FileFault Bytes) := do
  if let some cause := refusal? path then return .error ⟨.opening, path, cause⟩
  match ← attempt (IO.FS.Handle.mk (pathOf path) .read) with
  | .error e => return .error ⟨.opening, path, causeOf .notDirectory e⟩
  | .ok handle =>
    match ← statusOf path with
    | .ok .directory => return .error ⟨.reading, path, .isDirectory⟩
    | _ =>
      match ← attempt handle.readBinToEnd with
      | .error e => return .error ⟨.reading, path, causeOf .isDirectory e⟩
      | .ok data => return .ok data.data.toList

/-- Print to a stream at once. -/
def send (stream : IO.FS.Stream) (text : Bytes) : IO Unit := do
  stream.write (pack text)
  stream.flush

/-- Print to a stream at once. If that fails, nothing is known to be written. -/
def offer (stream : IO.FS.Stream) (text : Bytes) : IO (Option Refusal) := do
  match ← attempt (send stream text) with
  | .ok _ => return none
  | .error e => return some ⟨0, utf8 (toString e)⟩

/-- The time since this was last asked for. -/
def lapse (last : IO.Ref Nat) : IO Bytes := do
  let now ← IO.monoNanosNow
  let before ← last.swap now
  return Duration.text (now - before)

/-- The time since the beginning of the year 1970, in seconds. -/
def secondsNow : IO Float := do
  let now ← Std.Time.Timestamp.now
  return now.toNanosecondsSinceUnixEpoch.val.toNat.toUInt64.toFloat / 1000000000.0

instance : Shell Terminal where
  directory := return utf8 (← IO.currentDir).toString
  setting name := return utf8 ((← IO.getEnv (pathOf name)).getD "")
  status path := statusOf path
  entries path := entriesOf path
  read path := contentsOf path
  write path contents := do
    if (refusal? path).isNone then
      discard (attempt (IO.FS.writeBinFile (pathOf path) (pack contents)))
  put text := do offer (← IO.getStdout) text
  complain text := do send (← IO.getStderr) text
  log record := do send (← IO.getStderr) record.line
  elapsed := do lapse (← read)
  seconds := secondsNow

/-- More steps than any run takes. -/
def fuel : Nat := Nat.pow 10 18

/-- Read on in a line of input; there is none at the end of the input. -/
partial def readLine (input : IO.FS.Stream) (o : OpenLine) : IO (Answer × OpenLine) := do
  match (← input.read 1).data.toList with
  | [] =>
    match o.finish with
    | some piece => return (.line piece.text, {})
    | none => return (.ended, {})
  | b :: _ =>
    match o.take b with
    | (o, some piece) => return (.line piece.text, o)
    | (o, none) => readLine input o

/-- Go on with the talk at the prompt. The prompt is shown only to a user at a terminal. -/
partial def talkOn (level : LogLevel) (r : Repl) (o : OpenLine) : Terminal Unit := do
  let input ← IO.getStdin
  if r.promptFits && (← input.isTty) then Shell.print r.prompt
  let (answer, o) ← readLine input o
  match ← r.feed fuel level answer with
  | none => return
  | some r => talkOn level r o

/-- The talk at the prompt. -/
def talk (level : LogLevel) : Terminal Unit := do
  talkOn level (← Repl.start level) {}

end Terminal

end Lox

/-- Run the program. -/
def main (arguments : List String) : IO UInt32 := do
  let last ← IO.mkRef (← IO.monoNanosNow)
  let code ← (Lox.Command.execute Lox.Terminal.fuel Lox.Terminal.talk
    (arguments.map Lox.utf8)).run last
  return UInt32.ofNat code.code
