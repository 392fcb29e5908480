/-
Log records.

A record has a level, some fields and a message. Which records are shown depends on the level that
the user asked for.
-/
import Lox.Text.Blank
import Lox.Text.Fold
import Lox.Text.Quoted

namespace Lox

/-- How much is to be logged; each level takes in those after it. -/
inductive LogLevel where
  | trace | debug | info | warn | error
deriving DecidableEq, Repr

namespace LogLevel

/-- The name of a level. -/
def name : LogLevel → String
  | trace => "trace"
  | debug => "debug"
  | info => "info"
  | warn => "warn"
  | error => "error"

/-- How severe a level is. -/
def rank : LogLevel → Nat
  | trace => 0
  | debug => 1
  | info => 2
  | warn => 3
  | error => 4

/-- The level a user asks for by name, in any case and with blanks around it; any other text asks
for warnings. -/
def ofText (text : Bytes) : LogLevel :=
  let word := (Utf8.decode (Text.trim text)).map fun g => Text.asciiLower g.shown
  ([trace, debug, info, warn, error].find? fun l => l.name.toList == word).getD warn

/-- Is a record of level `l` shown when `asked` was asked for? -/
def shows (asked l : LogLevel) : Bool := asked.rank ≤ l.rank

end LogLevel

/-- The value of a field. -/
inductive LogValue where
  | text (t : Bytes)
  | number (n : Int)
  | flag (b : Bool)
deriving DecidableEq

/-- A log record. -/
structure LogRecord where
  level : LogLevel
  fields : List (String × LogValue)
  message : String
deriving DecidableEq

namespace LogRecord

/-- A record for those who look for the cause of something. -/
def debug (message : String) (fields : List (String × LogValue)) : LogRecord :=
  ⟨.debug, fields, message⟩

/-- The records that are shown when `asked` was asked for. -/
def shown (asked : LogLevel) (records : List LogRecord) : List LogRecord :=
  records.filter fun r => asked.shows r.level

/-- The text of a field's value. -/
def valueText : LogValue → Bytes
  | .text t => Text.quote t
  | .number n => Bytes.ofInt n
  | .flag b => utf8 (if b then "true" else "false")

/-- A record as a line of text. -/
def line (r : LogRecord) : Bytes :=
  let fields := (("level", .text (utf8 r.level.name)) :: r.fields) ++
    [("message", .text (utf8 r.message))]
  let texts := fields.map fun (name, value) => Text.quote (utf8 name) ++ utf8 ":" ++ valueText value
  utf8 "\x7b" ++ Bytes.join (utf8 ",") texts ++ utf8 "\x7d\n"

end LogRecord

end Lox
