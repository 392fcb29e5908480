/-
The tokens of a script and the faults found on the way.

Both are read off the segments of the script. A token and a fault have the line on which their
segment ends, and one end-of-file token closes the list. Scanning never stops at a fault.
-/
import Lox.Token.Segment
import Lox.Diagnostic

namespace Lox

/-- What can be wrong with the bytes of a script. -/
inductive ScanFault where
  | unexpectedCharacter
  | unterminatedString
deriving DecidableEq, Repr

namespace ScanFault

/-- The wording of a scan fault. -/
def message : ScanFault → Bytes
  | unexpectedCharacter => utf8 "Unexpected character."
  | unterminatedString => utf8 "Unterminated string."

end ScanFault

namespace Segment

/-- The line on which a segment ends, when it starts on `line`. -/
def endLine (line : Int) (s : Segment) : Int :=
  line + Bytes.lineFeeds s.text

/-- The token of a segment that ends on `line`. -/
def token? (line : Int) : Segment → Option Token
  | lexeme kind text => some ⟨kind, text, literalOf kind text, line⟩
  | _ => none

/-- The fault of a segment. -/
def fault? : Segment → Option ScanFault
  | unexpected _ => some .unexpectedCharacter
  | openString _ => some .unterminatedString
  | _ => none

/-- The tokens of segments that start on `line`, and the end of the script after them. -/
def tokens (line : Int) : List Segment → List Token
  | [] => [⟨.eof, [], .nil, line⟩]
  | s :: rest =>
    match s.token? (s.endLine line) with
    | some t => t :: tokens (s.endLine line) rest
    | none => tokens (s.endLine line) rest

/-- The diagnostics of segments that start on `line`. -/
def diagnostics (line : Int) : List Segment → List Diagnostic
  | [] => []
  | s :: rest =>
    match s.fault? with
    | some fault =>
      ⟨.scan, s.endLine line, [], fault.message⟩ :: diagnostics (s.endLine line) rest
    | none => diagnostics (s.endLine line) rest

end Segment

/-- The result of scanning a script. -/
structure Scan where
  tokens : List Token
  diagnostics : List Diagnostic

/-- Scan a script: its tokens, closed by an end-of-file token, and its diagnostics. -/
def scan (source : Bytes) : Scan where
  tokens := Segment.tokens 1 (Segment.split source)
  diagnostics := Segment.diagnostics 1 (Segment.split source)

end Lox
