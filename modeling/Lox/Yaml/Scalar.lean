/-
Scalars as they are written.

A plain scalar is a row of words with gaps between them; a quoted one ends at its quote. A gap
within a line stands for itself. A gap that goes over a line end stands for a space, or for its
line ends after the first.
-/
import Lox.Yaml.Cursor

namespace Lox.Yaml

-- ==== Gaps

/-- What a gap between two words stands for. -/
def foldGap (gap : List Char) : List Char :=
  match (gap.filter isBreak).map breakText with
  | [] => gap
  | ['\n'] => [' ']
  | '\n' :: more => more
  | breaks => breaks

/-- Does a tab stand where indentation of at least `indent` is due? `column?` is the column on a
line after the first. -/
def tabIndents (indent : Int) : Option Nat → List Char → Bool
  | _, [] => false
  | column?, c :: rest =>
    if isBreak c then tabIndents indent (some 0) rest
    else match column? with
      | none => tabIndents indent none rest
      | some column =>
        (c = '\t' && (column : Int) < indent) || tabIndents indent (some (column + 1)) rest

-- ==== Plain scalars

/-- Does a word of a plain scalar end before this character? -/
def endsWord (inFlow : Bool) (c : Char) (rest : List Char) : Bool :=
  isGap c || (c = ':' && gapFollows rest) ||
    (inFlow && (c = ',' || c = '?' || c = '[' || c = ']' || c = '\x7b' || c = '\x7d'))

/-- The word at the front of a text. -/
def word (inFlow : Bool) : List Char → List Char
  | [] => []
  | c :: rest => if endsWord inFlow c rest then [] else c :: word inFlow rest

/-- What was read of a plain scalar. -/
structure Plain where
  text : List Char
  /-- The place after it and the gap that follows it. -/
  cursor : Cursor
  /-- Did that gap go over a line end? -/
  endsLine : Bool

/-- Read on in a plain scalar: `before` was read, and `gap` follows it. `indent` is the least column
of its later lines. -/
def readPlainFrom (inFlow : Bool) (indent : Int) :
    Nat → List Char → List Char → Cursor → Option Plain
  | 0, _, _, _ => none
  | fuel + 1, before, gap, c =>
    let stop : Plain := ⟨before, c, gap.any isBreak⟩
    if c.atDocumentMark || c.rest.head? = some '#' then some stop
    else
      let w := word inFlow c.rest
      if w.isEmpty then some stop
      else
        let text := before ++ foldGap gap ++ w
        let c := c.skip w.length
        let gap := c.run isGap
        let after := c.skipWhile isGap
        if gap.isEmpty then some ⟨text, c, false⟩
        else if tabIndents indent none gap then none
        else if !inFlow && (after.column : Int) < indent then some ⟨text, after, gap.any isBreak⟩
        else readPlainFrom inFlow indent fuel text gap after

/-- Read a plain scalar. -/
def readPlain (inFlow : Bool) (indent : Int) (c : Cursor) : Option Plain :=
  readPlainFrom inFlow indent (c.rest.length + 1) [] [] c

-- ==== Quoted scalars

/-- The character that an escape of one letter stands for. -/
def escape? : Char → Option Char
  | '0' => some '\x00'
  | 'a' => some '\x07'
  | 'b' => some '\x08'
  | 't' => some '\t'
  | '\t' => some '\t'
  | 'n' => some '\n'
  | 'v' => some '\x0b'
  | 'f' => some '\x0c'
  | 'r' => some '\r'
  | 'e' => some '\x1b'
  | ' ' => some ' '
  | '"' => some '"'
  | '\'' => some '\''
  | '\\' => some '\\'
  | 'N' => some '\u0085'
  | '_' => some '\u00a0'
  | 'L' => some '\u2028'
  | 'P' => some '\u2029'
  | _ => none

/-- How many hexadecimal digits follow an escape letter. -/
def escapeDigits? : Char → Option Nat
  | 'x' => some 2
  | 'u' => some 4
  | 'U' => some 8
  | _ => none

/-- The value of a hexadecimal digit. -/
def hexValue? (c : Char) : Option Nat :=
  if '0' ≤ c && c ≤ '9' then some (c.toNat - 48)
  else if 'a' ≤ c && c ≤ 'f' then some (c.toNat - 87)
  else if 'A' ≤ c && c ≤ 'F' then some (c.toNat - 55)
  else none

/-- The number that so many hexadecimal digits at the front of a text denote. -/
def hexNumber? : Nat → Nat → List Char → Option Nat
  | 0, value, _ => some value
  | _ + 1, _, [] => none
  | n + 1, value, c :: rest =>
    match hexValue? c with
    | some digit => hexNumber? n (16 * value + digit) rest
    | none => none

/-- The character with this number. -/
def charOf? (n : Nat) : Option Char :=
  if (0xD800 ≤ n && n ≤ 0xDFFF) || 0x10FFFF < n then none else some (Char.ofNat n)

/-- The escape after a backslash: the character it stands for, and how many characters it has. -/
def readEscape? : List Char → Option (Char × Nat)
  | [] => none
  | c :: rest =>
    match escape? c, escapeDigits? c with
    | some ch, _ => some (ch, 1)
    | none, some digits =>
      match hexNumber? digits 0 rest with
      | some n => (charOf? n).map fun ch => (ch, digits + 1)
      | none => none
    | none, none => none

/-- Read on in a quoted scalar. What was read is in reverse. -/
def readQuotedFrom (quote : Char) : Nat → List Char → Cursor → Option (List Char × Cursor)
  | 0, _, _ => none
  | fuel + 1, before, c =>
    if c.atDocumentMark then none
    else match c.rest with
      | [] => none
      | ch :: rest =>
        if isGap ch then
          readQuotedFrom quote fuel ((foldGap (c.run isGap)).reverse ++ before) (c.skipWhile isGap)
        else if ch = quote then
          if quote = '\'' && rest.head? = some '\'' then
            readQuotedFrom quote fuel ('\'' :: before) (c.skip 2)
          else some (before.reverse, c.next)
        else if ch = '\\' && quote = '"' then
          if rest.head?.any isBreak then
            let c := c.skip 2
            let breaks := ((c.run isGap).filter isBreak).map breakText
            readQuotedFrom quote fuel (breaks.reverse ++ before) (c.skipWhile isGap)
          else match readEscape? rest with
            | some (value, length) =>
              readQuotedFrom quote fuel (value :: before) (c.skip (length + 1))
            | none => none
        else readQuotedFrom quote fuel (ch :: before) c.next

/-- Read a quoted scalar, from its first quote on. -/
def readQuoted (quote : Char) (c : Cursor) : Option (List Char × Cursor) :=
  readQuotedFrom quote (c.rest.length + 1) [] c.next

end Lox.Yaml
