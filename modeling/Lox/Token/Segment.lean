/-
Cutting a script into segments.

Every script splits, from left to right and without gaps, into segments: lexemes, single blank
bytes, comments, unexpected characters, and at most one string that is still open at the end.
`Segment.front` finds the first segment of a text that is not empty, and each lexeme is as long as
its class allows. The tokens of a script and its scan errors are read off this list.

A segment is told by its first byte, and for some by the byte after it: an equals sign makes a
longer operator, and a second slash a comment. A point belongs to a number only if there are digits
on both sides of it. A string may go over several lines, and a comment ends before the line feed.
What starts no segment is one character of the text, of whatever length, or one byte if there is no
character.
-/
import Lox.Token.Basic
import Lox.Text.Utf8

namespace Lox

/-- A piece of a script. -/
inductive Segment where
  /-- A lexeme with the kind of its token. -/
  | lexeme (kind : Kind) (text : Bytes)
  /-- One space, tab, carriage return or line feed. -/
  | blank (b : UInt8)
  /-- From two slashes up to the end of the line. -/
  | comment (text : Bytes)
  /-- A character that starts no lexeme. -/
  | unexpected (text : Bytes)
  /-- From a quote to the end of the script. -/
  | openString (text : Bytes)
deriving DecidableEq

namespace Segment

/-- The bytes of the script that the segment covers. -/
def text : Segment → Bytes
  | lexeme _ text => text
  | blank b => [b]
  | comment text => text
  | unexpected text => text
  | openString text => text

/-- A digit run, and a point with a digit run if both follow. `digits` is the text from the first
digit on. -/
def numberText (digits : Bytes) : Bytes :=
  let whole := digits.takeWhile Bytes.isDigit
  match digits.dropWhile Bytes.isDigit with
  | 46 :: d :: rest =>
    if Bytes.isDigit d then whole ++ 46 :: (d :: rest).takeWhile Bytes.isDigit else whole
  | _ => whole

/-- The segment that a quote starts: up to the next quote, or to the end if there is none. -/
def stringFrom (rest : Bytes) : Segment :=
  let inside := rest.takeWhile (· != 34)
  if inside.length < rest.length then lexeme .string (34 :: inside ++ [34])
  else openString (34 :: rest)

/-- An operator of two bytes if an equals sign follows, else of one. -/
def operator (b : UInt8) (rest : Bytes) (single double : Kind) : Segment :=
  match rest with
  | 61 :: _ => lexeme double [b, 61]
  | _ => lexeme single [b]

/-- The segment that a slash starts. -/
def slashFrom (rest : Bytes) : Segment :=
  match rest with
  | 47 :: more => comment (47 :: 47 :: more.takeWhile (· != Bytes.lineFeed))
  | _ => lexeme .slash [47]

/-- The segment at the front of the text `b :: rest`. -/
def front (b : UInt8) (rest : Bytes) : Segment :=
  match Char.ofUInt8 b with
  | '(' => lexeme .leftParen [b]
  | ')' => lexeme .rightParen [b]
  | '{' => lexeme .leftBrace [b]
  | '}' => lexeme .rightBrace [b]
  | ',' => lexeme .comma [b]
  | '.' => lexeme .dot [b]
  | '-' => lexeme .minus [b]
  | '+' => lexeme .plus [b]
  | ';' => lexeme .semicolon [b]
  | '*' => lexeme .star [b]
  | '!' => operator b rest .bang .bangEqual
  | '=' => operator b rest .equal .equalEqual
  | '<' => operator b rest .less .lessEqual
  | '>' => operator b rest .greater .greaterEqual
  | '/' => slashFrom rest
  | ' ' => blank b
  | '\r' => blank b
  | '\t' => blank b
  | '\n' => blank b
  | '"' => stringFrom rest
  | _ =>
    if Bytes.isDigit b then lexeme .number (numberText (b :: rest))
    else if Bytes.isAlpha b then
      let word := b :: rest.takeWhile Bytes.isWordByte
      lexeme (.ofWord word) word
    else unexpected ((b :: rest).take (Utf8.front b rest).width)

/-- The segments of a text after its first `skip` bytes. -/
def splitFrom : Nat → Bytes → List Segment
  | _, [] => []
  | skip + 1, _ :: rest => splitFrom skip rest
  | 0, b :: rest =>
    let segment := front b rest
    segment :: splitFrom (segment.text.length - 1) rest

/-- The segments of a script, in order. -/
def split (source : Bytes) : List Segment :=
  splitFrom 0 source

/-- The number that a number lexeme denotes. -/
def numberValue (text : Bytes) : Float :=
  let whole := text.takeWhile Bytes.isDigit
  let fraction := (text.dropWhile Bytes.isDigit).drop 1
  Number.ofDecimal (Bytes.digitsToNat (whole ++ fraction)) fraction.length

/-- The constant that a lexeme carries: the number it denotes, or the bytes between its quotes. -/
def literalOf (kind : Kind) (text : Bytes) : Literal :=
  match kind with
  | .number => .number (numberValue text)
  | .string => .string ((text.drop 1).dropLast)
  | _ => .nil

end Segment

end Lox
