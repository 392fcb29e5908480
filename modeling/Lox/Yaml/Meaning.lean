/-
What scalars stand for.

A quoted scalar is a string. A plain one may look like something else: nothing, a truth value, an
integer, a float or a point in time.
-/
import Lox.Yaml.Node
import Lox.Yaml.Timestamp
import Lox.Number.Numeral

namespace Lox.Yaml

/-- A float: a number, an infinity, or not a number. -/
inductive FloatText where
  | number (d : Number.Numeral)
  | infinite (negative : Bool)
  | nan

/-- What a scalar stands for. -/
inductive Meaning where
  | nothing
  | truth
  | integer (n : Int)
  | float (f : FloatText)
  | time
  | string

namespace Meaning

/-- The tag of a scalar with this meaning. -/
def tag : Meaning → String
  | nothing => "!!null"
  | truth => "!!bool"
  | integer _ => "!!int"
  | float _ => "!!float"
  | time => "!!timestamp"
  | string => "!!str"

/-- Fixed texts and what they stand for. -/
def fixed : List (String × Meaning) :=
  [("", nothing), ("~", nothing), ("null", nothing), ("Null", nothing), ("NULL", nothing),
    ("true", truth), ("True", truth), ("TRUE", truth),
    ("false", truth), ("False", truth), ("FALSE", truth),
    (".nan", float .nan), (".NaN", float .nan), (".NAN", float .nan),
    (".inf", float (.infinite false)), (".Inf", float (.infinite false)),
    (".INF", float (.infinite false)), ("+.inf", float (.infinite false)),
    ("+.Inf", float (.infinite false)), ("+.INF", float (.infinite false)),
    ("-.inf", float (.infinite true)), ("-.Inf", float (.infinite true)),
    ("-.INF", float (.infinite true))]

/-- The integer that a text denotes: any of 64 bits, with its sign or without one. -/
def integer? (text : Bytes) : Option Int :=
  match Number.readInteger text with
  | .ok n => some n
  | .error _ =>
    match Number.readNatural text with
    | .ok n => some n
    | .error _ => none

/-- The integer that a text denotes whose sign is after the mark of its base, two or eight. -/
def lateSigned? : Bytes → Option Int
  | 48 :: 98 :: rest => (Number.readInBase 2 rest).toOption
  | 48 :: 111 :: rest => (Number.readInBase 8 rest).toOption
  | _ => none

/-- The float that a text denotes, unless it is too large. -/
def float? (text : Bytes) : Option FloatText :=
  match Number.Numeral.read? text with
  | some d => if d.overflows then none else some (.number d)
  | none => none

/-- Does each underscore stand between two digits? -/
def underscoresDivide : Bool → Bytes → Bool
  | _, [] => true
  | afterDigit, 95 :: rest =>
    afterDigit && rest.head?.any Bytes.isDigit && underscoresDivide false rest
  | _, b :: rest => underscoresDivide (Bytes.isDigit b) rest

/-- The meaning of a text that starts with a point. Underscores may only divide digits. -/
def ofFraction (text : Bytes) : Meaning :=
  if underscoresDivide false text then
    match float? (text.filter (· != 95)) with
    | some f => float f
    | none => string
  else string

/-- The meaning of a text that starts with a digit or a sign. Underscores count for nothing in a
number. -/
def ofNumeral (text : Bytes) : Meaning :=
  let plain := text.filter (· != 95)
  if isTimestamp text then time
  else match integer? plain, float? plain, lateSigned? plain with
    | some n, _, _ => integer n
    | none, some f, _ => float f
    | none, none, some n => integer n
    | none, none, none => string

/-- The meaning of a plain scalar. -/
def ofPlain (text : Bytes) : Meaning :=
  match fixed.find? fun (t, _) => utf8 t = text with
  | some (_, meaning) => meaning
  | none =>
    match text with
    | [] => nothing
    | b :: _ =>
      if b = 46 then ofFraction text
      else if Bytes.isDigit b || b = 43 || b = 45 then ofNumeral text
      else string

/-- The meaning of a scalar. -/
def ofScalar (text : Bytes) (quoted : Bool) : Meaning :=
  if quoted then string else ofPlain text

/-- The integer of 64 bits that a scalar with this meaning can be taken for. A float loses its
fraction; one below all integers becomes the least of them, as does the first one above them. -/
def toInteger? : Meaning → Option Int
  | integer n => if n < Int.pow 2 63 then some n else none
  | float (.number d) =>
    let n := d.truncated
    let bound := Int.pow 2 63
    if bound < n then none else if n < -bound || n = bound then some (-bound) else some n
  | float (.infinite true) => some (-Int.pow 2 63)
  | _ => none

end Meaning

end Lox.Yaml
