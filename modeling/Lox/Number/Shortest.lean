/-
The shortest decimal that reads back.

Every real number in a certain interval around a double is read as that double; the interval
reaches half way to each neighbour, and its ends belong to it exactly when the mantissa is
even. `shortest` looks for a decimal in that interval on ever finer grids of powers of ten. The
first grid that has a point in the interval gives the fewest digits; of two such points the
nearer one is taken, and of two equally near ones the even one.
-/
import Lox.Number.Binary

namespace Lox.Number

/-- The decimal `digits · 10 ^ exponent`. -/
structure Decimal where
  digits : Nat
  exponent : Int
deriving DecidableEq, Repr

/-- The interval of numbers that are read as one positive double: all three numbers are over the
common denominator `scale`, and `closed` says whether the ends belong to the interval. -/
structure Interval where
  low : Nat
  value : Nat
  high : Nat
  closed : Bool

namespace Interval

/-- The denominator that all intervals are written over. -/
def scale : Nat := Nat.pow 2 1076

/-- The interval of `mantissa · 2 ^ (shift - 1074)`. Below a power of two the doubles lie twice as
close, so there the lower half is half as wide. -/
def ofDouble (mantissa shift : Nat) : Interval where
  low := (4 * mantissa - if mantissa = Nat.pow 2 52 ∧ 0 < shift then 1 else 2) * Nat.pow 2 shift
  value := 4 * mantissa * Nat.pow 2 shift
  high := (4 * mantissa + 2) * Nat.pow 2 shift
  closed := mantissa % 2 = 0

/-- Does `num / den` lie in the interval? -/
def contains (i : Interval) (num den : Nat) : Bool :=
  let lowSide := i.low * den
  let here := num * scale
  let highSide := i.high * den
  if i.closed then lowSide ≤ here && here ≤ highSide
  else lowSide < here && here < highSide

/-- The points just below and just above the value on the grid of multiples of
`unitNum / unitDen`, of which the value is `whole` and a bit. The answer is the better of those in
the interval. -/
def pick (i : Interval) (unitNum unitDen : Nat) : Option Nat :=
  let num := i.value * unitDen
  let den := scale * unitNum
  let below := num / den
  let rest := num % den
  let belowFits := i.contains (below * unitNum) unitDen
  let aboveFits := i.contains ((below + 1) * unitNum) unitDen
  if belowFits && aboveFits then
    if 2 * rest < den then some below
    else if den < 2 * rest then some (below + 1)
    else some (below + below % 2)
  else if belowFits then some below
  else if aboveFits then some (below + 1)
  else none

/-- The point to take on the grid of multiples of `10 ^ exponent`, if there is one. -/
def onGrid (i : Interval) : Int → Option Nat
  | .ofNat k => i.pick (Nat.pow 10 k) 1
  | .negSucc k => i.pick 1 (Nat.pow 10 (k + 1))

/-- The value itself: a power of two below the point is a power of ten below it, times a power of
five. -/
def exact (i : Interval) : Decimal :=
  ⟨i.value * Nat.pow 5 1076, -1076⟩

/-- The best point of the first grid that has one, going from `exponent` downwards. -/
def search (i : Interval) : Nat → Int → Decimal
  | 0, _ => i.exact
  | steps + 1, exponent =>
    match i.onGrid exponent with
    | some digits => ⟨digits, exponent⟩
    | none => i.search steps (exponent - 1)

/-- An exponent with the value below ten to it, and not far below. -/
def ceiling (i : Interval) : Int :=
  if scale ≤ i.value then ((i.value / scale).log2 + 1) * 302 / 1000 + 1
  else -((scale.log2 - i.value.log2 - 1) * 3 / 10 : Nat)

/-- The shortest decimal in the interval. -/
def shortest (i : Interval) : Decimal :=
  i.search 60 i.ceiling

end Interval

/-- The shortest decimal that is read as `mantissa · 2 ^ (shift - 1074)`. -/
def shortest (mantissa shift : Nat) : Decimal :=
  if mantissa = 0 then ⟨0, 0⟩ else (Interval.ofDouble mantissa shift).shortest

end Lox.Number
