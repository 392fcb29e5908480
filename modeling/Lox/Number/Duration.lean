/-
Lengths of time as texts.

A duration of less than a second is given in the largest unit that it fills, a longer one in hours,
minutes and seconds. Fractions have no zeros at their end.
-/
import Lox.Text.Bytes

namespace Lox.Duration

/-- The digits after the point of `n / 10 ^ places`, without zeros at the end. -/
def fraction (places n : Nat) : Bytes :=
  let digits := Bytes.ofNat (n % Nat.pow 10 places)
  let padded := List.replicate (places - digits.length) 48 ++ digits
  (padded.reverse.dropWhile (· = 48)).reverse

/-- The number `n / 10 ^ places`. -/
def scaled (places n : Nat) : Bytes :=
  let digits := fraction places n
  Bytes.ofNat (n / Nat.pow 10 places) ++ if digits.isEmpty then [] else utf8 "." ++ digits

/-- The text of a number of nanoseconds. -/
def text (n : Nat) : Bytes :=
  if n = 0 then utf8 "0s"
  else if n < Nat.pow 10 3 then Bytes.ofNat n ++ utf8 "ns"
  else if n < Nat.pow 10 6 then scaled 3 n ++ utf8 "µs"
  else if n < Nat.pow 10 9 then scaled 6 n ++ utf8 "ms"
  else
    let minute := 60 * Nat.pow 10 9
    let seconds := scaled 9 (n % minute) ++ utf8 "s"
    let minutes := n / minute
    if minutes = 0 then seconds
    else if minutes < 60 then Bytes.ofNat minutes ++ utf8 "m" ++ seconds
    else Bytes.ofNat (minutes / 60) ++ utf8 "h" ++ Bytes.ofNat (minutes % 60) ++ utf8 "m" ++ seconds

end Lox.Duration
