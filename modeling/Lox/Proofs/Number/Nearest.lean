/-
The decimal that a double is written as is read as that double.

A double is printed as the shortest decimal that lies in its interval, the numbers that are nearer
to it than to any other double, and a decimal is read as the double nearest to it. Both are computed
exactly, in whole numbers over a common denominator. This module shows that the one undoes the
other.

# Rounding

A quotient is rounded to the nearest whole number, and to the even one of two that are as near. In
other words, it is rounded to `q` if it lies half a unit or less from `q`, and less than that if `q`
is odd (`roundDiv_eq`). The unit of the last place depends on the size of the number (`shift_eq`),
so rounding a number to a double is rounding it on the grid of its size (`nearest_eq`).

# The interval of a double

A double `m * 2 ^ s` has an interval that reaches half a unit of its last place up and half a unit
down, where the ends belong to it if `m` is even. Only at a power of two do the doubles below lie
twice as close, and there it reaches down by a quarter (`lowerGap`, `Within`).

A number in the interval is of the size of the double, and then it is rounded on the double's grid,
to `m` (`nearest_on_grid`). Or it is just below a power of two, and then it is rounded on the grid
below, where it goes up to the first double of the grid above (`nearest_below_grid`). Either way it
is read as the double (`nearest_of_within`).

# The search

The search for a short decimal takes points of the interval only, from one grid of powers of ten to
the next finer one (`contains_of_pick`, `contains_of_onGrid`). If it finds none it takes the double
itself, which is a decimal too and lies between the ends (`contains_exact`). So what it gives lies
in the interval (`contains_search`), and is read back (`nearest_shortest`). That it is the shortest
such decimal is not needed here.
-/
import Mathlib.Tactic.Ring
import Lox.Number.Shortest

namespace Lox.Number

variable {num den q m s scaled unit : Nat}

-- ==== Rounding

/-- A quotient rounds to a natural number that is half a unit or less away, if an odd one less. So
the result is known by where the quotient lies, without its remainder. -/
theorem roundDiv_eq (hden : 0 < den) (hlow : 2 * (q * den) ≤ 2 * num + den)
    (hhigh : 2 * num ≤ 2 * (q * den) + den)
    (hodd : q % 2 = 1 → 2 * (q * den) < 2 * num + den ∧ 2 * num < 2 * (q * den) + den) :
    roundDiv num den = q := by
  have hcut : den * (num / den) + num % den = num := Nat.div_add_mod num den
  have hrest : num % den < den := Nat.mod_lt _ hden
  unfold roundDiv
  dsimp only
  generalize num / den = k at hcut ⊢
  generalize num % den = r at hcut hrest ⊢
  rw [Nat.mul_comm] at hcut
  have hle : k ≤ q := by
    by_contra hlt
    have hmul : (q + 1) * den ≤ k * den := Nat.mul_le_mul_right _ (by omega)
    rw [Nat.succ_mul] at hmul
    omega
  have hge : q ≤ k + 1 := by
    by_contra hlt
    have hmul : (k + 2) * den ≤ q * den := Nat.mul_le_mul_right _ (by omega)
    rw [Nat.add_mul] at hmul
    omega
  -- the quotient lies between `k` and `k + 1`, so these are all there are to choose from
  obtain rfl | rfl : q = k ∨ q = k + 1 := by omega
  · split
    · rfl
    · split <;> omega
  · have hnext : (k + 1) * den = k * den + den := Nat.succ_mul k den
    rw [hnext] at hlow hhigh hodd
    split
    · omega
    · split <;> omega

/-- The shift that a number is rounded with, told by its size. -/
theorem shift_eq {whole shift : Nat} (hlow : shift ≠ 0 → 2 ^ (52 + shift) ≤ whole)
    (hhigh : whole < 2 ^ (53 + shift)) :
    (if whole < Nat.pow 2 53 then 0 else whole.log2 - 52) = shift := by
  by_cases hshift : shift = 0
  · subst hshift
    exact if_pos hhigh
  · have hwhole := hlow hshift
    have hleast : Nat.pow 2 53 ≤ whole :=
      (Nat.pow_le_pow_right Nat.two_pos (show 53 ≤ 52 + shift by omega)).trans hwhole
    have hlog : whole.log2 = 52 + shift := by
      refine (Nat.log2_eq_iff (Nat.ne_of_gt (Nat.lt_of_lt_of_le (by decide) hleast))).mpr ⟨hwhole, ?_⟩
      rwa [show 52 + shift + 1 = 53 + shift by omega]
    rw [if_neg (Nat.not_lt.mpr hleast), hlog, Nat.add_sub_cancel_left]

/-- Rounding on the grid of the size of the number. The number is less than `2 ^ 53` units and,
unless the grid is the finest one, at least `2 ^ 52`, which fixes the grid; what is left is to round
on it. -/
theorem nearest_eq {shift : Nat} (hden : 0 < den) (hscaled : num * Nat.pow 2 1074 = scaled)
    (hunit : den * 2 ^ shift = unit) (hleast : shift ≠ 0 → 2 ^ 52 * unit ≤ scaled)
    (hmost : scaled < 2 ^ 53 * unit) (hlow : 2 * (q * unit) ≤ 2 * scaled + unit)
    (hhigh : 2 * scaled ≤ 2 * (q * unit) + unit)
    (hodd : q % 2 = 1 → 2 * (q * unit) < 2 * scaled + unit ∧ 2 * scaled < 2 * (q * unit) + unit) :
    nearest num den = min (shift * 2 ^ 52 + q) infinityBits := by
  have hpos : 0 < unit := hunit ▸ Nat.mul_pos hden (Nat.pow_pos Nat.two_pos)
  have hsize : ∀ k, 2 ^ (k + shift) * den = 2 ^ k * unit := by
    intro k
    rw [← hunit]
    ring
  have hshift : (if scaled / den < Nat.pow 2 53 then 0 else (scaled / den).log2 - 52) = shift := by
    refine shift_eq (fun h => ?_) ?_
    · rw [Nat.le_div_iff_mul_le hden, hsize]
      exact hleast h
    · rw [Nat.div_lt_iff_lt_mul hden, hsize]
      exact hmost
  have hround : roundDiv scaled (den * Nat.pow 2 shift) = q := by
    rw [show den * Nat.pow 2 shift = unit from hunit]
    exact roundDiv_eq hpos hlow hhigh hodd
  unfold nearest
  dsimp only
  rw [hscaled, hshift, hround]
  rfl

-- ==== The interval of a double

/-- A mantissa and a shift that are those of a double. -/
structure Normal (m s : Nat) : Prop where
  small : m < 2 ^ 53
  leading : s = 0 ∨ 2 ^ 52 ≤ m
  finite : s * 2 ^ 52 + m < infinityBits

/-- How far the interval of a double reaches below it, in quarters of the last place. -/
def lowerGap (m s : Nat) : Nat := if m = Nat.pow 2 52 ∧ 0 < s then 1 else 2

/-- The number lies from `gap` quarters of a unit below `m` units to two quarters above, and if `m` is
odd, not at the ends. -/
structure Within (gap m unit scaled : Nat) : Prop where
  low : 4 * (m * unit) ≤ 4 * scaled + gap * unit
  high : 4 * scaled ≤ 4 * (m * unit) + 2 * unit
  strict : m % 2 = 1 → 4 * (m * unit) < 4 * scaled + gap * unit ∧
    4 * scaled < 4 * (m * unit) + 2 * unit

/-- The interval reaches down by half a unit at most. -/
theorem lowerGap_le (m s : Nat) : lowerGap m s ≤ 2 := by
  unfold lowerGap
  split <;> omega

/-- A number of the size of the double is rounded on the grid of the double. -/
theorem nearest_on_grid (hden : 0 < den) (hnormal : Normal m s)
    (hscaled : num * Nat.pow 2 1074 = scaled) (hunit : den * 2 ^ s = unit)
    (h : Within (lowerGap m s) m unit scaled) (hsize : s ≠ 0 → 2 ^ 52 * unit ≤ scaled) :
    nearest num den = s * 2 ^ 52 + m := by
  obtain ⟨hlow, hhigh, hstrict⟩ := h
  have hgap := Nat.mul_le_mul_right unit (lowerGap_le m s)
  have hpos : 0 < unit := hunit ▸ Nat.mul_pos hden (Nat.pow_pos Nat.two_pos)
  have hmost : (m + 1) * unit ≤ 2 ^ 53 * unit := Nat.mul_le_mul_right _ hnormal.small
  rw [Nat.succ_mul] at hmost
  have hnearest : nearest num den = min (s * 2 ^ 52 + m) infinityBits := by
    refine nearest_eq hden hscaled hunit hsize ?_ ?_ ?_ fun hodd => ?_
    · omega
    · omega
    · omega
    · have hinside := hstrict hodd
      omega
  rw [hnearest]
  exact Nat.min_eq_left (Nat.le_of_lt hnormal.finite)

/-- A smaller number in the interval is rounded on the grid below, up to the first double of the grid
above. -/
theorem nearest_below_grid (hden : 0 < den) (hnormal : Normal m (s + 1))
    (hscaled : num * Nat.pow 2 1074 = scaled) (hunit : den * 2 ^ s = unit)
    (h : Within (lowerGap m (s + 1)) m (2 * unit) scaled) (hsize : scaled < 2 ^ 52 * (2 * unit)) :
    nearest num den = (s + 1) * 2 ^ 52 + m := by
  obtain ⟨hlow, -, -⟩ := h
  have hleast : 2 ^ 52 ≤ m := hnormal.leading.resolve_left (Nat.succ_ne_zero s)
  have hpos : 0 < unit := hunit ▸ Nat.mul_pos hden (Nat.pow_pos Nat.two_pos)
  have hfirst : m = 2 ^ 52 := by
    by_contra hne
    have hmore : (2 ^ 52 + 1) * (2 * unit) ≤ m * (2 * unit) := Nat.mul_le_mul_right _ (by omega)
    have hgap := Nat.mul_le_mul_right (2 * unit) (lowerGap_le m (s + 1))
    omega
  subst hfirst
  have hgap : lowerGap (2 ^ 52) (s + 1) = 1 := if_pos ⟨rfl, Nat.succ_pos s⟩
  rw [hgap] at hlow
  have hnearest : nearest num den = min (s * 2 ^ 52 + 2 ^ 53) infinityBits := by
    refine nearest_eq hden hscaled hunit (fun _ => ?_) ?_ ?_ ?_ fun hodd => absurd hodd (by decide)
    · omega
    · omega
    · omega
    · omega
  have hsum : s * 2 ^ 52 + 2 ^ 53 = (s + 1) * 2 ^ 52 + 2 ^ 52 := by ring
  rw [hnearest, hsum]
  exact Nat.min_eq_left (Nat.le_of_lt hnormal.finite)

/-- What lies in the interval of a double is read as that double. -/
theorem nearest_of_within (hden : 0 < den) (hnormal : Normal m s)
    (h : Within (lowerGap m s) m (den * 2 ^ s) (num * Nat.pow 2 1074)) :
    nearest num den = s * 2 ^ 52 + m := by
  cases s with
  | zero => exact nearest_on_grid hden hnormal rfl rfl h fun hs => absurd rfl hs
  | succ s =>
      have hunit : den * 2 ^ (s + 1) = 2 * (den * 2 ^ s) := by ring
      by_cases hsize : 2 ^ 52 * (den * 2 ^ (s + 1)) ≤ num * Nat.pow 2 1074
      · exact nearest_on_grid hden hnormal rfl rfl h fun _ => hsize
      · rw [hunit] at h hsize
        exact nearest_below_grid hden hnormal rfl rfl h (Nat.lt_of_not_le hsize)

-- ==== Points of the interval

namespace Decimal

/-- The numerator of the fraction that a decimal is. -/
def numerator (d : Decimal) : Nat :=
  match d.exponent with
  | .ofNat k => d.digits * Nat.pow 10 k
  | .negSucc _ => d.digits

/-- The denominator of the fraction that a decimal is. -/
def denominator (d : Decimal) : Nat :=
  match d.exponent with
  | .ofNat _ => 1
  | .negSucc k => Nat.pow 10 (k + 1)

/-- The denominator of a decimal is a power of ten, and so not nought. -/
theorem denominator_pos (d : Decimal) : 0 < d.denominator := by
  unfold denominator
  split
  · exact Nat.one_pos
  · exact Nat.pow_pos (by decide)

end Decimal

namespace Interval

variable {i : Interval} {unitNum unitDen n : Nat}

/-- What is strictly between the ends lies in the interval. -/
theorem contains_of_lt (hlow : i.low * den < num * scale) (hhigh : num * scale < i.high * den) :
    i.contains num den = true := by
  unfold contains
  dsimp only
  split
  · exact Bool.and_eq_true_iff.mpr
      ⟨decide_eq_true (Nat.le_of_lt hlow), decide_eq_true (Nat.le_of_lt hhigh)⟩
  · exact Bool.and_eq_true_iff.mpr ⟨decide_eq_true hlow, decide_eq_true hhigh⟩

/-- A point that is taken on a grid lies in the interval: it is the last one before the number or
the first one after it, and was found to be in the interval before it was taken. -/
theorem contains_of_pick (h : i.pick unitNum unitDen = some n) :
    i.contains (n * unitNum) unitDen = true := by
  unfold pick at h
  dsimp only at h
  generalize i.value * unitDen / (scale * unitNum) = below at h
  generalize i.value * unitDen % (scale * unitNum) = rest at h
  split at h
  next hboth =>
    obtain ⟨hbelow, habove⟩ := Bool.and_eq_true_iff.mp hboth
    obtain rfl | rfl : n = below ∨ n = below + 1 := by
      split at h
      · exact .inl (Option.some.inj h).symm
      · split at h
        · exact .inr (Option.some.inj h).symm
        · have hn := Option.some.inj h
          omega
    · exact hbelow
    · exact habove
  next =>
    split at h
    next hbelow => exact Option.some.inj h ▸ hbelow
    next =>
      split at h
      next habove => exact Option.some.inj h ▸ habove
      next => cases h

/-- A decimal that is found on the grid of a power of ten lies in the interval. -/
theorem contains_of_onGrid {exponent : Int} (h : i.onGrid exponent = some n) :
    i.contains (Decimal.numerator ⟨n, exponent⟩) (Decimal.denominator ⟨n, exponent⟩) = true := by
  cases exponent with
  | ofNat k => exact contains_of_pick h
  | negSucc k =>
      have hpick := contains_of_pick h
      rwa [Nat.mul_one] at hpick

/-- Two more places in base two are a factor of four. -/
theorem pow_four (v n : Nat) : v * Nat.pow 2 (n + 2) = 4 * (v * Nat.pow 2 n) := by
  simp only [Nat.pow_eq]
  ring

/-- Fives and twos, as many of each, make tens. -/
theorem pow_ten (v n : Nat) : v * Nat.pow 5 n * Nat.pow 2 n = v * Nat.pow 10 n :=
  (Nat.mul_assoc _ _ _).trans (congrArg (v * ·) (Nat.mul_pow 5 2 n).symm)

/-- The value itself over a power of ten. -/
theorem exact_eq (i : Interval) : ∃ power, 0 < power ∧ i.exact.denominator = power ∧
    i.exact.numerator * scale = i.value * power := by
  have hpos : ∀ n, 0 < Nat.pow 10 n := fun n => Nat.pow_pos (by decide)
  have hexponent : i.exact.exponent = .negSucc 1075 := rfl
  have hplaces : 1076 = 1075 + 1 := rfl
  unfold Decimal.denominator Decimal.numerator
  rw [hexponent]
  refine ⟨_, hpos _, rfl, ?_⟩
  unfold exact scale
  rw [hplaces]
  generalize 1075 + 1 = n
  exact pow_ten i.value n

/-- The value itself lies in the interval. -/
theorem contains_exact (hlow : i.low < i.value) (hhigh : i.value < i.high) :
    i.contains i.exact.numerator i.exact.denominator = true := by
  obtain ⟨power, hpos, hden, hnum⟩ := i.exact_eq
  refine contains_of_lt ?_ ?_
  · rw [hden, hnum]
    exact Nat.mul_lt_mul_of_pos_right hlow hpos
  · rw [hden, hnum]
    exact Nat.mul_lt_mul_of_pos_right hhigh hpos

/-- The search takes a point of the interval, on whichever grid it ends. -/
theorem contains_search (hlow : i.low < i.value) (hhigh : i.value < i.high) (steps : Nat)
    (exponent : Int) :
    i.contains (i.search steps exponent).numerator (i.search steps exponent).denominator = true := by
  fun_induction search i steps exponent with
  | case1 => exact contains_exact hlow hhigh
  | case2 exponent steps digits h => exact contains_of_onGrid h
  | case3 exponent steps h ih => exact ih

variable (hm : 0 < m)
include hm

/-- A double lies strictly between the ends of its interval. -/
theorem ofDouble_lt (s : Nat) :
    (ofDouble m s).low < (ofDouble m s).value ∧ (ofDouble m s).value < (ofDouble m s).high := by
  have hpos : 0 < Nat.pow 2 s := Nat.pow_pos Nat.two_pos
  have hgap : 0 < (if m = Nat.pow 2 52 ∧ 0 < s then 1 else 2) := by split <;> omega
  exact ⟨Nat.mul_lt_mul_of_pos_right (by omega) hpos, Nat.mul_lt_mul_of_pos_right (by omega) hpos⟩

/-- Lying in the interval as it is tested, in quarters of the last place. The test has the ends
multiplied out, so the proof brings both sides over the same unit. -/
theorem within_of_contains (h : (ofDouble m s).contains num den = true) :
    Within (lowerGap m s) m (den * 2 ^ s) (num * Nat.pow 2 1074) := by
  have hgap := lowerGap_le m s
  have hlow : (ofDouble m s).low * den + lowerGap m s * (den * 2 ^ s) = 4 * (m * (den * 2 ^ s)) := by
    have hsplit : 4 * m - lowerGap m s + lowerGap m s = 4 * m := by omega
    calc (4 * m - lowerGap m s) * 2 ^ s * den + lowerGap m s * (den * 2 ^ s)
        = (4 * m - lowerGap m s + lowerGap m s) * (den * 2 ^ s) := by ring
      _ = 4 * (m * (den * 2 ^ s)) := by rw [hsplit]; ring
  have hhigh : (ofDouble m s).high * den = 4 * (m * (den * 2 ^ s)) + 2 * (den * 2 ^ s) := by
    show (4 * m + 2) * 2 ^ s * den = _
    ring
  have hscale : num * scale = 4 * (num * Nat.pow 2 1074) := by
    have hplaces : 1076 = 1074 + 2 := rfl
    unfold scale
    rw [hplaces]
    generalize 1074 = n
    exact pow_four num n
  unfold contains at h
  dsimp only at h
  rw [hhigh, hscale] at h
  generalize num * Nat.pow 2 1074 = scaled at h ⊢
  split at h
  next hclosed =>
    have heven : m % 2 = 0 := of_decide_eq_true hclosed
    rw [Bool.and_eq_true_iff, decide_eq_true_eq, decide_eq_true_eq] at h
    refine ⟨?_, h.2, fun hodd => ?_⟩
    · omega
    · omega
  next hopen =>
    rw [Bool.and_eq_true_iff, decide_eq_true_eq, decide_eq_true_eq] at h
    refine ⟨?_, Nat.le_of_lt h.2, fun _ => ⟨?_, h.2⟩⟩
    · omega
    · omega

end Interval

/-- Nought is read as nought. -/
theorem nearest_zero : nearest 0 1 = 0 := by
  have hnormal : Normal 0 0 := ⟨by decide, .inl rfl, by decide⟩
  refine nearest_of_within Nat.one_pos hnormal ⟨?_, ?_, fun hodd => absurd hodd (by decide)⟩
  · rw [Nat.zero_mul]
    exact Nat.zero_le _
  · rw [Nat.zero_mul (Nat.pow 2 1074)]
    exact Nat.zero_le _

/-- The shortest decimal of a double is read as that double. -/
theorem nearest_shortest (h : Normal m s) :
    nearest (shortest m s).numerator (shortest m s).denominator = s * 2 ^ 52 + m := by
  unfold shortest
  split
  next hzero =>
    subst hzero
    obtain rfl : s = 0 := h.leading.resolve_right (by decide)
    exact nearest_zero
  next hm =>
    have hpos : 0 < m := Nat.pos_of_ne_zero hm
    obtain ⟨hlow, hhigh⟩ := Interval.ofDouble_lt hpos s
    exact nearest_of_within (Decimal.denominator_pos _) h
      (Interval.within_of_contains hpos (Interval.contains_search hlow hhigh _ _))

end Lox.Number
