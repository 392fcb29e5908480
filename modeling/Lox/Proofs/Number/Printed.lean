/-
A finite double that is printed is read back bit for bit.

# The text

A decimal is written with all its places: with zeros up to the point, with a point among its digits,
or with zeros between the point and the digits. In each case the text is a number of the language,
and reading it denotes the decimal (`positional_spec`). The bits of a finite double without the sign
are taken apart into a mantissa and a shift (`split_spec`), and the double is printed as the
shortest decimal for these, after a minus sign if its sign bit is set (`print_eq`). That decimal is
read as the double without its sign, by the theorem on shortest decimals.

# The tokens

The minus sign is an operator of its own, and the number is a lexeme that ends where the text does
or a semicolon follows (`cuts_print`). So the text scans as one number, after a minus if there is
one, and nothing else.

# The value

Followed by a semicolon the text is read as one statement, whose expression is the number or its
negation (`parse_signed`), and evaluating that gives the number or its negation (`evaluate_signed`).
Negation puts the sign bit back, also that of nought (`toBits_signed`). Put together this is
`print_reads_back`.
-/
import Lox.Interpreter
import Lox.Proofs.Number.Bits
import Lox.Proofs.Number.Digits
import Lox.Proofs.Number.Nearest
import Lox.Proofs.Token.Spaced

namespace Lox

-- ==== All places of a decimal

open Segment (numberValue literalOf)

namespace Number

/-- The number of the language that is nearest to a decimal. -/
def Decimal.toFloat (d : Decimal) : Float :=
  Float.ofBits (UInt64.ofNat (nearest d.numerator d.denominator))

/-- A decimal written with all its places is a number of the language that denotes it. The point
stands behind the digits and zeros after them, among the digits, or before zeros and the digits. -/
theorem positional_spec (d : Decimal) :
    IsNumber d.positional ∧ numberValue d.positional = d.toFloat := by
  obtain ⟨n, exponent⟩ := d
  have hdigits := Bytes.digits_ofNat n
  have hvalue := Bytes.digitsToNat_ofNat n
  unfold Decimal.positional Decimal.toFloat Decimal.numerator Decimal.denominator
  dsimp only
  cases exponent with
  | ofNat zeros =>
      dsimp only
      by_cases hzero : n = 0
      · rw [if_pos hzero, numberValue_digits hdigits, hvalue, hzero, Nat.zero_mul]
        exact ⟨.inl (hzero ▸ hdigits), rfl⟩
      · have hpadded : Digits (Bytes.ofNat n ++ List.replicate zeros 48) :=
          hdigits.append (digit_zeros zeros)
        rw [if_neg hzero, numberValue_digits hpadded, Bytes.digitsToNat_append_zeros, hvalue]
        exact ⟨.inl hpadded, rfl⟩
  | negSucc k =>
      dsimp only
      generalize Bytes.ofNat n = digits at *
      have hpoint : utf8 "." = [46] := rfl
      by_cases hplaces : k + 1 < digits.length
      · -- the point stands among the digits
        have hwhole : Digits (digits.take (digits.length - (k + 1))) := by
          refine ⟨?_, fun c hc => hdigits.digit c (List.mem_of_mem_take hc)⟩
          rw [← List.length_pos_iff, List.length_take]
          omega
        have hlength : (digits.drop (digits.length - (k + 1))).length = k + 1 := by
          rw [List.length_drop]
          omega
        have hfraction : Digits (digits.drop (digits.length - (k + 1))) := by
          refine ⟨?_, fun c hc => hdigits.digit c (List.mem_of_mem_drop hc)⟩
          rw [← List.length_pos_iff, hlength]
          exact Nat.succ_pos k
        rw [if_pos hplaces, hpoint, List.append_assoc, List.singleton_append,
          numberValue_decimal hwhole, List.take_append_drop, hvalue, hlength]
        exact ⟨.inr ⟨_, _, hwhole, hfraction, rfl⟩, rfl⟩
      · -- zeros stand between the point and the digits
        have hwhole : Digits [48] := ⟨List.cons_ne_nil _ _, digit_zeros 1⟩
        have hfraction : Digits (List.replicate (k + 1 - digits.length) 48 ++ digits) :=
          ⟨by simp [hdigits.some], List.forall_mem_append.mpr ⟨digit_zeros _, hdigits.digit⟩⟩
        have hlength : (List.replicate (k + 1 - digits.length) 48 ++ digits).length = k + 1 := by
          rw [List.length_append, List.length_replicate]
          omega
        have hread : Bytes.digitsToNat
            ([48] ++ (List.replicate (k + 1 - digits.length) 48 ++ digits)) = n :=
          (Bytes.digitsToNat_zeros_append 1 _).trans
            ((Bytes.digitsToNat_zeros_append _ _).trans hvalue)
        have htext : utf8 "0." ++ List.replicate (k + 1 - digits.length) 48 ++ digits =
            [48] ++ 46 :: (List.replicate (k + 1 - digits.length) 48 ++ digits) := rfl
        rw [if_neg hplaces, htext, numberValue_decimal hwhole, hread, hlength]
        exact ⟨.inr ⟨_, _, hwhole, hfraction, rfl⟩, rfl⟩

-- ==== The text of a double

variable {bits : UInt64}

/-- The mantissa and the shift of a finite double without its sign, and its bits again. A double
with an exponent field of nought has no leading bit, and all others have it put back. -/
theorem split_spec {n : Nat} (h : n < infinityBits) :
    Normal (split n).1 (split n).2 ∧ (split n).2 * 2 ^ 52 + (split n).1 = n := by
  have hcut : 2 ^ 52 * (n / 2 ^ 52) + n % 2 ^ 52 = n := Nat.div_add_mod n (2 ^ 52)
  have hrest : n % 2 ^ 52 < 2 ^ 52 := Nat.mod_lt _ (by decide)
  suffices hparts : (split n).1 < 2 ^ 53 ∧ ((split n).2 = 0 ∨ 2 ^ 52 ≤ (split n).1) ∧
      (split n).2 * 2 ^ 52 + (split n).1 = n by
    obtain ⟨hsmall, hleading, hsum⟩ := hparts
    exact ⟨⟨hsmall, hleading, Nat.lt_of_le_of_lt (Nat.le_of_eq hsum) h⟩, hsum⟩
  unfold split
  dsimp only
  simp only [Nat.pow_eq]
  split
  next hfield =>
    rw [hfield] at hcut
    exact ⟨by omega, .inl rfl, by rw [Nat.zero_mul, Nat.zero_add]⟩
  next hfield =>
    obtain ⟨k, hk⟩ := Nat.exists_eq_succ_of_ne_zero hfield
    rw [hk] at hcut ⊢
    refine ⟨by omega, .inr (by omega), ?_⟩
    rw [Nat.succ_sub_one, ← hcut]
    omega

/-- The shape of a finite double is told by its sign and by the bits without it. -/
theorem shape_eq (h : IsFinite bits) :
    bits.toNat % 2 ^ 63 < infinityBits ∧
      shape bits = .finite (decide (IsNegative bits)) (split (bits.toNat % 2 ^ 63)).1
        (split (bits.toNat % 2 ^ 63)).2 := by
  have hmagnitude : bits.toNat % 2 ^ 63 < infinityBits := by
    have hlt := bits.toNat_lt
    have hinfinity : infinityBits = 2047 * 4503599627370496 := by decide
    unfold IsFinite at h
    omega
  refine ⟨hmagnitude, ?_⟩
  unfold shape
  dsimp only
  have hnumber : ¬infinityBits < bits.toNat % Nat.pow 2 63 :=
    Nat.not_lt.mpr (Nat.le_of_lt hmagnitude)
  have hbounded : ¬bits.toNat % Nat.pow 2 63 = infinityBits := Nat.ne_of_lt hmagnitude
  rw [if_neg hnumber, if_neg hbounded]
  rfl

/-- A finite double is printed as a decimal, after a minus sign if it has one, and the decimal is read
as the double without the sign. -/
theorem print_eq (h : IsFinite bits) : ∃ d : Decimal,
    print (Float.ofBits bits) = sign (decide (IsNegative bits)) ++ d.positional ∧
      d.toFloat.toBits.toNat = bits.toNat % 2 ^ 63 := by
  obtain ⟨hmagnitude, hshape⟩ := shape_eq h
  obtain ⟨hnormal, hsum⟩ := split_spec hmagnitude
  refine ⟨shortest (split (bits.toNat % 2 ^ 63)).1 (split (bits.toNat % 2 ^ 63)).2, ?_, ?_⟩
  · unfold print
    rw [toBits_ofBits h, hshape]
  · have hlt : bits.toNat % 2 ^ 63 < 2 ^ 64 := by omega
    have hword : (UInt64.ofNat (bits.toNat % 2 ^ 63)).toNat = bits.toNat % 2 ^ 63 :=
      UInt64.toNat_ofNat_of_lt' hlt
    have hfinite : IsFinite (UInt64.ofNat (bits.toNat % 2 ^ 63)) := by
      unfold IsFinite at h ⊢
      rw [hword]
      omega
    rw [Decimal.toFloat, nearest_shortest hnormal, hsum, toBits_ofBits hfinite, hword]

/-- The number that a decimal is read as, or its negation. -/
def signed (negative : Bool) (x : Float) : Float := if negative then -x else x

/-- The sign puts the sign bit back. Without it the number is finite and not negative, so negating
it sets this bit and leaves the others. -/
theorem toBits_signed {x : Float} (h : IsFinite bits) (hx : x.toBits.toNat = bits.toNat % 2 ^ 63) :
    (signed (decide (IsNegative bits)) x).toBits = bits := by
  have hlt := bits.toNat_lt
  apply UInt64.toNat_inj.mp
  unfold signed
  by_cases hneg : IsNegative bits
  · have hfinite : IsFinite x.toBits := by
      unfold IsFinite at h ⊢
      rw [hx]
      omega
    have hpositive : ¬IsNegative x.toBits := by
      unfold IsNegative
      rw [hx]
      omega
    rw [decide_eq_true hneg, if_pos rfl, toBits_neg hfinite hpositive, hx]
    unfold IsNegative at hneg
    omega
  · rw [decide_eq_false hneg, if_neg Bool.false_ne_true, hx]
    unfold IsNegative at hneg
    omega

end Number

-- ==== Scanning it

namespace Segment

/-- The segment of a minus sign, if there is one. -/
def ofSign : Bool → List Segment
  | true => [lexeme .minus [45]]
  | false => []

/-- There is nothing wrong with a minus sign. -/
theorem fault?_ofSign (negative : Bool) : ∀ s ∈ ofSign negative, s.fault? = none := by
  cases negative <;> simp [ofSign, fault?]

/-- A number with or without a minus sign is cut as such, where a stop or nothing follows. -/
theorem cuts_print {text rest : Bytes} {segments : List Segment} (negative : Bool)
    (h : IsNumber text) (hstop : ∀ c ∈ rest.head?, c ∈ stops) (hcuts : Cuts rest segments) :
    Cuts (Number.sign negative ++ text ++ rest)
      (ofSign negative ++ lexeme .number text :: segments) := by
  obtain ⟨literal, hlex⟩ := h.lexeme
  have number : Cuts (text ++ rest) (lexeme .number text :: segments) :=
    .cons (hlex.stands hstop) hcuts
  rw [List.append_assoc]
  cases negative with
  | false => exact number
  | true =>
      have minus : (lexeme .minus [45]).Stands (text ++ rest) :=
        single_stands (by decide) (by decide) (plain_of_ne (by decide))
      exact .cons minus number

/-- And the semicolon is cut off as itself. -/
theorem cuts_semicolon : Cuts (utf8 ";") [lexeme .semicolon [59]] := by
  have stands : (lexeme .semicolon [59]).Stands [] :=
    single_stands (by decide) (by decide) (plain_of_ne (by decide))
  exact .cons stands .nil

end Segment

open Segment (cuts_print cuts_semicolon ofSign)

-- ==== Reading and evaluating it

namespace Number

/-- The tree of a number after a sign, in a script that holds nothing else. The identities are those
that are taken after `issued`. -/
def signedTree (issued : Nat) (negative : Bool) (line : Int) (x : Float) : Expr :=
  if negative then .unary (issued + 2) ⟨.minus, [45], .nil, line⟩ (.literal (issued + 1) (.number x))
  else .literal (issued + 1) (.number x)

/-- A number and a semicolon are read as one statement. -/
theorem parse_signed (negative : Bool) (text : Bytes) (issued : Nat) (form : LoopForm) :
    ∃ id, parse (Segment.tokens 1 (ofSign negative ++
        [.lexeme .number text, .lexeme .semicolon [59]])) issued form =
      ⟨[.expression id (signedTree issued negative 1 (numberValue text))], [], id⟩ := by
  cases negative with
  | false => exact ⟨issued + 2, rfl⟩
  | true => exact ⟨issued + 3, rfl⟩

/-- Evaluating the tree gives the number, or its negation. -/
theorem evaluate_signed (issued : Nat) (negative : Bool) (line : Int) (x : Float) (i : Interpreter)
    (fuel : Nat) :
    i.evaluate (fuel + 3) (signedTree issued negative line x) =
      (.finished (.number (signed negative x)), i) := by
  cases negative with
  | false => rfl
  | true => cases fuel <;> rfl

/-- A finite double that is printed is read back. Its text is a number, after a minus sign if the
sign bit is set, and nothing else. Followed by a semicolon it is an expression statement, and
evaluating the expression gives a double with the same bits, whatever the interpreter. -/
theorem print_reads_back (bits : UInt64) (h : IsFinite bits) :
    let text := print (Float.ofBits bits)
    let source := text ++ utf8 ";"
    (Float.ofBits bits).toBits = bits ∧
      (scan text).diagnostics = [] ∧
      (scan text).tokens.map Token.kind =
        (if IsNegative bits then [.minus, .number, .eof] else [.number, .eof]) ∧
      (scan source).diagnostics = [] ∧
      ∀ (issued : Nat) (form : LoopForm),
        (parse (scan source).tokens issued form).diagnostics = [] ∧
        ∃ (id : Nat) (e : Expr) (y : Float),
          (parse (scan source).tokens issued form).program = [.expression id e] ∧
          y.toBits = bits ∧
          ∀ (i : Interpreter) (fuel : Nat), 3 ≤ fuel →
            i.evaluate fuel e = (.finished (.number y), i) := by
  intro text source
  obtain ⟨d, hprint, hbits⟩ := print_eq h
  obtain ⟨hnumber, hvalue⟩ := positional_spec d
  have htext : Segment.split text =
      ofSign (decide (IsNegative bits)) ++ [.lexeme .number d.positional] := by
    have hcuts := cuts_print (decide (IsNegative bits)) hnumber (by rintro c ⟨⟩) .nil
    rw [List.append_nil, ← hprint] at hcuts
    exact hcuts.eq_split.symm
  have hsource : Segment.split source = ofSign (decide (IsNegative bits)) ++
      [.lexeme .number d.positional, .lexeme .semicolon [59]] := by
    have hstop : ∀ c ∈ (utf8 ";").head?, c ∈ stops := by
      rintro c ⟨⟩
      decide
    have hcuts := cuts_print (decide (IsNegative bits)) hnumber hstop cuts_semicolon
    rw [← hprint] at hcuts
    exact hcuts.eq_split.symm
  -- both texts are cut in the one way that there is; from here on it is about the segments
  unfold scan
  dsimp only
  rw [htext, hsource]
  refine ⟨toBits_ofBits h, ?_, ?_, ?_, fun issued form => ?_⟩
  · exact Segment.diagnostics_of_fault?
      (List.forall_mem_append.mpr ⟨Segment.fault?_ofSign _, by simp [Segment.fault?]⟩)
  · by_cases hneg : IsNegative bits
    · rw [if_pos hneg, decide_eq_true hneg]
      rfl
    · rw [if_neg hneg, decide_eq_false hneg]
      rfl
  · exact Segment.diagnostics_of_fault?
      (List.forall_mem_append.mpr ⟨Segment.fault?_ofSign _, by simp [Segment.fault?]⟩)
  · obtain ⟨id, hparse⟩ := parse_signed (decide (IsNegative bits)) d.positional issued form
    rw [hparse]
    refine ⟨rfl, id, _, signed (decide (IsNegative bits)) (numberValue d.positional), rfl, ?_, ?_⟩
    · rw [hvalue]
      exact toBits_signed h hbits
    · intro i fuel hfuel
      obtain ⟨fuel, rfl⟩ := Nat.exists_eq_add_of_le' hfuel
      exact evaluate_signed ..

/-- The negative double that is nearest to nought, whose decimal has more than three hundred
zeros. -/
theorem print_reads_back_least_negative :
    IsFinite 0x8000000000000001 ∧
      let text := print (Float.ofBits 0x8000000000000001)
      (scan text).diagnostics = [] ∧
      (scan text).tokens.map Token.kind = [.minus, .number, .eof] ∧
      (scan (text ++ utf8 ";")).diagnostics = [] ∧
      ∃ (id : Nat) (e : Expr) (y : Float),
        (parse (scan (text ++ utf8 ";")).tokens 0 .full).program = [.expression id e] ∧
        y.toBits = 0x8000000000000001 ∧
        ∀ (i : Interpreter) (fuel : Nat), 3 ≤ fuel →
          i.evaluate fuel e = (.finished (.number y), i) := by
  obtain ⟨-, hclean, hkinds, hsource, hparse⟩ := print_reads_back 0x8000000000000001 (by decide)
  exact ⟨by decide, hclean, hkinds.trans (if_pos (by decide)), hsource, (hparse 0 .full).2⟩

end Number

end Lox
