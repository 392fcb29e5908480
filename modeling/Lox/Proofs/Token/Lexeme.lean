/-
The lexical classes, and the longest lexeme at the front of a text.

# The lexical rules

`Lexeme` says which texts are tokens of which kind, and which constant each of them carries. It is
the lexical grammar and refers to nothing of the scanner: the bytes that are letters and digits
(`Letter`, `Digit`), the reserved words (`reservedWords`), the operators (`operators`) and the number
that digits write (`placeValue`) are all written out here. The scanner has tests and tables of its
own, and they are shown to agree: `isDigit_iff`, `isAlpha_iff`, `isWordByte_iff`, `keywords_eq` and
`digitsToNat_eq`. The one thing that both share is the rounding of a decimal to a double.

# One class for each first byte

Reserved words and identifiers start with a letter, numbers with a digit, strings with a quote and
operators with none of these (`Lexeme.classes`). So the lexemes at the front of one text are all of
one class, and within a class the text of a lexeme tells its kind (`Lexeme.kind_eq`).

# Longest lexemes

Numbers and words are cut off as runs of bytes. A lexeme of the class at the front of the text lies
within that run, so the run is at least as long (`number_longest`, `word_longest`). A string ends at
the first quote after its own (`string_longest`), and an operator is the first byte, or that and an
equals sign (`operator_longest`).

# What is cut off

In turn, what the scanner cuts off is a lexeme of the kind that it names (`lexeme_of_word`,
`isNumber_numberText`), and the constant that it reads from a lexeme is the one that the lexeme carries
(`Lexeme.literal_eq`).
-/
import Lox.Proofs.Token.Segment

namespace Lox

-- ==== The classes

/-- The digits from 0 to 9. -/
def Digit (b : UInt8) : Prop := 48 ≤ b ∧ b ≤ 57

/-- The letters from a to z and from A to Z, and the underscore. -/
def Letter (b : UInt8) : Prop := (97 ≤ b ∧ b ≤ 122) ∨ (65 ≤ b ∧ b ≤ 90) ∨ b = 95

/-- Operators and marks, as they are written. Some of them are the start of others, and then the
longer one is meant. -/
def operators : List (Kind × Bytes) :=
  [(.leftParen, utf8 "("), (.rightParen, utf8 ")"), (.leftBrace, utf8 "\x7b"),
    (.rightBrace, utf8 "\x7d"), (.comma, utf8 ","), (.dot, utf8 "."), (.minus, utf8 "-"),
    (.plus, utf8 "+"), (.semicolon, utf8 ";"), (.slash, utf8 "/"), (.star, utf8 "*"),
    (.bang, utf8 "!"), (.bangEqual, utf8 "!="), (.equal, utf8 "="), (.equalEqual, utf8 "=="),
    (.greater, utf8 ">"), (.greaterEqual, utf8 ">="), (.less, utf8 "<"), (.lessEqual, utf8 "<=")]

/-- The words that are no identifiers. They are spelled out here once more, and shown to be those
that the scanner knows. -/
def reservedWords : List (Kind × Bytes) :=
  [(.and, utf8 "and"), (.klass, utf8 "class"), (.else, utf8 "else"), (.false, utf8 "false"),
    (.for, utf8 "for"), (.fun, utf8 "fun"), (.if, utf8 "if"), (.nil, utf8 "nil"), (.or, utf8 "or"),
    (.print, utf8 "print"), (.return, utf8 "return"), (.super, utf8 "super"), (.this, utf8 "this"),
    (.true, utf8 "true"), (.var, utf8 "var"), (.while, utf8 "while")]

/-- The number that decimal digits write: a digit counts ten times as much as the one after it. -/
def placeValue : Bytes → Nat
  | [] => 0
  | b :: rest => (b.toNat - 48) * Nat.pow 10 rest.length + placeValue rest

/-- One digit or more. -/
structure Digits (text : Bytes) : Prop where
  some : text ≠ []
  digit : ∀ b ∈ text, Digit b

/-- A letter, and after it letters and digits. -/
structure Word (text : Bytes) : Prop where
  first : ∃ b ∈ text.head?, Letter b
  letter : ∀ b ∈ text, Letter b ∨ Digit b

/-- The texts that are a token of the kind, and the constant that the token carries. A number is
digits, or digits on both sides of a point; the constant is then what all its digits write, divided
by ten for each of them that is after the point. -/
inductive Lexeme : Kind → Bytes → Literal → Prop where
  | operator {kind : Kind} {text : Bytes} (h : (kind, text) ∈ operators) : Lexeme kind text .nil
  | reserved {kind : Kind} {word : Bytes} (h : (kind, word) ∈ reservedWords) : Lexeme kind word .nil
  | identifier {word : Bytes} (h : Word word) (free : ∀ kind, (kind, word) ∉ reservedWords) :
      Lexeme .identifier word .nil
  | whole {digits : Bytes} (h : Digits digits) :
      Lexeme .number digits (.number (Number.ofDecimal (placeValue digits) 0))
  | decimal {digits fraction : Bytes} (h : Digits digits) (hf : Digits fraction) :
      Lexeme .number (digits ++ 46 :: fraction)
        (.number (Number.ofDecimal (placeValue (digits ++ fraction)) fraction.length))
  | string {inside : Bytes} (h : 34 ∉ inside) :
      Lexeme .string (34 :: inside ++ [34]) (.string inside)

variable {b : UInt8} {t text rest : Bytes} {kind : Kind} {literal : Literal}

/-- The texts of numbers. -/
def IsNumber (text : Bytes) : Prop :=
  Digits text ∨ ∃ digits fraction, Digits digits ∧ Digits fraction ∧ text = digits ++ 46 :: fraction

-- ==== The scanner's tests and tables

/-- The scanner's test for a digit. -/
theorem isDigit_iff : Bytes.isDigit b = true ↔ Digit b := by
  simp only [Bytes.isDigit, Digit, Bool.and_eq_true, decide_eq_true_eq]

/-- The scanner's test for a letter. -/
theorem isAlpha_iff : Bytes.isAlpha b = true ↔ Letter b := by
  simp only [Bytes.isAlpha, Letter, Bool.or_eq_true, Bool.and_eq_true, decide_eq_true_eq,
    beq_iff_eq, or_assoc]

/-- The scanner's test for a byte that goes on with a word. -/
theorem isWordByte_iff : Bytes.isWordByte b = true ↔ Letter b ∨ Digit b := by
  rw [Bytes.isWordByte, Bool.or_eq_true, isAlpha_iff, isDigit_iff]

/-- Digits, by the scanner's test. -/
theorem digits_iff : Digits text ↔ text ≠ [] ∧ ∀ b ∈ text, Bytes.isDigit b = true := by
  simp only [isDigit_iff]
  exact ⟨fun h => ⟨h.some, h.digit⟩, fun h => ⟨h.1, h.2⟩⟩

theorem Digits.each (h : Digits text) : ∀ b ∈ text, Bytes.isDigit b = true :=
  (digits_iff.mp h).2

/-- Words, by the scanner's tests. -/
theorem word_iff : Word text ↔
    (∃ b ∈ text.head?, Bytes.isAlpha b = true) ∧ ∀ b ∈ text, Bytes.isWordByte b = true := by
  simp only [isAlpha_iff, isWordByte_iff]
  exact ⟨fun h => ⟨h.first, h.letter⟩, fun h => ⟨h.1, h.2⟩⟩

theorem Word.each (h : Word text) : ∀ b ∈ text, Bytes.isWordByte b = true :=
  (word_iff.mp h).2

/-- The scanner's table of words is the one of the lexical rules, with its columns swapped. -/
theorem keywords_eq : Kind.keywords.map Prod.swap = reservedWords := rfl

theorem mem_keywords {word : Bytes} :
    (word, kind) ∈ Kind.keywords ↔ (kind, word) ∈ reservedWords := by
  rw [← keywords_eq, List.mem_map]
  refine ⟨fun h => ⟨(word, kind), h, rfl⟩, ?_⟩
  rintro ⟨⟨word', kind'⟩, h, ⟨⟩⟩
  exact h

/-- Digits that were read before count for more, by as many places as there are digits after them. -/
theorem foldl_digits (text : Bytes) (start : Nat) :
    text.foldl (fun n b => 10 * n + (b.toNat - 48)) start =
      start * Nat.pow 10 text.length + placeValue text := by
  induction text generalizing start with
  | nil => exact (Nat.mul_one start).symm
  | cons b rest ih =>
      have hten : Nat.pow 10 (rest.length + 1) = Nat.pow 10 rest.length * 10 := rfl
      rw [List.foldl_cons, ih, List.length_cons, hten, placeValue, Nat.add_mul, Nat.mul_assoc,
        Nat.mul_left_comm, Nat.mul_comm 10, ← Nat.add_assoc]

/-- Digits read from left to right give their place value. -/
theorem digitsToNat_eq (text : Bytes) : Bytes.digitsToNat text = placeValue text := by
  rw [Bytes.digitsToNat, foldl_digits, Nat.zero_mul, Nat.zero_add]

-- ==== The first byte

/-- No digit is a letter. -/
theorem isAlpha_of_isDigit (h : Bytes.isDigit b = true) : Bytes.isAlpha b = false := by
  simp only [Bytes.isDigit, Bytes.isAlpha, Bool.and_eq_true, decide_eq_true_eq, Bool.or_eq_false_iff,
    Bool.and_eq_false_iff, decide_eq_false_iff_not, beq_eq_false_iff_ne, ne_eq,
    ← UInt8.toNat_inj, UInt8.le_iff_toNat_le, UInt8.reduceToNat] at h ⊢
  omega

/-- The first byte of an operator is that of no other class, and no blank. -/
theorem first_of_operators (h : (kind, b :: t) ∈ operators) :
    Bytes.isDigit b = false ∧ Bytes.isAlpha b = false ∧ b ≠ 34 ∧ b ∉ [32, 13, 9, 10] := by
  have hall : ∀ p ∈ operators, Bytes.isDigit (p.2.headD 0) = false ∧
      Bytes.isAlpha (p.2.headD 0) = false ∧ p.2.headD 0 ≠ 34 ∧ p.2.headD 0 ∉ [32, 13, 9, 10] := by
    decide
  exact hall _ h

/-- A word of the table is a word. -/
theorem word_of_reserved {word : Bytes} (h : (kind, word) ∈ reservedWords) : Word word := by
  have hall : ∀ p ∈ reservedWords, p.2.head?.any Bytes.isAlpha = true ∧
      p.2.all Bytes.isWordByte = true := by decide
  obtain ⟨b, hb, halpha⟩ := (Option.any_eq_true ..).mp (hall _ h).1
  exact word_iff.mpr ⟨⟨b, hb, halpha⟩, List.all_eq_true.mp (hall _ h).2⟩

/-- A word starts with a letter. -/
theorem Word.isAlpha (h : Word (b :: t)) : Bytes.isAlpha b = true := by
  obtain ⟨c, hc, hletter⟩ := h.first
  obtain rfl : b = c := Option.some.inj hc
  exact isAlpha_iff.mpr hletter

/-- A number starts with a digit. -/
theorem IsNumber.isDigit (h : IsNumber (b :: t)) : Bytes.isDigit b = true := by
  rcases h with h | ⟨digits, fraction, h, -, htext⟩
  · exact h.each b List.mem_cons_self
  · cases digits with
    | nil => exact absurd rfl h.some
    | cons d digits =>
        obtain ⟨rfl, -⟩ := List.cons.inj htext
        exact h.each b List.mem_cons_self

/-- Looking up a word of the table finds its kind: no word stands there twice. -/
theorem ofWord_of_reserved {word : Bytes} (h : (kind, word) ∈ reservedWords) :
    Kind.ofWord word = kind := by
  have hall : ∀ p ∈ reservedWords, Kind.ofWord p.2 = p.1 := by decide
  exact hall _ h

/-- Looking up any other word finds an identifier. -/
theorem ofWord_of_free {word : Bytes} (free : ∀ kind, (kind, word) ∉ reservedWords) :
    Kind.ofWord word = .identifier := by
  unfold Kind.ofWord Kind.keyword?
  cases hk : Kind.keywords.lookup word with
  | none => rfl
  | some kind =>
      obtain ⟨front, back, hsplit, -⟩ := List.lookup_eq_some_iff.mp hk
      have hmem : (word, kind) ∈ Kind.keywords := by simp [hsplit]
      exact absurd (mem_keywords.mp hmem) (free kind)

/-- The first byte of a lexeme tells its class: a digit starts a number, a letter or an underscore a
word, and a quote a string. All other lexemes are operators. -/
theorem Lexeme.classes (h : Lexeme kind (b :: t) literal) :
    (Bytes.isDigit b = true ∧ kind = .number ∧ IsNumber (b :: t)) ∨
      (Bytes.isAlpha b = true ∧ kind = .ofWord (b :: t) ∧ Word (b :: t)) ∨
      (b = 34 ∧ kind = .string ∧ ∃ inside, 34 ∉ inside ∧ t = inside ++ [34]) ∨
      (kind, b :: t) ∈ operators := by
  generalize htext : b :: t = text at h
  cases h with
  | operator h => exact .inr (.inr (.inr h))
  | reserved h =>
      subst htext
      have word := word_of_reserved h
      exact .inr (.inl ⟨word.isAlpha, (ofWord_of_reserved h).symm, word⟩)
  | identifier h free =>
      subst htext
      exact .inr (.inl ⟨h.isAlpha, (ofWord_of_free free).symm, h⟩)
  | whole h =>
      subst htext
      have numeral : IsNumber (b :: t) := .inl h
      exact .inl ⟨numeral.isDigit, rfl, numeral⟩
  | decimal h hf =>
      have numeral : IsNumber (b :: t) := .inr ⟨_, _, h, hf, htext⟩
      exact .inl ⟨numeral.isDigit, rfl, htext ▸ numeral⟩
  | @string inside h =>
      obtain ⟨rfl, rfl⟩ := List.cons.inj htext
      exact .inr (.inr (.inl ⟨rfl, rfl, inside, h, rfl⟩))

/-- A lexeme that starts with a digit is a number. -/
theorem Lexeme.numeral (h : Lexeme kind (b :: t) literal) (hb : Bytes.isDigit b = true) :
    kind = .number ∧ IsNumber (b :: t) := by
  rcases h.classes with ⟨-, h⟩ | ⟨ha, -⟩ | ⟨rfl, -⟩ | h
  · exact h
  · rw [isAlpha_of_isDigit hb] at ha
    cases ha
  · cases hb
  · rw [(first_of_operators h).1] at hb
    cases hb

/-- A lexeme that starts with a letter is a word, of the kind that the table gives it. -/
theorem Lexeme.word (h : Lexeme kind (b :: t) literal) (hb : Bytes.isAlpha b = true) :
    kind = .ofWord (b :: t) ∧ Word (b :: t) := by
  rcases h.classes with ⟨hd, -⟩ | ⟨-, h⟩ | ⟨rfl, -⟩ | h
  · rw [isAlpha_of_isDigit hd] at hb
    cases hb
  · exact h
  · cases hb
  · rw [(first_of_operators h).2.1] at hb
    cases hb

/-- A lexeme that starts with a quote is a string. -/
theorem Lexeme.quoted (h : Lexeme kind (34 :: t) literal) :
    kind = .string ∧ ∃ inside, 34 ∉ inside ∧ t = inside ++ [34] := by
  rcases h.classes with ⟨hd, -⟩ | ⟨ha, -⟩ | ⟨-, h⟩ | h
  · cases hd
  · cases ha
  · exact h
  · exact absurd rfl (first_of_operators h).2.2.1

/-- A lexeme that starts with any other byte is an operator. -/
theorem Lexeme.mem_operators (h : Lexeme kind (b :: t) literal) (hd : Bytes.isDigit b = false)
    (ha : Bytes.isAlpha b = false) (hq : b ≠ 34) : (kind, b :: t) ∈ operators := by
  rcases h.classes with ⟨h, -⟩ | ⟨h, -⟩ | ⟨h, -⟩ | h
  · rw [hd] at h
    cases h
  · rw [ha] at h
    cases h
  · exact absurd h hq
  · exact h

/-- No lexeme is empty, so a script is cut into no more lexemes than it has bytes. -/
theorem Lexeme.ne_nil (h : Lexeme kind text literal) : text ≠ [] := by
  cases h with
  | operator h =>
      have hall : ∀ p ∈ operators, p.2 ≠ [] := by decide
      exact hall _ h
  | reserved h =>
      have hall : ∀ p ∈ reservedWords, p.2 ≠ [] := by decide
      exact hall _ h
  | identifier h free =>
      rintro rfl
      obtain ⟨b, hb, -⟩ := h.first
      cases hb
  | whole h => exact h.some
  | decimal h hf => simp
  | string h => simp

/-- A lexeme at the front of a text starts with the first byte of the text. -/
theorem Lexeme.cons_of_prefix (h : Lexeme kind text literal) (hpre : text <+: b :: rest) :
    ∃ t, text = b :: t ∧ t <+: rest := by
  cases text with
  | nil => exact absurd rfl h.ne_nil
  | cons c t =>
      obtain ⟨rfl, ht⟩ := List.cons_prefix_cons.mp hpre
      exact ⟨t, rfl, ht⟩

/-- A text is a lexeme of no more than one kind. -/
theorem Lexeme.kind_eq {kind' : Kind} {literal' : Literal} (h : Lexeme kind text literal)
    (h' : Lexeme kind' text literal') : kind = kind' := by
  obtain ⟨b, t, rfl⟩ := List.exists_cons_of_ne_nil h.ne_nil
  cases hd : Bytes.isDigit b with
  | true => rw [(h.numeral hd).1, (h'.numeral hd).1]
  | false =>
      cases ha : Bytes.isAlpha b with
      | true => rw [(h.word ha).1, (h'.word ha).1]
      | false =>
          by_cases hq : b = 34
          · subst hq
            rw [h.quoted.1, h'.quoted.1]
          · have hall : ∀ p ∈ operators, ∀ q ∈ operators, p.2 = q.2 → p.1 = q.1 := by decide
            exact hall _ (h.mem_operators hd ha hq) _ (h'.mem_operators hd ha hq) rfl

-- ==== Longest lexemes

/-- A front of a text all of whose bytes have a property is part of its run of such bytes. -/
theorem prefix_takeWhile {p : UInt8 → Bool} (hpre : t <+: rest) (hall : ∀ c ∈ t, p c = true) :
    t <+: rest.takeWhile p := by
  obtain ⟨after, rfl⟩ := hpre
  rw [List.takeWhile_append_of_pos hall]
  exact List.prefix_append _ _

/-- A run ends where the first byte without the property stands, or where the text ends. -/
theorem takeWhile_run {p : UInt8 → Bool} (hall : ∀ b ∈ t, p b = true) (rest : Bytes)
    (hend : ∀ c ∈ rest.head?, p c = false) :
    (t ++ rest).takeWhile p = t ∧ (t ++ rest).dropWhile p = rest := by
  rw [List.takeWhile_append_of_pos hall, List.dropWhile_append_of_pos hall]
  cases rest with
  | nil => exact ⟨List.append_nil _, rfl⟩
  | cons c rest =>
      have hc : ¬p c = true := by simp [hend c rfl]
      rw [List.takeWhile_cons_of_neg hc, List.dropWhile_cons_of_neg hc, List.append_nil]
      exact ⟨rfl, rfl⟩

open Segment (numberText)

/-- The digits and the point with digits after it that are at the front of a text. -/
theorem numberText_decimal {digits fraction : Bytes} (h : Digits digits) (hf : Digits fraction)
    (rest : Bytes) : numberText (digits ++ 46 :: fraction ++ rest) =
      digits ++ 46 :: (fraction ++ rest).takeWhile Bytes.isDigit := by
  obtain ⟨htake, hdrop⟩ := takeWhile_run h.each (46 :: (fraction ++ rest)) (by rintro c ⟨⟩; rfl)
  rw [List.append_assoc, List.cons_append]
  unfold numberText
  rw [htake, hdrop]
  cases fraction with
  | nil => exact absurd rfl hf.some
  | cons d fraction => exact if_pos (hf.each d List.mem_cons_self)

/-- A number starts with the whole run of digits that is there. -/
theorem takeWhile_prefix_numberText (digits : Bytes) :
    digits.takeWhile Bytes.isDigit <+: numberText digits := by
  unfold numberText
  dsimp only
  split
  · split
    · exact List.prefix_append _ _
    · exact List.prefix_refl _
  · exact List.prefix_refl _

/-- No lexeme at a digit is longer than the number that is cut off: without a point it lies within the
run of digits, and with one its fraction lies within the run after the point. -/
theorem number_longest (hb : Bytes.isDigit b = true) (h : Lexeme kind text literal)
    (hpre : text <+: b :: rest) : text.length ≤ (numberText (b :: rest)).length := by
  obtain ⟨t, rfl, -⟩ := h.cons_of_prefix hpre
  rcases (h.numeral hb).2 with hdigits | ⟨digits, fraction, hdigits, hfraction, htext⟩
  · have hrun := prefix_takeWhile hpre hdigits.each
    exact (hrun.trans (takeWhile_prefix_numberText _)).length_le
  · rw [htext] at hpre ⊢
    obtain ⟨after, hafter⟩ := hpre
    rw [← hafter, numberText_decimal hdigits hfraction]
    have hrun := prefix_takeWhile (List.prefix_append fraction after) hfraction.each
    have hle := hrun.length_le
    simp only [List.length_append, List.length_cons]
    omega

/-- No lexeme at a letter is longer than the word that is cut off. -/
theorem word_longest (hb : Bytes.isAlpha b = true) (h : Lexeme kind text literal)
    (hpre : text <+: b :: rest) :
    text.length ≤ (b :: rest.takeWhile Bytes.isWordByte).length := by
  obtain ⟨t, rfl, ht⟩ := h.cons_of_prefix hpre
  obtain ⟨-, hword⟩ := h.word hb
  have hrun := prefix_takeWhile ht fun c hc => hword.each c (List.mem_cons_of_mem _ hc)
  exact Nat.succ_le_succ hrun.length_le

/-- A string ends at the first quote after the one that starts it. -/
theorem string_longest (h : Lexeme kind text literal) (hpre : text <+: 34 :: rest) :
    ∃ inside after, 34 ∉ inside ∧ text = 34 :: inside ++ [34] ∧ rest = inside ++ 34 :: after := by
  obtain ⟨t, rfl, after, hafter⟩ := h.cons_of_prefix hpre
  obtain ⟨-, inside, hinside, rfl⟩ := h.quoted
  refine ⟨inside, after, hinside, rfl, ?_⟩
  rw [← hafter, List.append_assoc]
  rfl

/-- An operator at the front of a text is its first byte, or that and an equals sign. -/
theorem operator_longest (hd : Bytes.isDigit b = false) (ha : Bytes.isAlpha b = false) (hq : b ≠ 34)
    (h : Lexeme kind text literal) (hpre : text <+: b :: rest) :
    (kind, text) ∈ operators ∧ (text = [b] ∨ text = [b, 61] ∧ ∃ more, rest = 61 :: more) := by
  have hall : ∀ p ∈ operators, p.2.drop 1 = [] ∨ p.2.drop 1 = [61] := by decide
  obtain ⟨t, rfl, after, hafter⟩ := h.cons_of_prefix hpre
  have hmem := h.mem_operators hd ha hq
  refine ⟨hmem, ?_⟩
  rcases hall _ hmem with ht | ht
  · exact .inl (congrArg (b :: ·) ht)
  · obtain rfl : t = [61] := ht
    exact .inr ⟨rfl, after, hafter.symm⟩

-- ==== What is cut off is a lexeme

/-- A word, as it is cut off: reserved if the table has it, and else an identifier. -/
theorem lexeme_of_word {word : Bytes} (h : Word word) : Lexeme (.ofWord word) word .nil := by
  by_cases hk : ∃ kind, (kind, word) ∈ reservedWords
  · obtain ⟨kind, hk⟩ := hk
    rw [ofWord_of_reserved hk]
    exact .reserved hk
  · have free : ∀ kind, (kind, word) ∉ reservedWords := fun kind h => hk ⟨kind, h⟩
    rw [ofWord_of_free free]
    exact .identifier h free

/-- The run of digits that a digit starts. -/
theorem digits_takeWhile (hb : Bytes.isDigit b = true) (rest : Bytes) :
    Digits ((b :: rest).takeWhile Bytes.isDigit) :=
  digits_iff.mpr ⟨by simp [hb], List.all_eq_true.mp List.all_takeWhile⟩

/-- Every number is a lexeme, with some constant. -/
theorem IsNumber.lexeme (h : IsNumber text) : ∃ literal, Lexeme .number text literal := by
  rcases h with h | ⟨digits, fraction, hd, hf, rfl⟩
  · exact ⟨_, .whole h⟩
  · exact ⟨_, .decimal hd hf⟩

/-- What is cut off at a digit is a number: with a point in it only if digits stand on both sides. -/
theorem isNumber_numberText (hb : Bytes.isDigit b = true) (rest : Bytes) :
    IsNumber (numberText (b :: rest)) := by
  have hdigits := digits_takeWhile hb rest
  unfold numberText
  dsimp only
  split
  next d more hdrop =>
    split
    next hd => exact .inr ⟨_, _, hdigits, digits_takeWhile hd more, rfl⟩
    next => exact .inl hdigits
  next => exact .inl hdigits

-- ==== The constant that a lexeme carries

open Segment (literalOf numberValue)

/-- Only numbers and strings carry a constant. -/
theorem literalOf_eq_nil (hn : kind ≠ .number) (hs : kind ≠ .string) :
    literalOf kind text = .nil := by
  unfold literalOf
  split
  · exact absurd rfl hn
  · exact absurd rfl hs
  · rfl

/-- The number that digits without a point denote. -/
theorem numberValue_digits {digits : Bytes} (h : Digits digits) :
    numberValue digits = Number.ofDecimal (Bytes.digitsToNat digits) 0 := by
  obtain ⟨htake, hdrop⟩ := takeWhile_run h.each [] (by rintro c ⟨⟩)
  rw [List.append_nil] at htake hdrop
  simp [numberValue, htake, hdrop]

/-- The number that digits on both sides of a point denote. -/
theorem numberValue_decimal {digits fraction : Bytes} (h : Digits digits) :
    numberValue (digits ++ 46 :: fraction) =
      Number.ofDecimal (Bytes.digitsToNat (digits ++ fraction)) fraction.length := by
  obtain ⟨htake, hdrop⟩ := takeWhile_run h.each (46 :: fraction) (by rintro c ⟨⟩; rfl)
  unfold numberValue
  rw [htake, hdrop]
  rfl

/-- The scanner reads from every lexeme the constant that it carries. -/
theorem Lexeme.literal_eq (h : Lexeme kind text literal) : literal = literalOf kind text := by
  cases h with
  | operator h =>
      have hall : ∀ p ∈ operators, p.1 ≠ .number ∧ p.1 ≠ .string := by decide
      exact (literalOf_eq_nil (hall _ h).1 (hall _ h).2).symm
  | reserved h =>
      have hall : ∀ p ∈ reservedWords, p.1 ≠ .number ∧ p.1 ≠ .string := by decide
      exact (literalOf_eq_nil (hall _ h).1 (hall _ h).2).symm
  | identifier h free => rfl
  | whole h => rw [literalOf, numberValue_digits h, digitsToNat_eq]
  | decimal h hf => rw [literalOf, numberValue_decimal h, digitsToNat_eq]
  | string h => simp [literalOf]

end Lox
