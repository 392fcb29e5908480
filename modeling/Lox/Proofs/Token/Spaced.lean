/-
Lexemes set apart by spaces.

# What ends a lexeme

No lexeme but a string goes on over a space, and a string ends at its own quote. So where a space or
a semicolon follows a lexeme, or nothing does, no longer lexeme is at the front
(`Lexeme.longest_before_stop`): a longer one would have the stop as one of its bytes after the first
(`Lexeme.not_mem_of_stops`), and of strings only one is closed at this quote. Hence each lexeme may
stand there (`Lexeme.stands`).

# Writing lexemes down

Lexemes with spaces between them are cut where they were put together (`cuts_spaced`), by induction
over them, and since a text can be cut in one way only, that is how the text is cut.

# Tokens without their lines

The lexemes of a script are lexemes of the rules (`lexeme_of_cuts`), and the kinds, texts and
constants of its tokens depend on these alone (`contents_tokens`). So writing out the lexemes of a
script with spaces between them and scanning them again finds no fault and gives the same tokens,
but for their lines (`scan_lexemes`).
-/
import Lox.Proofs.Token.Accounted

namespace Lox

variable {kind : Kind} {text rest t : Bytes} {literal : Literal} {b c : UInt8}

-- ==== What ends a lexeme

/-- The space and the semicolon. -/
def stops : List UInt8 := [32, 59]

theorem stops_cases (h : c ∈ stops) : c = 32 ∨ c = 59 := by
  simpa [stops] using h

/-- A number has digits in it, and at most a point. -/
theorem IsNumber.isDigit_or (h : IsNumber text) : ∀ c ∈ text, Bytes.isDigit c = true ∨ c = 46 := by
  intro c hc
  rcases h with h | ⟨digits, fraction, hd, hf, rfl⟩
  · exact .inl (h.each c hc)
  · rcases List.mem_append.mp hc with hc | hc
    · exact .inl (hd.each c hc)
    · rcases List.mem_cons.mp hc with rfl | hc
      · exact .inr rfl
      · exact .inl (hf.each c hc)

/-- A stop is no part of a lexeme after its first byte, unless that is a quote. -/
theorem Lexeme.not_mem_of_stops (h : Lexeme kind (b :: t) literal) (hb : b ≠ 34)
    (hc : c ∈ stops) : c ∉ t := by
  intro hmem
  obtain ⟨hdigit, hpoint, hword⟩ :
      Bytes.isDigit c = false ∧ c ≠ 46 ∧ Bytes.isWordByte c = false := by
    rcases stops_cases hc with rfl | rfl <;> decide
  rcases h.classes with ⟨-, -, number⟩ | ⟨-, -, word⟩ | ⟨hq, -⟩ | hop
  · rcases number.isDigit_or c (List.mem_cons_of_mem _ hmem) with hd | rfl
    · rw [hdigit] at hd
      cases hd
    · exact hpoint rfl
  · rw [word.each c (List.mem_cons_of_mem _ hmem)] at hword
    cases hword
  · exact hb hq
  · have hall : ∀ p ∈ operators, 32 ∉ p.2.tail ∧ 59 ∉ p.2.tail := by decide
    rcases stops_cases hc with rfl | rfl
    · exact (hall _ hop).1 hmem
    · exact (hall _ hop).2 hmem

/-- No longer lexeme is at the front where a stop follows. A longer one would go on with the stop,
which no lexeme but a string has inside, and a string does not go on after its quote. -/
theorem Lexeme.longest_before_stop (h : Lexeme kind (b :: t) literal)
    (hstop : ∀ c ∈ rest.head?, c ∈ stops) {kind' : Kind} {t' : Bytes} {literal' : Literal}
    (h' : Lexeme kind' (b :: t') literal') (hpre : t' <+: t ++ rest) : t'.length ≤ t.length := by
  refine Nat.le_of_not_lt fun hlonger => ?_
  obtain ⟨u, rfl⟩ : t <+: t' :=
    List.prefix_of_prefix_length_le (List.prefix_append _ _) hpre (by omega)
  rw [List.prefix_append_right_inj] at hpre
  -- the longer one goes on with the stop
  cases u with
  | nil => simp at hlonger
  | cons c u =>
      obtain ⟨more, rfl⟩ := hpre
      by_cases hb : b = 34
      · subst hb
        obtain ⟨-, inside, -, rfl⟩ := h.quoted
        obtain ⟨-, inside', hclosed, hsame⟩ := h'.quoted
        have hinside : inside ++ [34] <+: inside' := by
          refine List.prefix_of_prefix_length_le ⟨c :: u, hsame⟩ (List.prefix_append _ _) ?_
          have hlen := congrArg List.length hsame
          simp only [List.length_append, List.length_cons, List.length_nil] at hlen ⊢
          omega
        exact hclosed (hinside.subset (by simp))
      · exact h'.not_mem_of_stops hb (hstop c rfl) (by simp)

/-- A lexeme may stand before a stop, and at the end of a text. -/
theorem Lexeme.stands (h : Lexeme kind text literal)
    (hstop : ∀ c ∈ rest.head?, c ∈ stops) : (Segment.lexeme kind text).Stands rest := by
  obtain ⟨b, t, rfl⟩ := List.exists_cons_of_ne_nil h.ne_nil
  refine .lexeme h (fun kind' text' literal' h' hpre => ?_) fun hslashes => ?_
  · obtain ⟨t', rfl, ht'⟩ := h'.cons_of_prefix hpre
    exact Nat.succ_le_succ (h.longest_before_stop hstop h' ht')
  · obtain ⟨rfl, hslash⟩ := List.cons_prefix_cons.mp hslashes
    have hall : ∀ p ∈ operators, p.2.head? = some 47 → p.2.tail = [] := by decide
    obtain rfl : t = [] := hall _ (h.mem_operators (by decide) (by decide) (by decide)) rfl
    obtain ⟨more, rfl⟩ := hslash
    exact absurd (hstop 47 rfl) (by decide)

-- ==== Lexemes of a script

namespace Segment

/-- The kind and the text of a lexeme. -/
def pair? : Segment → Option (Kind × Bytes)
  | lexeme kind text => some (kind, text)
  | _ => none

/-- The kinds and the texts of all lexemes. -/
def pairs (segments : List Segment) : List (Kind × Bytes) := segments.filterMap pair?

/-- Lexemes with a space between each two. -/
def spaced : List (Kind × Bytes) → List Segment
  | [] => []
  | [p] => [lexeme p.1 p.2]
  | p :: rest => lexeme p.1 p.2 :: blank 32 :: spaced rest

/-- The spaces between lexemes are no lexemes. -/
theorem pairs_spaced (ps : List (Kind × Bytes)) : pairs (spaced ps) = ps := by
  fun_induction spaced ps with
  | case1 => rfl
  | case2 p => rfl
  | case3 p rest hne ih => exact congrArg (p :: ·) ih

/-- And nothing is wrong with any of it. -/
theorem fault?_spaced (ps : List (Kind × Bytes)) : ∀ s ∈ spaced ps, s.fault? = none := by
  fun_induction spaced ps with
  | case1 => simp
  | case2 p => simp [fault?]
  | case3 p rest hne ih =>
      exact List.forall_mem_cons.mpr ⟨rfl, List.forall_mem_cons.mpr ⟨rfl, ih⟩⟩

/-- The lexemes that are found in a text are lexemes. -/
theorem lexeme_of_cuts {source : Bytes} {segments : List Segment} (h : Cuts source segments) :
    ∀ p ∈ pairs segments, ∃ literal, Lexeme p.1 p.2 literal := by
  induction h with
  | nil => simp [pairs]
  | @cons s rest segments stands cuts ih =>
      cases stands with
      | lexeme hlex longest plain => exact List.forall_mem_cons.mpr ⟨⟨_, hlex⟩, ih⟩
      | _ => exact ih

/-- Lexemes with spaces between them are cut at the spaces. By induction over them: a space is a
stop, so each lexeme is the longest at its place, and the space is a segment of its own. -/
theorem cuts_spaced {ps : List (Kind × Bytes)} (h : ∀ p ∈ ps, ∃ literal, Lexeme p.1 p.2 literal) :
    Cuts (Bytes.join [32] (ps.map Prod.snd)) (spaced ps) := by
  fun_induction spaced ps with
  | case1 => exact .nil
  | case2 p =>
      obtain ⟨literal, hlex⟩ := h p List.mem_cons_self
      have stands : (lexeme p.1 p.2).Stands [] := hlex.stands fun c hc => by cases hc
      have hcuts := Cuts.cons stands .nil
      rwa [List.append_nil] at hcuts
  | case3 p rest hne ih =>
      obtain ⟨⟨literal, hlex⟩, hrest⟩ := List.forall_mem_cons.mp h
      have hjoin : Bytes.join [32] ((p :: rest).map Prod.snd) =
          p.2 ++ ([32] ++ Bytes.join [32] (rest.map Prod.snd)) := by
        obtain ⟨q, rest, rfl⟩ := List.exists_cons_of_ne_nil hne
        exact List.append_assoc _ _ _
      rw [hjoin]
      have hstop : ∀ c ∈ ([32] ++ Bytes.join [32] (rest.map Prod.snd)).head?, c ∈ stops := by
        rintro c ⟨⟩
        decide
      exact .cons (hlex.stands hstop) (.cons (.blank (by decide)) (ih hrest))

end Segment

-- ==== Tokens without their lines

namespace Token

/-- What a token is, wherever it stands: its kind, its lexeme and its constant. -/
def content (t : Token) : Kind × Bytes × Literal := (t.kind, t.lexeme, t.literal)

end Token

open Segment (literalOf pairs)

/-- What a token is, apart from its line, is known from the kind and the text of its lexeme. -/
theorem contents_lexemes (line : Int) (segments : List Segment) :
    (Segment.lexemes line segments).map Token.content =
      (pairs segments).map fun p => (p.1, p.2, literalOf p.1 p.2) := by
  induction segments generalizing line with
  | nil => rfl
  | cons s rest ih =>
      rw [Segment.lexemes, List.map_append, ih]
      cases s <;> rfl

/-- The tokens are known from the lexemes, but for their lines. -/
theorem contents_tokens (line : Int) (segments : List Segment) :
    (Segment.tokens line segments).map Token.content =
      ((pairs segments).map fun p => (p.1, p.2, literalOf p.1 p.2)) ++ [(.eof, [], .nil)] := by
  rw [Segment.tokens_eq, List.map_append, contents_lexemes]
  rfl

/-- The texts of the tokens before the end are those of the lexemes. -/
theorem lexemes_scan (source : Bytes) :
    (((scan source).tokens.filter fun t => t.kind ≠ .eof).map Token.lexeme) =
      (pairs (Segment.split source)).map Prod.snd := by
  have hkeep : ((scan source).tokens.filter fun t => t.kind ≠ .eof) =
      Segment.lexemes 1 (Segment.split source) := by
    have hkind : ∀ t ∈ Segment.lexemes 1 (Segment.split source), t.kind ≠ .eof :=
      Segment.lexemes_kind fun s => Segment.ordinary_of_mem
    unfold scan
    dsimp only
    rw [Segment.tokens_eq, List.filter_append,
      List.filter_eq_self.mpr fun t ht => by simpa using hkind t ht]
    simp
  have hcontents := congrArg (List.map fun p : Kind × Bytes × Literal => p.2.1)
    (contents_lexemes 1 (Segment.split source))
  rw [List.map_map, List.map_map] at hcontents
  rw [hkeep]
  exact hcontents

/-- Scanning the lexemes of a script, with a space between each two, finds no fault and gives the
tokens of the script again, but for their lines. -/
theorem scan_lexemes (source : Bytes) :
    let written := Bytes.join (utf8 " ")
      (((scan source).tokens.filter fun t => t.kind ≠ .eof).map Token.lexeme)
    (scan written).diagnostics = [] ∧
      (scan written).tokens.map Token.content = (scan source).tokens.map Token.content := by
  intro written
  have hlexemes := Segment.lexeme_of_cuts (Segment.cuts_iff.mpr (Eq.refl (Segment.split source)))
  have hcut : Segment.split written = Segment.spaced (pairs (Segment.split source)) := by
    refine (Segment.Cuts.eq_split ?_).symm
    show Segment.Cuts (Bytes.join [32] _) _
    rw [lexemes_scan]
    exact Segment.cuts_spaced hlexemes
  unfold scan
  dsimp only
  rw [hcut]
  refine ⟨Segment.diagnostics_of_fault? (Segment.fault?_spaced _), ?_⟩
  rw [contents_tokens, contents_tokens, Segment.pairs_spaced]

end Lox
