/-
Where the prompt cuts a program.

# Whole programs

A program that is read without a diagnostic is whole: no segment of it is at fault, and brackets are
closed as they are opened (`Whole`, `whole_of_parse`). Of such a source only the brackets count
(`needsMore_of_clean`), and since they are all closed it needs no more.

# Line feeds

At a line feed inside a string, what stands before has a string open; at any other line feed it
leaves as many brackets open as are open there in the program (`Whole.break_cases`). In both cases
it needs more exactly if the line feed is no place to end (`Whole.needsMore_iff`). Where it does not
need more, both parts are whole (`Whole.parts`).

# One chunk

The prompt takes lines up to the first place where the source may end (`Shortest`,
`readChunk_lines`, by induction over the lines that are still to come). Every source that may end at
all has such a place (`exists_shortest`).

# Chunk after chunk

So the prompt goes on after a chunk as with a program of its own, and the cuts are found one after
the other (`Whole.readChunks`, by induction on the length of the source). After a whole program only
what follows counts (`Whole.needsMore_joined`), which is why the places where a chunk may end are
those of the program (`chunks_end_between_statements`).
-/
import Lox.Proofs.Reader.Nesting
import Lox.Proofs.Text.Split
import Lox.Proofs.Token.Break

namespace Lox

-- ==== Brackets, counted

namespace Kind

variable {d e : Nat} {a b kinds : List Kind}

/-- Does a token of this kind open a bracket? -/
def opens (k : Kind) : Bool := k = .leftParen ∨ k = .leftBrace

/-- Does a token of this kind close a bracket? -/
def closes (k : Kind) : Bool := k = .rightParen ∨ k = .rightBrace

/-- How many more brackets are opened than closed. -/
def excess : List Kind → Int
  | [] => 0
  | k :: kinds => k.nesting + excess kinds

/-- Brackets are counted on from one list to the next. -/
theorem excess_append (a b : List Kind) : excess (a ++ b) = excess a + excess b := by
  induction a with
  | nil => rw [List.nil_append, excess, Int.zero_add]
  | cons k a ih => rw [List.cons_append, excess, excess, ih, Int.add_assoc]

/-- It is the brackets that are opened without those that are closed. -/
theorem excess_eq (kinds : List Kind) :
    excess kinds = (kinds.countP opens : Int) - kinds.countP closes := by
  induction kinds with
  | nil => rfl
  | cons k kinds ih =>
      have hk : k.nesting =
          ((if opens k then 1 else 0 : Nat) : Int) - ((if closes k then 1 else 0 : Nat) : Int) := by
        cases k <;> rfl
      rw [excess, ih, hk, List.countP_cons, List.countP_cons]
      omega

/-- Brackets that are closed as they are opened lead from one depth to another. -/
theorem Climbs.excess_eq (h : Climbs d e kinds) : (e : Int) = d + excess kinds := by
  induction kinds generalizing d with
  | nil =>
      obtain rfl : d = e := h
      rw [excess, Int.add_zero]
  | cons k kinds ih =>
      obtain ⟨d', hmoves, hrest⟩ := h
      have hd : (d' : Int) = d + k.nesting := hmoves
      rw [ih hrest, excess, hd, Int.add_assoc]

end Kind

/-- The nesting of tokens is that of their kinds. -/
theorem foldl_nesting (ts : List Token) (n : Int) :
    ts.foldl (fun n t => n + t.kind.nesting) n = n + Kind.excess (ts.map Token.kind) := by
  induction ts generalizing n with
  | nil => rw [List.foldl_nil, List.map_nil, Kind.excess, Int.add_zero]
  | cons t ts ih => rw [List.foldl_cons, ih, List.map_cons, Kind.excess, Int.add_assoc]

-- ==== Sources that need more

namespace Segment

/-- A source needs more if it leaves a string open, or more brackets than it closes. -/
theorem needsMore_eq (source : Bytes) :
    needsMore source =
      (((split source).any fun s => s.fault? = some .unterminatedString) ||
        decide (0 < Kind.excess (kinds (split source)))) := by
  have hend : Kind.nesting .eof = 0 := rfl
  unfold needsMore scan
  dsimp only
  rw [any_diagnostics, foldl_nesting, tokens_eq, List.map_append, map_kind_lexemes,
    Kind.excess_append, List.map_singleton, Kind.excess, Kind.excess, hend, Int.add_zero, Int.add_zero,
    Int.zero_add]

end Segment

open Segment (split kinds kindsWithin covering? needsMore_eq)

/-- The place lies inside a string literal. -/
def InString (source : Bytes) (n : Nat) : Prop :=
  ∃ text, covering? n (split source) = some (.lexeme .string text)

/-- How many brackets were opened up to a place. Those inside strings and comments do not count. -/
def openedAt (source : Bytes) (n : Nat) : Nat := (kindsWithin n (split source)).countP Kind.opens

/-- How many brackets were closed up to a place. -/
def closedAt (source : Bytes) (n : Nat) : Nat := (kindsWithin n (split source)).countP Kind.closes

-- ==== Whole programs

/-- No segment is at fault, and brackets are closed as they are opened. -/
structure Whole (source : Bytes) : Prop where
  clean : ∀ s ∈ split source, s.fault? = none
  climbs : Kind.Climbs 0 0 (kinds (split source))

variable {source a b : Bytes}

/-- A program that is read without a diagnostic is whole. -/
theorem whole_of_parse {issued : Nat} {form : LoopForm} (hscan : (scan source).diagnostics = [])
    (hparse : (parse (scan source).tokens issued form).diagnostics = []) : Whole source := by
  refine ⟨Segment.fault?_of_diagnostics hscan, ?_⟩
  have hclimbs := parse_climbs hparse
  rw [body_scan, Segment.map_kind_lexemes] at hclimbs
  exact hclimbs

/-- Where no segment is at fault, no string is left open. -/
theorem any_unterminated_of_clean (h : ∀ s ∈ split source, s.fault? = none) :
    ((split source).any fun s => s.fault? = some .unterminatedString) = false := by
  rw [List.any_eq_false]
  intro s hs
  rw [h s hs]
  decide

/-- Where no segment is at fault, only the brackets count. -/
theorem needsMore_of_clean (h : ∀ s ∈ split source, s.fault? = none) :
    needsMore source = decide (0 < Kind.excess (kinds (split source))) := by
  rw [needsMore_eq, any_unterminated_of_clean h, Bool.false_or]

/-- A string that is left open needs more. -/
theorem needsMore_of_openString {t : Bytes} (h : .openString t ∈ split source) :
    needsMore source = true := by
  have hany : ((split source).any fun s => s.fault? = some .unterminatedString) = true :=
    List.any_eq_true.mpr ⟨_, h, rfl⟩
  rw [needsMore_eq, hany, Bool.true_or]

namespace Whole

/-- A whole program needs no more. -/
theorem needsMore (h : Whole source) : needsMore source = false := by
  have hexcess := h.climbs.excess_eq
  rw [needsMore_of_clean h.clean]
  apply decide_eq_false
  omega

/-- The two places that a line feed may have. Inside a string, the text before it has a string open.
Anywhere else it is a blank of its own, so the segments of the program are those before it and those
after it. -/
theorem break_cases (h : Whole (joined a b)) :
    (InString (joined a b) a.length ∧ Lox.needsMore a = true) ∨
      ¬InString (joined a b) a.length ∧
        kindsWithin a.length (split (joined a b)) = kinds (split a) ∧
        ∃ d, (∀ s ∈ split a, s.fault? = none) ∧ (∀ s ∈ split b, s.fault? = none) ∧
          Kind.Climbs 0 d (kinds (split a)) ∧ Kind.Climbs d 0 (kinds (split b)) := by
  rcases Segment.split_break h.clean with ⟨ha, hb, hcut⟩ | ⟨⟨t, hopen⟩, hstring⟩
  · have hlen : ((split a).flatMap Segment.text).length = a.length :=
      congrArg List.length (Segment.text_split a)
    have hcovers : covering? a.length (split (joined a b)) = some (.blank Bytes.lineFeed) := by
      rw [hcut]
      refine Segment.covering?_append (Nat.le_of_eq hlen) ?_
      rw [hlen]
      exact Nat.lt_succ_self _
    have hwithin : kindsWithin a.length (split (joined a b)) = kinds (split a) := by
      rw [hcut, ← hlen]
      exact Segment.kindsWithin_append (List.cons_ne_nil _ _)
    obtain ⟨d, hda, hdb⟩ :
        ∃ d, Kind.Climbs 0 d (kinds (split a)) ∧ Kind.Climbs d 0 (kinds (split b)) := by
      have hclimbs := h.climbs
      rw [hcut, Segment.kinds_append] at hclimbs
      exact hclimbs.cut
    refine .inr ⟨?_, hwithin, d, ha, hb, hda, hdb⟩
    rintro ⟨text, htext⟩
    rw [hcovers] at htext
    cases htext
  · exact .inl ⟨hstring, needsMore_of_openString hopen⟩

/-- What stands before a line feed needs more, unless the line feed is a place to end. -/
theorem needsMore_iff (h : Whole (joined a b)) :
    Lox.needsMore a = false ↔
      ¬InString (joined a b) a.length ∧
        openedAt (joined a b) a.length = closedAt (joined a b) a.length := by
  rcases h.break_cases with ⟨hin, hmore⟩ | ⟨hout, hwithin, d, ha, -, hclimbs, -⟩
  · rw [hmore]
    exact iff_of_false Bool.noConfusion fun hout => hout.1 hin
  · have hexcess := hclimbs.excess_eq
    have hcount := Kind.excess_eq (kinds (split a))
    rw [needsMore_of_clean ha, decide_eq_false_iff_not, openedAt, closedAt, hwithin]
    constructor
    · intro hnot
      exact ⟨hout, by omega⟩
    · rintro ⟨-, heq⟩
      omega

/-- Where a program may be cut, both parts are whole. -/
theorem parts (h : Whole (joined a b)) (hdone : Lox.needsMore a = false) : Whole a ∧ Whole b := by
  rcases h.break_cases with ⟨-, hmore⟩ | ⟨-, -, d, ha, hb, hda, hdb⟩
  · rw [hmore] at hdone
    cases hdone
  · have hexcess := hda.excess_eq
    rw [needsMore_of_clean ha, decide_eq_false_iff_not] at hdone
    obtain rfl : d = 0 := by omega
    exact ⟨⟨ha, hda⟩, hb, hdb⟩

/-- After a whole program only what follows counts. -/
theorem needsMore_joined (ha : Whole a) (b : Bytes) :
    Lox.needsMore (joined a b) = Lox.needsMore b := by
  have hexcess := ha.climbs.excess_eq
  have hzero : Kind.excess (kinds (split a)) = 0 := by omega
  have hblank : kinds (.blank Bytes.lineFeed :: split b) = kinds (split b) := rfl
  rw [needsMore_eq, needsMore_eq, Segment.split_join_of_clean b ha.clean, List.any_append,
    any_unterminated_of_clean ha.clean, Bool.false_or, Segment.kinds_append, Kind.excess_append,
    hzero, Int.zero_add, hblank]
  rfl

end Whole

-- ==== Line feeds

/-- Two ways to cut a text at a line feed: at the same one, or one before the other. -/
theorem joined_eq_joined {a b c d : Bytes} (h : joined a b = joined c d) :
    (a = c ∧ b = d) ∨ (∃ m, a = joined c m ∧ d = joined m b) ∨
      ∃ m, c = joined a m ∧ b = joined m d := by
  rcases List.append_eq_append_iff.mp h with ⟨m, rfl, hm⟩ | ⟨m, rfl, hm⟩
  all_goals
    cases m with
    | nil =>
        rw [List.nil_append] at hm
        injection hm with _ hrest
        subst hrest
        exact .inl ⟨by rw [List.append_nil], rfl⟩
    | cons x m =>
        rw [List.cons_append] at hm
        injection hm with hx hrest
        subst hx hrest
        first
        | exact .inr (.inr ⟨m, rfl, rfl⟩)
        | exact .inr (.inl ⟨m, rfl, rfl⟩)

/-- It does not matter in which order texts are joined. -/
theorem joined_assoc (a b c : Bytes) : joined (joined a b) c = joined a (joined b c) := by
  show (a ++ _ :: b) ++ _ :: c = a ++ _ :: (b ++ _ :: c)
  rw [List.append_assoc, List.cons_append]

/-- A line feed stands between the two texts. -/
theorem length_joined (a b : Bytes) : (joined a b).length = a.length + (b.length + 1) :=
  List.length_append

/-- Lines, with line feeds between them. -/
abbrev unlines (lines : List Bytes) : Bytes := Bytes.join [Bytes.lineFeed] lines

/-- The first line, and the others below it. -/
theorem unlines_cons (line : Bytes) {lines : List Bytes} (h : lines ≠ []) :
    unlines (line :: lines) = joined line (unlines lines) := by
  cases lines with
  | nil => exact absurd rfl h
  | cons next lines =>
      show line ++ [Bytes.lineFeed] ++ _ = line ++ Bytes.lineFeed :: _
      rw [List.append_assoc]
      rfl

/-- The first line is a part of the text. -/
theorem length_le_unlines (line : Bytes) (lines : List Bytes) :
    line.length ≤ (unlines (line :: lines)).length := by
  by_cases h : lines = []
  · subst h
    exact Nat.le_refl _
  · rw [unlines_cons line h, length_joined]
    exact Nat.le_add_right _ _

/-- A text is its lines, joined again. -/
theorem unlines_splitOn (text : Bytes) : unlines (Bytes.splitOn Bytes.lineFeed text) = text := by
  induction text with
  | nil => rfl
  | cons c text ih =>
      have hne := Bytes.splitOn_ne_nil Bytes.lineFeed text
      by_cases h : c = Bytes.lineFeed
      · rw [h, Bytes.splitOn_cons_self, unlines_cons _ hne, ih]
        rfl
      · obtain ⟨piece, others, hsplit⟩ := List.exists_cons_of_ne_nil hne
        rw [Bytes.splitOn_cons_of_ne h hsplit]
        rw [hsplit] at ih
        by_cases hothers : others = []
        · subst hothers
          exact congrArg (c :: ·) ih
        · rw [unlines_cons _ hothers] at ih ⊢
          exact congrArg (c :: ·) ih

-- ==== One chunk

/-- No line feed before the end is a place where the source could end. -/
def Shortest (source : Bytes) : Prop :=
  needsMore source = false ∧ ∀ a b, source = joined a b → needsMore a = true

/-- An empty source needs no more. -/
theorem needsMore_nil : needsMore [] = false := rfl

/-- A source that needs more is not empty. -/
theorem source_isEmpty {p : OpenChunk} (h : needsMore p.source = true) : p.source.isEmpty = false := by
  by_cases hp : p.source = []
  · rw [hp, needsMore_nil] at h
    cases h
  · exact List.isEmpty_eq_false_iff.mpr hp

/-- A line is put below a source that is open, and it may end it. -/
theorem step_pending {prompts : Prompts} {p : OpenChunk} (h : needsMore p.source = true)
    (line : Bytes) :
    p.step prompts (.line line) =
      if needsMore (joined p.source line) then
        .inl ⟨joined p.source line, p.shown ++ [prompts.further]⟩
      else .inr ⟨joined p.source line, true, p.shown ++ [prompts.further]⟩ := by
  have hprompt : p.prompt prompts = prompts.further := by
    rw [OpenChunk.prompt, source_isEmpty h, if_neg Bool.false_ne_true]
  have hline : p.withLine line = joined p.source line := by
    rw [OpenChunk.withLine, source_isEmpty h, if_neg Bool.false_ne_true, List.append_assoc]
    rfl
  rw [← hprompt, ← hline]
  rfl

/-- A pending chunk takes lines up to the first that ends it, and shows the prompt for further lines
before each of them. By induction over the lines that are still to be taken. -/
theorem readChunk_pending {prompts : Prompts} {p : OpenChunk} {lines : List Bytes}
    (rest : List Bytes) (hne : lines ≠ []) (hp : needsMore p.source = true)
    (h : Shortest (joined p.source (unlines lines))) :
    readChunk prompts p ((lines ++ rest).map .line) =
      (⟨joined p.source (unlines lines), true,
        p.shown ++ List.replicate lines.length prompts.further⟩, rest.map .line) := by
  induction lines generalizing p with
  | nil => exact absurd rfl hne
  | cons line lines ih =>
      rw [List.cons_append, List.map_cons, readChunk, step_pending hp]
      by_cases hlines : lines = []
      · subst hlines
        have hdone : needsMore (joined p.source line) = false := h.1
        rw [hdone, if_neg Bool.false_ne_true]
        rfl
      · rw [unlines_cons line hlines, ← joined_assoc] at h ⊢
        have hmore : needsMore (joined p.source line) = true := h.2 _ _ rfl
        rw [hmore, if_pos rfl]
        refine (ih hlines hmore h).trans ?_
        rw [List.append_assoc, List.length_cons, List.replicate_succ]
        rfl

/-- A chunk is the lines up to the first place where the source may end. The first line is asked for
with a prompt of its own, and the others are taken by `readChunk_pending`. -/
theorem readChunk_lines (prompts : Prompts) {source : Bytes} (rest : List Bytes)
    (h : Shortest source) :
    readChunk prompts {} ((Bytes.splitOn Bytes.lineFeed source ++ rest).map .line) =
      (⟨source, true, prompts.first ::
        List.replicate ((Bytes.splitOn Bytes.lineFeed source).length - 1) prompts.further⟩,
        rest.map .line) := by
  have hsource := unlines_splitOn source
  obtain ⟨line, lines, hsplit⟩ :=
    List.exists_cons_of_ne_nil (Bytes.splitOn_ne_nil Bytes.lineFeed source)
  rw [hsplit] at hsource ⊢
  have hstep : OpenChunk.step prompts {} (.line line) =
      if needsMore line then .inl ⟨line, [prompts.first]⟩ else .inr ⟨line, true, [prompts.first]⟩ := rfl
  rw [List.cons_append, List.map_cons, readChunk, hstep]
  by_cases hlines : lines = []
  · subst hlines
    obtain rfl : line = source := hsource
    rw [h.1, if_neg Bool.false_ne_true]
    rfl
  · rw [unlines_cons line hlines] at hsource
    subst hsource
    have hmore : needsMore line = true := h.2 _ _ rfl
    rw [hmore, if_pos rfl]
    exact readChunk_pending rest hlines hmore h

/-- A source that may end has a shortest front that may. -/
theorem exists_shortest (h : needsMore source = false) :
    ∃ front, Shortest front ∧ (source = front ∨ ∃ rest, source = joined front rest) := by
  induction hn : source.length using Nat.strongRecOn generalizing source with
  | ind n ih =>
      by_cases hcut : ∃ a b, source = joined a b ∧ needsMore a = false
      · obtain ⟨a, b, rfl, ha⟩ := hcut
        have hlen := length_joined a b
        obtain ⟨front, hfront, hfit⟩ := ih a.length (by omega) ha rfl
        rcases hfit with rfl | ⟨rest, rfl⟩
        · exact ⟨a, hfront, .inr ⟨b, rfl⟩⟩
        · exact ⟨front, hfront, .inr ⟨joined rest b, joined_assoc _ _ _⟩⟩
      · refine ⟨source, ⟨h, ?_⟩, .inl rfl⟩
        intro a b hab
        cases hmore : needsMore a with
        | false => exact absurd ⟨a, b, hab, hmore⟩ hcut
        | true => rfl

-- ==== Chunk after chunk

namespace Chunk

/-- The sources of chunks, with line feeds between them. -/
def sources (chunks : List Chunk) : Bytes := unlines (chunks.map Chunk.source)

/-- One of the chunks ends where `before` does, and the next one begins with `after`. -/
def EndsAt (chunks : List Chunk) (before after : Bytes) : Prop :=
  ∃ front back, chunks = front ++ back ∧ front ≠ [] ∧ back ≠ [] ∧
    sources front = before ∧ sources back = after

variable {c : Chunk} {chunks : List Chunk} {before after : Bytes}

/-- The source of the first chunk, and those of the others below it. -/
theorem sources_cons (c : Chunk) (h : chunks ≠ []) :
    sources (c :: chunks) = joined c.source (sources chunks) :=
  unlines_cons c.source fun hmap => h (List.map_eq_nil_iff.mp hmap)

/-- No chunk ends within the first one. -/
theorem EndsAt.length_le (h : EndsAt (c :: chunks) before after) :
    c.source.length ≤ before.length := by
  obtain ⟨front, back, hcut, hfront, -, rfl, -⟩ := h
  obtain ⟨c', front, rfl⟩ := List.exists_cons_of_ne_nil hfront
  rw [List.cons_append] at hcut
  injection hcut with hc _
  subst hc
  exact length_le_unlines _ _

/-- A single chunk ends nowhere before its end. -/
theorem not_endsAt_single : ¬EndsAt [c] before after := by
  rintro ⟨front, back, hcut, hfront, hback, -, -⟩
  have hlen := congrArg List.length hcut
  have hf := List.length_pos_of_ne_nil hfront
  have hb := List.length_pos_of_ne_nil hback
  rw [List.length_append, List.length_singleton] at hlen
  omega

/-- The first chunk ends before the others begin. -/
theorem endsAt_first (h : chunks ≠ []) : EndsAt (c :: chunks) c.source (sources chunks) :=
  ⟨[c], chunks, rfl, List.cons_ne_nil _ _, h, rfl, rfl⟩

/-- After the first chunk, the others end where they do by themselves. -/
theorem endsAt_cons :
    EndsAt (c :: chunks) (joined c.source before) after ↔ EndsAt chunks before after := by
  constructor
  · rintro ⟨front, back, hcut, hfront, hback, hbefore, hafter⟩
    obtain ⟨c', front, rfl⟩ := List.exists_cons_of_ne_nil hfront
    rw [List.cons_append] at hcut
    injection hcut with hc hrest
    subst hc
    by_cases hnil : front = []
    · subst hnil
      have hlen : c.source.length = (joined c.source before).length := congrArg List.length hbefore
      rw [length_joined] at hlen
      omega
    · rw [sources_cons c hnil] at hbefore
      have hsame := List.append_cancel_left hbefore
      injection hsame with _ hsame
      exact ⟨front, back, hrest, hnil, hback, hsame, hafter⟩
  · rintro ⟨front, back, rfl, hfront, hback, rfl, hafter⟩
    exact ⟨c :: front, back, rfl, List.cons_ne_nil _ _, hback, sources_cons c hfront, hafter⟩

end Chunk

/-- The shortest front that may end is the first chunk. -/
theorem readChunks_lines (prompts : Prompts) {source : Bytes} (rest : List Bytes)
    (h : Shortest source) :
    readChunks prompts ((Bytes.splitOn Bytes.lineFeed source ++ rest).map .line) =
      ⟨source, true, prompts.first ::
        List.replicate ((Bytes.splitOn Bytes.lineFeed source).length - 1) prompts.further⟩ ::
        readChunks prompts (rest.map .line) := by
  have hne : ¬((Bytes.splitOn Bytes.lineFeed source ++ rest).map Answer.line).isEmpty = true := by
    intro hnil
    have hlines := List.map_eq_nil_iff.mp (List.isEmpty_iff.mp hnil)
    exact Bytes.splitOn_ne_nil _ _ (List.append_eq_nil_iff.mp hlines).1
  rw [readChunks, if_neg hne, readChunk_lines prompts rest h]

/-- Without answers there is one chunk, and it is the end. -/
theorem readChunks_nil (prompts : Prompts) :
    readChunks prompts [] = [⟨[], false, [prompts.first]⟩] := by
  rw [readChunks, List.isEmpty_nil, if_pos rfl]
  rfl

/-- The lines of a whole program are read as chunks that end wherever the program may. By induction
on the length of the source: the shortest front that may end is the first chunk, and what comes
after it is whole and shorter. -/
theorem Whole.readChunks (prompts : Prompts) (h : Whole source) :
    ∃ chunks : List Chunk,
      readChunks prompts ((Bytes.splitOn Bytes.lineFeed source).map .line) =
        chunks ++ [⟨[], false, [prompts.first]⟩] ∧
      chunks ≠ [] ∧ (∀ c ∈ chunks, c.ok = true ∧ Lox.needsMore c.source = false) ∧
      Chunk.sources chunks = source ∧
      ∀ before after, source = joined before after →
        (Chunk.EndsAt chunks before after ↔ Lox.needsMore before = false) := by
  induction hn : source.length using Nat.strongRecOn generalizing source with
  | ind n ih =>
      obtain ⟨front, hfront, hfit⟩ := exists_shortest h.needsMore
      rcases hfit with rfl | ⟨rest, rfl⟩
      · have hread := readChunks_lines prompts [] hfront
        rw [List.append_nil, List.map_nil, readChunks_nil] at hread
        refine ⟨[_], hread, List.cons_ne_nil _ _, ?_, rfl, ?_⟩
        · intro c hc
          rw [List.mem_singleton.mp hc]
          exact ⟨rfl, hfront.1⟩
        · intro before after hcut
          rw [hfront.2 before after hcut]
          exact iff_of_false Chunk.not_endsAt_single Bool.noConfusion
      · obtain ⟨hwhole, hrest⟩ := h.parts hfront.1
        have hlen := length_joined front rest
        obtain ⟨chunks, hchunks, hne, hall, hsources, hends⟩ := ih rest.length (by omega) hrest rfl
        have hread := readChunks_lines prompts (Bytes.splitOn Bytes.lineFeed rest) hfront
        rw [← Bytes.splitOn_append, hchunks] at hread
        refine ⟨_ :: chunks, hread, List.cons_ne_nil _ _, ?_, ?_, ?_⟩
        · intro c hc
          rcases List.mem_cons.mp hc with rfl | hc
          · exact ⟨rfl, hfront.1⟩
          · exact hall c hc
        · rw [Chunk.sources_cons _ hne, hsources]
        · intro before after hcut
          -- The line feed is the one after the first chunk, one within that chunk, or a later one.
          rcases joined_eq_joined hcut with ⟨rfl, rfl⟩ | ⟨m, hm, -⟩ | ⟨m, rfl, hm⟩
          · refine iff_of_true ?_ hfront.1
            rw [← hsources]
            exact Chunk.endsAt_first hne
          · rw [hfront.2 before m hm]
            refine iff_of_false ?_ Bool.noConfusion
            intro hend
            have hle : front.length ≤ before.length := hend.length_le
            have hlonger := length_joined before m
            rw [← hm] at hlonger
            omega
          · rw [hwhole.needsMore_joined]
            exact Chunk.endsAt_cons.trans (hends m after hm)

/-- The prompt cuts a program that is read without a diagnostic where it may be cut, and nowhere
else: at the line feeds outside strings up to which as many brackets were closed as opened. No chunk
is left waiting. -/
theorem chunks_end_between_statements (prompts : Prompts) {source : Bytes} {issued : Nat}
    {form : LoopForm} (hscan : (scan source).diagnostics = [])
    (hparse : (parse (scan source).tokens issued form).diagnostics = []) :
    needsMore source = false ∧
      ∃ chunks : List Chunk,
        readChunks prompts ((Bytes.splitOn Bytes.lineFeed source).map .line) =
          chunks ++ [⟨[], false, [prompts.first]⟩] ∧
        (∀ c ∈ chunks, c.ok = true ∧ needsMore c.source = false) ∧
        Chunk.sources chunks = source ∧
        ∀ before after, source = joined before after →
          (Chunk.EndsAt chunks before after ↔
            ¬InString source before.length ∧
              openedAt source before.length = closedAt source before.length) := by
  have hwhole := whole_of_parse hscan hparse
  obtain ⟨chunks, hread, -, hall, hsources, hends⟩ := hwhole.readChunks prompts
  refine ⟨hwhole.needsMore, chunks, hread, hall, hsources, ?_⟩
  intro before after hcut
  rw [hends before after hcut]
  subst hcut
  exact hwhole.needsMore_iff

/-- A function over three lines, with a bracket in a comment, and a string over two. -/
theorem chunks_end_between_statements_function :
    let prompts : Prompts := ⟨utf8 "> ", utf8 "| "⟩
    let source := utf8 "fun f(a) \x7b\n  return a; // (\n\x7d\nprint \"(\n\";"
    (scan source).diagnostics = [] ∧ (parse (scan source).tokens 0 .compact).diagnostics = [] ∧
      needsMore source = false ∧
      ∃ chunks : List Chunk,
        readChunks prompts ((Bytes.splitOn Bytes.lineFeed source).map .line) =
          chunks ++ [⟨[], false, [prompts.first]⟩] ∧
        (∀ c ∈ chunks, c.ok = true ∧ needsMore c.source = false) ∧
        Chunk.sources chunks = source ∧
        ∀ before after, source = joined before after →
          (Chunk.EndsAt chunks before after ↔
            ¬InString source before.length ∧
              openedAt source before.length = closedAt source before.length) := by
  intro prompts source
  have hscan : (scan source).diagnostics = [] := by decide +kernel
  have hparse : (parse (scan source).tokens 0 .compact).diagnostics = [] := by decide +kernel
  exact ⟨hscan, hparse, chunks_end_between_statements prompts hscan hparse⟩

end Lox
