/-
Every byte of a script is accounted for.

# What may stand where

`Stands` says of each form of segment what it looks like and what may follow it, without reference
to how segments are found: a lexeme is one of the lexical rules (`Lexeme`) and there is no longer one
at its place; a blank is one of four bytes; a comment is two slashes and the rest of the line; an
unexpected character is one character of the text, or one byte that belongs to none, where nothing
else starts; and an open string is a quote with no other up to the end. `Cuts` says that a text is a
sequence of segments each of which may stand where it does.

# One way to cut

A text can be cut in one way only, and that is how it is cut (`cuts_iff`). This has two halves.

- The front of a text has a form (`front_stands`), with one lemma for each class of first byte:
  `single_stands`, `operator_stands`, `slash_stands`, `string_stands`, `number_stands`,
  `word_stands`, `unexpected_stands`.
- Forms do not overlap (`Stands.unique`). What sets off a form is whether a lexeme is at the front,
  whether two slashes are, and what the first byte is (`Marked`, `Stands.marked`). Within a form the
  segment is told by the text: lexemes by being longest, comments by where the line ends, characters
  by the encoding.

# What is reported

`Reports` says which tokens and diagnostics a list of segments comes to, form by form: a lexeme gives
a token with its kind, its text and the constant that it carries; a character that is unexpected and
a string that is open give a diagnostic each, with its wording; blanks and comments give nothing; and
the end gives the last token. Lines are counted from the text itself: each line is 1 and the number
of line feeds up to the end of the segment (`lineAfter`). The scanner does not count from the start
for each segment but adds up as it goes (`endLine_lineAfter`), and has tables of its own for tokens
and wordings; that they come to the same is `reports_of_cuts`, by induction over the cut.
-/
import Lox.Proofs.Text.Utf8
import Lox.Proofs.Token.Join
import Lox.Proofs.Token.Lexeme

namespace Lox

namespace Segment

-- ==== What stands at the front of a text

/-- Space, carriage return, tab and line feed. -/
def blanks : List UInt8 := [32, 13, 9, 10]

/-- The segment may stand at the front of a text that goes on with `rest` after it. This is said in
terms of what lexemes there are, and does not mention how a text is cut. -/
inductive Stands : Segment → Bytes → Prop where
  /-- A lexeme, with none longer at the front of the text. Two slashes are no lexeme. -/
  | lexeme {kind : Kind} {text rest : Bytes} {literal : Literal} (lexeme : Lexeme kind text literal)
      (longest : ∀ kind' text' literal', Lexeme kind' text' literal' → text' <+: text ++ rest →
        text'.length ≤ text.length)
      (plain : ¬[47, 47] <+: text ++ rest) : Stands (.lexeme kind text) rest
  | blank {b : UInt8} {rest : Bytes} (h : b ∈ blanks) : Stands (.blank b) rest
  /-- Two slashes, and the rest of the line. -/
  | comment {body rest : Bytes} (line : 10 ∉ body) (ends : ∀ c ∈ rest.head?, c = 10) :
      Stands (.comment (47 :: 47 :: body)) rest
  /-- One character, or one byte that is no part of one, where no other segment starts. -/
  | unexpected {g : Glyph} {rest : Bytes} (leads : g.Leads (g.bytes ++ rest))
      (none : ∀ kind text literal, Lexeme kind text literal → ¬text <+: g.bytes ++ rest)
      (first : ∀ b ∈ (g.bytes ++ rest).head?, b ∉ 34 :: blanks) : Stands (.unexpected g.bytes) rest
  /-- A quote, and no other up to the end. -/
  | openString {body : Bytes} (h : 34 ∉ body) : Stands (.openString (34 :: body)) []

variable {b : UInt8} {t rest after : Bytes} {kind : Kind}

-- ==== The front of a text

/-- Two slashes start with a slash. -/
theorem plain_of_ne (h : b ≠ 47) : ¬[47, 47] <+: b :: rest :=
  fun hpre => h (List.cons_prefix_cons.mp hpre).1.symm

/-- A mark of one byte stands where it is found, if no operator of two bytes starts with it. -/
theorem single_stands (h : (kind, [b]) ∈ operators) (alone : ∀ p ∈ operators, p.2 ≠ [b, 61])
    (plain : ¬[47, 47] <+: [b] ++ after) : (lexeme kind [b]).Stands after := by
  obtain ⟨hd, ha, hq, -⟩ := first_of_operators h
  refine .lexeme (.operator h) (fun kind' text' literal lexeme hpre => ?_) plain
  obtain ⟨hmem, rfl | ⟨rfl, -⟩⟩ := operator_longest hd ha hq lexeme hpre
  · exact Nat.le_refl 1
  · exact absurd rfl (alone _ hmem)

/-- An operator that may be followed by an equals sign: with one it is of two bytes, else of one,
and either way it is the longest there. -/
theorem operator_stands {single double : Kind} (hs : (single, [b]) ∈ operators)
    (hdouble : (double, [b, 61]) ∈ operators) (hslash : b ≠ 47)
    (hcut : (operator b rest single double).text ++ after = b :: rest) :
    (operator b rest single double).Stands after := by
  obtain ⟨hd, ha, hq, -⟩ := first_of_operators hs
  revert hcut
  unfold operator
  split
  next more =>
    intro hcut
    refine .lexeme (.operator hdouble) (fun kind' text' literal lexeme hpre => ?_)
      (plain_of_ne hslash)
    rcases (operator_longest hd ha hq lexeme hpre).2 with rfl | ⟨rfl, -⟩
    · exact Nat.le_succ 1
    · exact Nat.le_refl 2
  next hno =>
    intro hcut
    obtain rfl : after = rest := (List.cons.inj hcut).2
    refine .lexeme (.operator hs) (fun kind' text' literal lexeme hpre => ?_)
      (plain_of_ne hslash)
    rcases (operator_longest hd ha hq lexeme hpre).2 with rfl | ⟨-, more, hmore⟩
    · exact Nat.le_refl 1
    · exact absurd hmore (hno more)

/-- No byte of a run ends it, and what is left of the text starts with one that does. -/
theorem run_spec {p : UInt8 → Bool} (hcut : rest.takeWhile p ++ after = rest) :
    (∀ c ∈ rest.takeWhile p, p c = true) ∧ ∀ c ∈ after.head?, p c = false := by
  have hafter : after = rest.dropWhile p :=
    List.append_cancel_left (hcut.trans List.takeWhile_append_dropWhile.symm)
  refine ⟨List.all_eq_true.mp List.all_takeWhile, fun c hc => ?_⟩
  have hnot := List.head?_dropWhile_not p rest
  rw [← hafter, show after.head? = some c from hc] at hnot
  exact hnot

/-- Two slashes are a comment up to the end of the line, and one is an operator. -/
theorem slash_stands (hcut : (slashFrom rest).text ++ after = 47 :: rest) :
    (slashFrom rest).Stands after := by
  revert hcut
  unfold slashFrom
  split
  next more =>
    intro hcut
    have hline : more.takeWhile (· != 10) ++ after = more := by
      simpa [text, Bytes.lineFeed] using hcut
    obtain ⟨hin, hend⟩ := run_spec hline
    refine .comment (fun hmem => ?_) fun c hc => ?_
    · exact absurd (hin _ hmem) (by decide)
    · simpa using hend c hc
  next hno =>
    intro hcut
    obtain rfl : after = rest := (List.cons.inj hcut).2
    refine single_stands (by decide) (by decide) fun hpre => ?_
    obtain ⟨more, hmore⟩ := (List.cons_prefix_cons.mp hpre).2
    exact hno more hmore.symm

/-- A quote starts a string up to the next quote, or else one that is open up to the end. No longer
lexeme is there, since a string has no quote inside. -/
theorem string_stands (hcut : (stringFrom rest).text ++ after = 34 :: rest) :
    (stringFrom rest).Stands after := by
  have hnot : 34 ∉ rest.takeWhile (· != 34) := by
    intro hmem
    have := List.all_eq_true.mp List.all_takeWhile _ hmem
    exact absurd this (by decide)
  revert hcut
  unfold stringFrom
  dsimp only
  split
  next hlt =>
    intro hcut
    refine .lexeme (.string hnot) (fun kind' text' literal lexeme hpre => ?_)
      (plain_of_ne (by decide))
    rw [show 34 :: rest.takeWhile (· != 34) ++ [34] ++ after = 34 :: rest from hcut] at hpre
    obtain ⟨inside, more, hinside, rfl, rfl⟩ := string_longest lexeme hpre
    have hrun : ∀ c ∈ inside, (c != 34) = true :=
      fun c hc => bne_iff_ne.mpr fun h => hinside (h ▸ hc)
    have hsame := (takeWhile_run hrun (34 :: more) (by rintro c ⟨⟩; rfl)).1
    exact Nat.le_of_eq (by rw [hsame])
  next hle =>
    intro hcut
    obtain rfl : after = [] := by simpa [text] using hcut
    have hall : rest.takeWhile (· != 34) = rest :=
      (List.takeWhile_prefix _).eq_of_length_le (Nat.le_of_not_lt hle)
    exact .openString (hall ▸ hnot)

/-- A digit starts the longest number that is there. -/
theorem number_stands (hb : Bytes.isDigit b = true)
    (hcut : numberText (b :: rest) ++ after = b :: rest) :
    (lexeme .number (numberText (b :: rest))).Stands after := by
  obtain ⟨literal, hlex⟩ := (isNumber_numberText hb rest).lexeme
  refine .lexeme hlex (fun kind' text' literal' lexeme hpre => ?_) ?_
  · exact number_longest hb lexeme (hcut ▸ hpre)
  · rw [hcut]
    refine plain_of_ne ?_
    rintro rfl
    cases hb

/-- A letter starts the longest word that is there. -/
theorem word_stands (hb : Bytes.isAlpha b = true)
    (hcut : b :: rest.takeWhile Bytes.isWordByte ++ after = b :: rest) :
    (lexeme (.ofWord (b :: rest.takeWhile Bytes.isWordByte))
      (b :: rest.takeWhile Bytes.isWordByte)).Stands after := by
  have hword : Word (b :: rest.takeWhile Bytes.isWordByte) := by
    refine word_iff.mpr
      ⟨⟨b, rfl, hb⟩, List.forall_mem_cons.mpr ⟨?_, List.all_eq_true.mp List.all_takeWhile⟩⟩
    rw [Bytes.isWordByte, hb, Bool.true_or]
  refine .lexeme (lexeme_of_word hword) (fun kind' text' literal lexeme hpre => ?_) ?_
  · exact word_longest hb lexeme (hcut ▸ hpre)
  · rw [hcut]
    refine plain_of_ne ?_
    rintro rfl
    cases hb

/-- The characters that a segment of another form starts with, but for digits and letters. -/
def marks : List Char :=
  ['(', ')', '{', '}', ',', '.', '-', '+', ';', '*', '!', '=', '<', '>', '/', ' ', '\r', '\t', '\n',
    '"']

/-- Any other byte starts a character that is unexpected. -/
theorem unexpected_stands (hmark : Char.ofUInt8 b ∉ marks) (hd : Bytes.isDigit b = false)
    (ha : Bytes.isAlpha b = false)
    (hcut : (b :: rest).take (Utf8.front b rest).width ++ after = b :: rest) :
    (unexpected ((b :: rest).take (Utf8.front b rest).width)).Stands after := by
  have hfirst : b ∉ 34 :: blanks := by
    have hall : (34 :: blanks).all (fun c => decide (Char.ofUInt8 c ∈ marks)) = true := by decide
    exact fun hb => hmark (of_decide_eq_true (List.all_eq_true.mp hall b hb))
  have leads : (Utf8.front b rest).Leads (b :: rest) := Glyph.leads_iff.mpr rfl
  rw [leads.take] at hcut ⊢
  refine .unexpected (hcut ▸ leads) (fun kind text literal lexeme hpre => ?_) fun c hc => ?_
  · rw [hcut] at hpre
    obtain ⟨t, rfl, -⟩ := lexeme.cons_of_prefix hpre
    have hall : ∀ p ∈ operators, Char.ofUInt8 (p.2.headD 0) ∈ marks := by decide
    have hmem := lexeme.mem_operators hd ha fun h => hfirst (h ▸ List.mem_cons_self)
    exact hmark (hall _ hmem)
  · rw [hcut] at hc
    obtain rfl : b = c := Option.some.inj hc
    exact hfirst

/-- The first segment of a text may stand there, with one case for each way the text may begin. What
is looked at is the first byte, and for some bytes what comes after it. -/
theorem front_stands (hcut : (front b rest).text ++ after = b :: rest) :
    (front b rest).Stands after := by
  revert hcut
  unfold front
  split
  case h_1 h | h_2 h | h_3 h | h_4 h | h_5 h | h_6 h | h_7 h | h_8 h | h_9 h | h_10 h =>
    intro _
    obtain rfl := eq_of_ofUInt8 h
    exact single_stands (by decide) (by decide) (plain_of_ne (by decide))
  case h_11 h | h_12 h | h_13 h | h_14 h =>
    intro hcut
    obtain rfl := eq_of_ofUInt8 h
    exact operator_stands (by decide) (by decide) (by decide) hcut
  case h_15 h =>
    intro hcut
    obtain rfl : b = 47 := eq_of_ofUInt8 h
    exact slash_stands hcut
  case h_16 h | h_17 h | h_18 h | h_19 h =>
    intro _
    obtain rfl := eq_of_ofUInt8 h
    exact .blank (by decide)
  case h_20 h =>
    intro hcut
    obtain rfl : b = 34 := eq_of_ofUInt8 h
    exact string_stands hcut
  next =>
    split
    next hd => exact number_stands hd
    next hd =>
      split
      next ha => exact word_stands ha
      next ha =>
        refine unexpected_stands ?_ (Bool.eq_false_iff.mpr hd) (Bool.eq_false_iff.mpr ha)
        simp_all [marks]

-- ==== Forms do not overlap

/-- A lexeme is at the front of the text. -/
def Begins (text : Bytes) : Prop :=
  ∃ kind t literal, Lexeme kind t literal ∧ t <+: text

/-- What sets off the form of a segment from the others, at the front of a text. The five cases
exclude each other, and `Begins` is the only one of them that speaks of lexemes. -/
def Marked (text : Bytes) : Segment → Prop
  | lexeme _ _ => Begins text ∧ ¬[47, 47] <+: text
  | comment _ => Begins text ∧ [47, 47] <+: text
  | blank _ => ¬Begins text ∧ ∃ b ∈ text.head?, b ∈ blanks
  | openString _ => ¬Begins text ∧ text.head? = some 34
  | unexpected _ => ¬Begins text ∧ ∀ b ∈ text.head?, b ∉ 34 :: blanks

/-- No lexeme starts with a blank. -/
theorem not_begins_blank (h : b ∈ blanks) : ¬Begins (b :: rest) := by
  rintro ⟨kind, text, literal, lexeme, hpre⟩
  obtain ⟨t, rfl, -⟩ := lexeme.cons_of_prefix hpre
  have hall : blanks.all (fun c => !Bytes.isDigit c && !Bytes.isAlpha c && c != 34) = true := by
    decide
  obtain ⟨⟨hd, ha⟩, hq⟩ : (Bytes.isDigit b = false ∧ Bytes.isAlpha b = false) ∧ b ≠ 34 := by
    simpa using List.all_eq_true.mp hall b h
  exact (first_of_operators (lexeme.mem_operators hd ha hq)).2.2.2 h

/-- A segment is at the front of a text only where its form is marked there. -/
theorem Stands.marked {s : Segment} (h : s.Stands rest) : s.Marked (s.text ++ rest) := by
  cases h with
  | lexeme lexeme longest plain =>
      exact ⟨⟨_, _, _, lexeme, List.prefix_append _ _⟩, plain⟩
  | blank h => exact ⟨not_begins_blank h, _, rfl, h⟩
  | comment line ends =>
      have hslash : Lexeme .slash [47] .nil := .operator (by decide)
      exact ⟨⟨_, _, _, hslash, by simp [text]⟩, by simp [text]⟩
  | unexpected leads none first =>
      exact ⟨fun ⟨kind, text, literal, hlex, hpre⟩ => none kind text literal hlex hpre, first⟩
  | openString h =>
      refine ⟨fun ⟨kind, t, literal, hlex, hpre⟩ => ?_, rfl⟩
      rw [List.append_nil] at hpre
      obtain ⟨inside, after, -, -, rfl⟩ := string_longest hlex hpre
      exact h (by simp)

/-- A comment is a run of bytes that are no line feed. -/
theorem comment_eq {body : Bytes} (line : 10 ∉ body) (ends : ∀ c ∈ rest.head?, c = 10) :
    body = (body ++ rest).takeWhile (· != 10) := by
  have hrun : ∀ c ∈ body, (c != 10) = true :=
    fun c hc => bne_iff_ne.mpr fun h => line (h ▸ hc)
  refine (takeWhile_run hrun rest fun c hc => ?_).1.symm
  rw [ends c hc]
  rfl

/-- Only one segment may stand at the front of a text. The forms exclude each other by what the text
begins with; of lexemes the longest one stands there, and all other forms are told by their
extent. -/
theorem Stands.unique {s s' : Segment} {rest' : Bytes} (h : s.Stands rest) (h' : s'.Stands rest')
    (hsame : s.text ++ rest = s'.text ++ rest') : s = s' := by
  have marked := h.marked
  have marked' := h'.marked
  rw [← hsame] at marked'
  -- the form is the same on both sides by what marks it; within a form the text decides
  cases h with
  | @lexeme kind text rest literal lexeme longest plain =>
      cases h' with
      | @lexeme kind' text' rest' literal' lexeme' longest' plain' =>
          have hpre : text' <+: text ++ rest := ⟨rest', hsame.symm⟩
          have hpre' : text <+: text' ++ rest' := ⟨rest, hsame⟩
          have hle := longest _ _ _ lexeme' hpre
          have hle' := longest' _ _ _ lexeme hpre'
          obtain rfl : text = text' := (List.append_inj hsame (Nat.le_antisymm hle' hle)).1
          rw [lexeme.kind_eq lexeme']
      | comment => exact absurd marked'.2 marked.2
      | _ => exact absurd marked.1 marked'.1
  | @blank b =>
      obtain ⟨hno, c, hc, hblank⟩ := marked
      cases h' with
      | blank => rw [(List.cons.inj hsame).1]
      | openString =>
          rw [marked'.2] at hc
          obtain rfl := Option.some.inj hc
          exact absurd hblank (by decide)
      | unexpected => exact absurd (List.mem_cons_of_mem _ hblank) (marked'.2 c hc)
      | _ => exact absurd marked'.1 hno
  | @comment body rest line ends =>
      cases h' with
      | @comment body' rest' line' ends' =>
          have hbody : body ++ rest = body' ++ rest' := by simpa [text] using hsame
          rw [comment_eq line ends, comment_eq line' ends', hbody]
      | lexeme => exact absurd marked.2 marked'.2
      | _ => exact absurd marked.1 marked'.1
  | @unexpected g rest leads none first =>
      cases h' with
      | @unexpected g' rest' leads' none' first' =>
          rw [leads.unique (show g'.Leads (g.bytes ++ rest) from hsame ▸ leads')]
      | blank =>
          obtain ⟨-, c, hc, hblank⟩ := marked'
          exact absurd (List.mem_cons_of_mem _ hblank) (marked.2 c hc)
      | openString => exact absurd List.mem_cons_self (marked.2 34 marked'.2)
      | _ => exact absurd marked'.1 marked.1
  | openString h =>
      cases h' with
      | openString => exact congrArg Segment.openString (List.append_cancel_right hsame)
      | blank =>
          obtain ⟨-, c, hc, hblank⟩ := marked'
          rw [marked.2] at hc
          obtain rfl := Option.some.inj hc
          exact absurd hblank (by decide)
      | unexpected => exact absurd List.mem_cons_self (marked'.2 34 marked.2)
      | _ => exact absurd marked'.1 marked.1

-- ==== Cutting a text

/-- The segments, one after the other, are the text, and each of them may stand where it does. -/
inductive Cuts : Bytes → List Segment → Prop where
  | nil : Cuts [] []
  | cons {s : Segment} {rest : Bytes} {segments : List Segment} (stands : s.Stands rest)
      (cuts : Cuts rest segments) : Cuts (s.text ++ rest) (s :: segments)

/-- Taking segments off the front, again and again, cuts a text. -/
theorem cuts_splitFrom {skip : Nat} {source : Bytes} (hskip : skip ≤ source.length) :
    Cuts (source.drop skip) (splitFrom skip source) := by
  fun_induction splitFrom skip source with
  | case1 =>
      rw [List.drop_nil]
      exact .nil
  | case2 skip b rest ih => exact ih (Nat.le_of_succ_le_succ hskip)
  | case3 b rest segment ih =>
      obtain ⟨t, ht, hpre⟩ := front_text b rest
      have hlength : segment.text.length - 1 = t.length := by
        rw [show segment.text = b :: t from ht, List.length_cons, Nat.add_sub_cancel]
      have hcut : segment.text ++ rest.drop (segment.text.length - 1) = b :: rest := by
        rw [hlength, show segment.text = b :: t from ht, List.cons_append,
          List.prefix_iff_eq_append.mp hpre]
      rw [List.drop_zero, ← hcut]
      refine .cons (front_stands hcut) (ih ?_)
      rw [hlength]
      exact hpre.length_le

/-- A text is cut in the same way when another is skipped before it. -/
theorem splitFrom_length (t rest : Bytes) : splitFrom t.length (t ++ rest) = split rest := by
  induction t with
  | nil => rfl
  | cons b t ih => exact ih

/-- No segment of any form is empty. -/
theorem Stands.text_ne_nil {s : Segment} (h : s.Stands rest) : s.text ≠ [] := by
  cases h with
  | lexeme hlex => exact hlex.ne_nil
  | @unexpected g _ leads =>
      cases g with
      | char c => exact Utf8.encode_ne_nil c
      | stray b => exact List.cons_ne_nil _ _
  | _ => exact List.cons_ne_nil _ _

/-- What may stand at the front of a text is what is found there. -/
theorem Stands.front_eq {s : Segment} (h : s.Stands rest) (htext : s.text = b :: t) :
    front b (t ++ rest) = s := by
  obtain ⟨t', ht', after, hafter⟩ := front_text b (t ++ rest)
  have hcut : (front b (t ++ rest)).text ++ after = b :: (t ++ rest) := by
    rw [ht', List.cons_append, hafter]
  refine (front_stands hcut).unique h ?_
  rw [hcut, htext, List.cons_append]

/-- A text can be cut in one way only. -/
theorem Cuts.eq_split {source : Bytes} {segments : List Segment} (h : Cuts source segments) :
    segments = split source := by
  induction h with
  | nil => rfl
  | @cons s rest segments stands cuts ih =>
      obtain ⟨b, t, htext⟩ := List.exists_cons_of_ne_nil stands.text_ne_nil
      rw [htext, List.cons_append, split, splitFrom, stands.front_eq htext, htext, ih]
      exact congrArg (s :: ·) (splitFrom_length t rest).symm

/-- There is one way to cut a text, and the scanner finds it. -/
theorem cuts_iff {source : Bytes} {segments : List Segment} :
    Cuts source segments ↔ segments = split source := by
  refine ⟨Cuts.eq_split, ?_⟩
  rintro rfl
  exact cuts_splitFrom (Nat.zero_le _)

-- ==== What is reported

/-- The line on which a text ends. -/
def lineAfter (text : Bytes) : Int := 1 + text.count 10

/-- The tokens and the diagnostics that segments come to, after the text `before`. A lexeme comes to
a token, a segment that is at fault to a diagnostic, and blanks and comments to neither; lines are
counted by the line feeds up to the end of the segment. -/
inductive Reports : Bytes → List Segment → List Token → List Diagnostic → Prop where
  | done {before : Bytes} : Reports before [] [⟨.eof, [], .nil, lineAfter before⟩] []
  | lexeme {before text : Bytes} {kind : Kind} {literal : Literal} {segments : List Segment}
      {tokens : List Token} {diagnostics : List Diagnostic} (carries : Lexeme kind text literal)
      (more : Reports (before ++ text) segments tokens diagnostics) :
      Reports before (.lexeme kind text :: segments)
        (⟨kind, text, literal, lineAfter (before ++ text)⟩ :: tokens) diagnostics
  | blank {before : Bytes} {b : UInt8} {segments : List Segment} {tokens : List Token}
      {diagnostics : List Diagnostic} (more : Reports (before ++ [b]) segments tokens diagnostics) :
      Reports before (.blank b :: segments) tokens diagnostics
  | comment {before text : Bytes} {segments : List Segment} {tokens : List Token}
      {diagnostics : List Diagnostic} (more : Reports (before ++ text) segments tokens diagnostics) :
      Reports before (.comment text :: segments) tokens diagnostics
  | unexpected {before text : Bytes} {segments : List Segment} {tokens : List Token}
      {diagnostics : List Diagnostic} (more : Reports (before ++ text) segments tokens diagnostics) :
      Reports before (.unexpected text :: segments) tokens
        (⟨.scan, lineAfter (before ++ text), [], utf8 "Unexpected character."⟩ :: diagnostics)
  | openString {before text : Bytes} {segments : List Segment} {tokens : List Token}
      {diagnostics : List Diagnostic} (more : Reports (before ++ text) segments tokens diagnostics) :
      Reports before (.openString text :: segments) tokens
        (⟨.scan, lineAfter (before ++ text), [], utf8 "Unterminated string."⟩ :: diagnostics)

/-- The scanner adds up line feeds segment by segment. -/
theorem endLine_lineAfter (before : Bytes) (s : Segment) :
    s.endLine (lineAfter before) = lineAfter (before ++ s.text) := by
  simp only [endLine, lineAfter, Bytes.lineFeeds, Bytes.lineFeed, List.count_append]
  omega

/-- What the scanner makes of the segments of a text is what they come to. -/
theorem reports_of_cuts {source : Bytes} {segments : List Segment} (h : Cuts source segments)
    (before : Bytes) :
    Reports before segments (tokens (lineAfter before) segments)
      (diagnostics (lineAfter before) segments) := by
  induction h generalizing before with
  | nil => exact .done
  | @cons s rest segments stands cuts ih =>
      have more := ih (before ++ s.text)
      rw [tokens, diagnostics, endLine_lineAfter]
      cases stands with
      | lexeme carries longest plain =>
          obtain rfl := carries.literal_eq
          exact .lexeme carries more
      | blank h => exact .blank more
      | comment line ends => exact .comment more
      | unexpected leads none first => exact .unexpected more
      | openString h => exact .openString more

/-- There are two wordings, and neither finds fault with a number. -/
theorem Reports.message_ne {before : Bytes} {segments : List Segment} {tokens : List Token}
    {diagnostics : List Diagnostic} (h : Reports before segments tokens diagnostics) :
    ∀ d ∈ diagnostics, d.message ≠ utf8 "Invalid number literal." := by
  have hcharacter : utf8 "Unexpected character." ≠ utf8 "Invalid number literal." := by decide
  have hstring : utf8 "Unterminated string." ≠ utf8 "Invalid number literal." := by decide
  induction h with
  | done => simp
  | lexeme carries more ih => exact ih
  | blank more ih => exact ih
  | comment more ih => exact ih
  | unexpected more ih => exact List.forall_mem_cons.mpr ⟨hcharacter, ih⟩
  | openString more ih => exact List.forall_mem_cons.mpr ⟨hstring, ih⟩

end Segment

open Segment (Cuts Reports)

/-- Scanning accounts for every byte. A script can be cut in just one way into segments of the forms
that there are, none of them empty. The tokens are its lexemes in order, each with its kind, its text
and the constant that it carries, and the end of the script after them; the diagnostics are one for
each unexpected character and for a string that is left open, in order; and all of them have the
line on which their segment ends. No number is found fault with. -/
theorem scan_accounts (source : Bytes) :
    ∃ segments, (∀ cut, Cuts source cut ↔ cut = segments) ∧
      segments.flatMap Segment.text = source ∧ (∀ s ∈ segments, s.text ≠ []) ∧
      Reports [] segments (scan source).tokens (scan source).diagnostics ∧
      ∀ d ∈ (scan source).diagnostics, d.message ≠ utf8 "Invalid number literal." := by
  have htext : (Segment.split source).flatMap Segment.text = source :=
    Segment.text_splitFrom (Nat.zero_le _)
  have hcuts : Cuts source (Segment.split source) := Segment.cuts_iff.mpr rfl
  have hreports : Reports [] (Segment.split source) (scan source).tokens (scan source).diagnostics :=
    Segment.reports_of_cuts hcuts []
  exact ⟨Segment.split source, fun cut => Segment.cuts_iff, htext,
    fun s hs => Segment.text_ne_nil_of_mem hs, hreports, hreports.message_ne⟩

end Lox
