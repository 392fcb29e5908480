/-
The tokens of two scripts with a line feed between them.

# A line feed ends a segment

No segment goes over a line feed but a string. Runs of bytes stop at it (`takeWhile_break`,
`dropWhile_break`), it makes no operator longer (`operator_break`), comments end before it
(`slashFrom_break`), a number does not end with a point that stands before it (`numberText_break`),
and it is no part of a character that begins earlier (`unexpected_break`). A string that is closed
before the line feed is closed there in any case (`stringFrom_break`). So the first segment is the
same whatever follows on the next line, unless it is a string that is left open (`front_break`).

# Cutting the two scripts

By induction over the first script, one that leaves no string open is cut as it stands, then comes
the line feed as a blank of its own, and then the second script is cut as it stands (`split_join`).

# Lines

Tokens and diagnostics have the line that their segment ends on, and lines are counted up from the
start. Segments that start `δ` lines further down have all their tokens and diagnostics `δ` lines
further down (`tokens_moved`, `diagnostics_moved`), and those of two lists of segments are those of
the first and then those of the second, which starts where the first ends (`tokens_append`,
`diagnostics_append`).

# The two scripts together

The tokens of the whole are then those of the first script, up to its end, and those of the second
one, further down by the lines of the first; and so are the diagnostics (`scan_joined`). For the
reader, which takes tokens before the end and the end apart, the same is said of each (`body_join`,
`ending_join`). That no lexeme is itself the end of a script (`ordinary_of_mem`) is what makes the
two come apart.
-/
import Lox.Proofs.Text.Utf8
import Lox.Proofs.Token.Segment
import Lox.Tree.Parse

namespace Lox

-- ==== Moving tokens down

/-- The same token, `δ` lines further down. -/
def Token.moved (δ : Int) (t : Token) : Token :=
  { t with line := t.line + δ }

@[simp] theorem Token.moved_kind (δ : Int) (t : Token) : (t.moved δ).kind = t.kind := rfl

@[simp] theorem Token.moved_lexeme (δ : Int) (t : Token) : (t.moved δ).lexeme = t.lexeme := rfl

/-- Moving by no lines leaves a token as it is. -/
@[simp] theorem Token.moved_zero (t : Token) : t.moved 0 = t := by
  unfold Token.moved
  rw [Int.add_zero]

/-- The same diagnostic, `d` lines further down. -/
def Diagnostic.moved (d : Int) (x : Diagnostic) : Diagnostic := { x with line := x.line + d }

/-- How far a script that follows on the next line is moved down. -/
def linesOf (source : Bytes) : Int :=
  Bytes.lineFeeds source + 1

/-- Two scripts, one after the other, with a line feed between them. -/
def joined (a b : Bytes) : Bytes :=
  a ++ Bytes.lineFeed :: b

namespace Segment

-- ==== A line feed ends the segment before it

/-- A run of bytes that a line feed is none of stops there. -/
theorem takeWhile_break {p : UInt8 → Bool} (hp : p Bytes.lineFeed = false) (a b : Bytes) :
    (a ++ Bytes.lineFeed :: b).takeWhile p = a.takeWhile p := by
  induction a with
  | nil => simp [hp]
  | cons x a ih => simp only [List.cons_append, List.takeWhile_cons, ih]

/-- And what is left after such a run still has the line feed. -/
theorem dropWhile_break {p : UInt8 → Bool} (hp : p Bytes.lineFeed = false) (a b : Bytes) :
    (a ++ Bytes.lineFeed :: b).dropWhile p = a.dropWhile p ++ Bytes.lineFeed :: b := by
  induction a with
  | nil => simp [hp]
  | cons x a ih =>
      simp only [List.cons_append, List.dropWhile_cons, ih]
      split <;> rfl

/-- An equals sign on the next line makes no operator longer. -/
theorem operator_break (b : UInt8) (rest more : Bytes) (single double : Kind) :
    operator b (rest ++ Bytes.lineFeed :: more) single double = operator b rest single double := by
  cases rest with
  | nil => rfl
  | cons c rest =>
      by_cases hc : c = 61
      · subst hc
        rfl
      · simp [operator, hc]

/-- A comment ends with its line. -/
theorem slashFrom_break (rest more : Bytes) :
    slashFrom (rest ++ Bytes.lineFeed :: more) = slashFrom rest := by
  cases rest with
  | nil => rfl
  | cons c rest =>
      by_cases hc : c = 47
      · subst hc
        simp only [slashFrom, List.cons_append]
        rw [takeWhile_break (by decide)]
      · simp [slashFrom, hc]

/-- A number ends with its line: digits on the next one are not its fraction. Nor is a point at the
end of a line part of a number, since there is no digit after it. -/
theorem numberText_break (digits more : Bytes) :
    numberText (digits ++ Bytes.lineFeed :: more) = numberText digits := by
  have hfeed : Bytes.isDigit Bytes.lineFeed = false := by decide
  unfold numberText
  rw [takeWhile_break hfeed, dropWhile_break hfeed]
  cases digits.dropWhile Bytes.isDigit with
  | nil => rfl
  | cons c rest =>
      cases rest with
      | nil =>
          -- a point at the end of the line is no part of the number
          simp only [List.cons_append, List.nil_append]
          split
          next hc =>
            obtain ⟨-, hd⟩ := List.cons.inj hc
            obtain ⟨rfl, -⟩ := List.cons.inj hd
            rw [if_neg (by decide)]
          next => rfl
      | cons d rest =>
          have htake : ((d :: rest) ++ Bytes.lineFeed :: more).takeWhile Bytes.isDigit
              = (d :: rest).takeWhile Bytes.isDigit := takeWhile_break hfeed _ _
          rw [List.cons_append] at htake
          simp only [List.cons_append]
          by_cases hc : c = 46
          · subst hc
            simp only [htake]
          · split
            next h => exact absurd (List.cons.inj h).1 hc
            next =>
              split
              next h => exact absurd (List.cons.inj h).1 hc
              next => rfl

/-- A string that is closed stays closed where it was. -/
theorem stringFrom_break {rest : Bytes} (more : Bytes)
    (h : (stringFrom rest).fault? ≠ some .unterminatedString) :
    stringFrom (rest ++ Bytes.lineFeed :: more) = stringFrom rest := by
  unfold stringFrom at h ⊢
  simp only at h ⊢
  split at h
  next hlt =>
    have hcut := List.takeWhile_append_dropWhile (p := (· != 34)) (l := rest)
    have hsame : (rest ++ Bytes.lineFeed :: more).takeWhile (· != 34)
        = rest.takeWhile (· != 34) := by
      rw [List.takeWhile_append, if_neg]
      intro heq
      omega
    rw [hsame, if_pos hlt, if_pos (by rw [List.length_append]; omega)]
  next => exact absurd rfl h

/-- A character that is unexpected is not made longer by the bytes of the next line. -/
theorem unexpected_break (b : UInt8) (rest more : Bytes) :
    (b :: (rest ++ Bytes.lineFeed :: more)).take
        (Utf8.front b (rest ++ Bytes.lineFeed :: more)).width =
      (b :: rest).take (Utf8.front b rest).width := by
  have leads : (Utf8.front b rest).Leads (b :: rest) := Glyph.leads_iff.mpr rfl
  rw [← Glyph.leads_iff.mp (leads.break more), (leads.break more).take, leads.take]

/-- The first segment is the same when another line follows, unless it is a string that is open. No
other segment looks beyond the end of a line. -/
theorem front_break {b : UInt8} {rest : Bytes} (more : Bytes)
    (h : (front b rest).fault? ≠ some .unterminatedString) :
    front b (rest ++ Bytes.lineFeed :: more) = front b rest := by
  revert h
  unfold front
  split
  all_goals intro h
  all_goals try rfl
  · exact operator_break ..
  · exact operator_break ..
  · exact operator_break ..
  · exact operator_break ..
  · exact slashFrom_break ..
  · exact stringFrom_break more h
  · split at h
    next hdigit =>
      rw [if_pos hdigit, if_pos hdigit, ← List.cons_append, numberText_break]
    next hdigit =>
      rw [if_neg hdigit, if_neg hdigit]
      split at h
      next halpha =>
        rw [if_pos halpha, if_pos halpha, takeWhile_break (by decide)]
      next halpha =>
        rw [if_neg halpha, if_neg halpha, unexpected_break]

-- ==== Cutting the two scripts

/-- After a few bytes that are skipped, the first script is cut as it stands, by induction over it:
each first segment is that of the first script alone. -/
theorem splitFrom_join {skip : Nat} {a : Bytes} (b : Bytes) (hskip : skip ≤ a.length)
    (h : ∀ s ∈ splitFrom skip a, s.fault? ≠ some .unterminatedString) :
    splitFrom skip (a ++ Bytes.lineFeed :: b)
      = splitFrom skip a ++ blank Bytes.lineFeed :: split b := by
  induction a generalizing skip with
  | nil =>
      obtain rfl : skip = 0 := Nat.le_zero.mp hskip
      rfl
  | cons x a ih =>
      cases skip with
      | succ skip => exact ih (Nat.le_of_succ_le_succ hskip) h
      | zero =>
          simp only [splitFrom, List.mem_cons, forall_eq_or_imp] at h
          obtain ⟨t, ht, hprefix⟩ := front_text x a
          simp only [List.cons_append, splitFrom, front_break b h.1]
          rw [ih _ h.2]
          simp only [ht, List.length_cons, Nat.add_sub_cancel]
          exact hprefix.length_le

/-- A script that leaves no string open is cut as it stands, and so is the one on the next line. -/
theorem split_join {a : Bytes} (b : Bytes)
    (h : ∀ s ∈ split a, s.fault? ≠ some .unterminatedString) :
    split (joined a b) = split a ++ blank Bytes.lineFeed :: split b :=
  splitFrom_join b (Nat.zero_le _) h

/-- A segment without a fault leaves no string open. -/
theorem closed_of_clean {s : Segment} (h : s.fault? = none) :
    s.fault? ≠ some .unterminatedString := by
  rw [h]
  exact Option.some_ne_none _ ∘ Eq.symm

/-- The same for a script without any fault. -/
theorem split_join_of_clean {a : Bytes} (b : Bytes) (h : ∀ s ∈ split a, s.fault? = none) :
    split (joined a b) = split a ++ blank Bytes.lineFeed :: split b :=
  split_join b fun s hs => closed_of_clean (h s hs)

/-- The segments after the first bytes cover what is left of the text. -/
theorem text_splitFrom {skip : Nat} {a : Bytes} (hskip : skip ≤ a.length) :
    (splitFrom skip a).flatMap text = a.drop skip := by
  induction a generalizing skip with
  | nil => simp [splitFrom]
  | cons x a ih =>
      cases skip with
      | succ skip => exact ih (Nat.le_of_succ_le_succ hskip)
      | zero =>
          obtain ⟨t, ht, hprefix⟩ := front_text x a
          simp only [splitFrom, List.flatMap_cons, ht, List.length_cons, Nat.add_sub_cancel]
          rw [ih hprefix.length_le, List.drop_zero, List.cons_append]
          exact congrArg (x :: ·) (List.prefix_iff_eq_append.mp hprefix)

-- ==== The tokens before the end

/-- The tokens of segments that start on `line`, without the end of the script. -/
def lexemes (line : Int) : List Segment → List Token
  | [] => []
  | s :: rest => (s.token? (s.endLine line)).toList ++ lexemes (s.endLine line) rest

/-- The line on which segments end that start on `line`. -/
def lastLine (line : Int) (segments : List Segment) : Int :=
  line + Bytes.lineFeeds (segments.flatMap text)

/-- The line on which segments end, counted on from the first of them. -/
theorem lastLine_cons (line : Int) (s : Segment) (rest : List Segment) :
    lastLine line (s :: rest) = lastLine (s.endLine line) rest := by
  simp only [lastLine, endLine, List.flatMap_cons, Bytes.lineFeeds, List.count_append]
  omega

/-- The tokens are those of the lexemes, and then the end on the last line. -/
theorem tokens_eq (line : Int) (segments : List Segment) :
    tokens line segments
      = lexemes line segments ++ [⟨.eof, [], .nil, lastLine line segments⟩] := by
  induction segments generalizing line with
  | nil => simp [tokens, lexemes, lastLine, Bytes.lineFeeds]
  | cons s rest ih =>
      simp only [tokens, lexemes, lastLine_cons]
      cases s.token? (s.endLine line) with
      | none => exact ih _
      | some t => exact congrArg (t :: ·) (ih _)

/-- The lexemes of two lists of segments, of which the second starts where the first ends. -/
theorem lexemes_append (line : Int) (a b : List Segment) :
    lexemes line (a ++ b) = lexemes line a ++ lexemes (lastLine line a) b := by
  induction a generalizing line with
  | nil => simp [lexemes, lastLine, Bytes.lineFeeds]
  | cons s rest ih =>
      simp only [List.cons_append, lexemes, ih, lastLine_cons, List.append_assoc]

/-- A segment that starts further down ends as much further down. -/
theorem endLine_add (line δ : Int) (s : Segment) : s.endLine (line + δ) = s.endLine line + δ := by
  unfold endLine
  omega

/-- Segments that start further down have their tokens further down. -/
theorem lexemes_moved (line δ : Int) (segments : List Segment) :
    lexemes (line + δ) segments = (lexemes line segments).map (Token.moved δ) := by
  induction segments generalizing line with
  | nil => rfl
  | cons s rest ih =>
      simp only [lexemes, endLine_add, ih, List.map_append]
      cases s <;> rfl

/-- The tokens of two lists of segments: the end comes once. -/
theorem tokens_append (line : Int) (a b : List Segment) :
    tokens line (a ++ b) = lexemes line a ++ tokens (lastLine line a) b := by
  have hlast : lastLine line (a ++ b) = lastLine (lastLine line a) b := by
    simp only [lastLine, List.flatMap_append, Bytes.lineFeeds, List.count_append]
    omega
  rw [tokens_eq, tokens_eq, lexemes_append, hlast, List.append_assoc]

/-- Segments that start further down have all their tokens further down, the end too. -/
theorem tokens_moved (line δ : Int) (segments : List Segment) :
    tokens (line + δ) segments = (tokens line segments).map (Token.moved δ) := by
  have hlast : lastLine (line + δ) segments = lastLine line segments + δ := by
    unfold lastLine
    omega
  rw [tokens_eq, tokens_eq, lexemes_moved, hlast, List.map_append]
  rfl

/-- Without diagnostics no segment has a fault. -/
theorem fault?_of_diagnostics {line : Int} {segments : List Segment}
    (h : diagnostics line segments = []) : ∀ s ∈ segments, s.fault? = none := by
  induction segments generalizing line with
  | nil => simp
  | cons s rest ih =>
      simp only [diagnostics] at h
      cases hs : s.fault? with
      | some fault => rw [hs] at h; cases h
      | none =>
          rw [hs] at h
          exact List.forall_mem_cons.mpr ⟨hs, ih h⟩

/-- Where no segment has a fault there are no diagnostics. -/
theorem diagnostics_of_fault? {line : Int} {segments : List Segment}
    (h : ∀ s ∈ segments, s.fault? = none) : diagnostics line segments = [] := by
  induction segments generalizing line with
  | nil => rfl
  | cons s rest ih =>
      obtain ⟨hs, hrest⟩ := List.forall_mem_cons.mp h
      simp only [diagnostics, hs]
      exact ih hrest

/-- A string that is left open can be told from the wordings of the diagnostics. -/
theorem any_diagnostics (line : Int) (segments : List Segment) :
    ((diagnostics line segments).any fun d => d.message = ScanFault.unterminatedString.message) =
      segments.any fun s => s.fault? = some .unterminatedString := by
  have hother : ¬ScanFault.unexpectedCharacter.message = ScanFault.unterminatedString.message := by
    decide
  -- the two wordings differ, so one diagnostic is told from the other by its text
  induction segments generalizing line with
  | nil => rfl
  | cons s rest ih =>
      cases s with
      | unexpected text =>
          show (decide (ScanFault.unexpectedCharacter.message = _) || _) = _
          rw [decide_eq_false hother, Bool.false_or, ih]
          rfl
      | openString text => rfl
      | _ => exact ih _

/-- The diagnostics of two lists of segments, in order. -/
theorem diagnostics_append (line : Int) (a b : List Segment) :
    diagnostics line (a ++ b) = diagnostics line a ++ diagnostics (lastLine line a) b := by
  induction a generalizing line with
  | nil => simp [diagnostics, lastLine, Bytes.lineFeeds]
  | cons s rest ih =>
      simp only [List.cons_append, diagnostics, ih, lastLine_cons]
      cases s.fault? <;> rfl

/-- Segments that start further down have their diagnostics further down. -/
theorem diagnostics_moved (line δ : Int) (segments : List Segment) :
    diagnostics (line + δ) segments = (diagnostics line segments).map (Diagnostic.moved δ) := by
  induction segments generalizing line with
  | nil => rfl
  | cons s rest ih =>
      simp only [diagnostics, endLine_add, ih]
      cases s.fault? <;> rfl

-- ==== No lexeme is the end of the script

/-- No word stands for the end of a script. -/
theorem ofWord_ne_eof (word : Bytes) : Kind.ofWord word ≠ .eof := by
  have hall : ∀ p ∈ Kind.keywords, p.2 ≠ .eof := by simp [Kind.keywords]
  unfold Kind.ofWord Kind.keyword?
  cases hk : Kind.keywords.lookup word with
  | none => exact Kind.noConfusion
  | some kind =>
      obtain ⟨front, back, hsplit, -⟩ := List.lookup_eq_some_iff.mp hk
      exact hall (word, kind) (by simp [hsplit])

/-- The kind of the segment's token is not that of the end. -/
def Ordinary (s : Segment) : Prop :=
  ∀ kind text, s = lexeme kind text → kind ≠ .eof

/-- The first segment of a text is not the end of the script. -/
theorem front_ordinary (b : UInt8) (rest : Bytes) : (front b rest).Ordinary := by
  intro kind text h hk
  subst hk
  unfold front at h
  split at h
  all_goals try cases h
  · unfold operator at h; split at h <;> cases h
  · unfold operator at h; split at h <;> cases h
  · unfold operator at h; split at h <;> cases h
  · unfold operator at h; split at h <;> cases h
  · unfold slashFrom at h; split at h <;> cases h
  · simp only [stringFrom] at h; split at h <;> cases h
  · split at h
    · cases h
    · split at h
      · exact ofWord_ne_eof _ (lexeme.inj h).1
      · cases h

/-- No segment of a script is the end of the script. -/
theorem ordinary_of_mem {skip : Nat} {source : Bytes} {s : Segment}
    (h : s ∈ splitFrom skip source) : s.Ordinary := by
  fun_induction splitFrom skip source with
  | case1 => simp at h
  | case2 skip b rest ih => exact ih h
  | case3 b rest segment ih =>
      rcases List.mem_cons.mp h with rfl | h
      · exact front_ordinary b rest
      · exact ih h

/-- So the tokens of the lexemes are other than the end, which is how the end is found. -/
theorem lexemes_kind {line : Int} {segments : List Segment} (h : ∀ s ∈ segments, s.Ordinary) :
    ∀ t ∈ lexemes line segments, t.kind ≠ .eof := by
  induction segments generalizing line with
  | nil => simp [lexemes]
  | cons s rest ih =>
      obtain ⟨hs, hrest⟩ := List.forall_mem_cons.mp h
      intro t ht
      rcases List.mem_append.mp ht with ht | ht
      · cases s with
        | lexeme kind text =>
            obtain rfl : t = _ := by simpa [token?] using ht
            exact hs kind text rfl
        | _ => simp [token?] at ht
      · exact ih hrest t ht

end Segment

-- ==== The tokens of two scripts

/-- What the reader takes as the body of a script are the tokens of its lexemes. -/
theorem body_scan (source : Bytes) :
    Token.body (scan source).tokens = Segment.lexemes 1 (Segment.split source) := by
  have hkind : ∀ t ∈ Segment.lexemes 1 (Segment.split source), t.kind ≠ .eof :=
    Segment.lexemes_kind fun s => Segment.ordinary_of_mem
  unfold Token.body scan
  dsimp only
  rw [Segment.tokens_eq, List.takeWhile_append_of_pos fun t ht => by simpa using hkind t ht]
  simp

/-- The token that the reader takes as the end, with the line that it is on. -/
theorem ending_scan (source : Bytes) :
    Token.ending (scan source).tokens = ⟨.eof, [], .nil, 1 + Bytes.lineFeeds source⟩ := by
  have hnone : (Segment.lexemes 1 (Segment.split source)).find? (fun t => t.kind = .eof) = none := by
    rw [List.find?_eq_none]
    intro t ht
    simpa using Segment.lexemes_kind (fun s => Segment.ordinary_of_mem) t ht
  have htext := Segment.text_splitFrom (Nat.zero_le source.length)
  unfold Token.ending scan
  dsimp only
  rw [Segment.tokens_eq, List.find?_append, hnone]
  simp only [Option.none_or, List.find?_cons, decide_true, Segment.lastLine, Segment.split, htext,
    List.drop_zero]

variable {a : Bytes}

/-- The line on which a script begins that follows on the next line. -/
theorem endLine_split (a : Bytes) :
    Segment.endLine (Segment.lastLine 1 (Segment.split a)) (.blank Bytes.lineFeed) =
      1 + linesOf a := by
  have htext := Segment.text_splitFrom (Nat.zero_le a.length)
  simp only [Segment.endLine, Segment.lastLine, Segment.split, htext, List.drop_zero, linesOf]
  show 1 + (Bytes.lineFeeds a : Int) + ((1 : Nat) : Int) = 1 + (Bytes.lineFeeds a + 1)
  omega

/-- The second script's tokens come after the first one's, further down. -/
theorem body_join (b : Bytes) (h : (scan a).diagnostics = []) :
    Token.body (scan (joined a b)).tokens
      = Token.body (scan a).tokens ++ (Token.body (scan b).tokens).map (Token.moved (linesOf a)) := by
  have hcut := Segment.split_join_of_clean b (Segment.fault?_of_diagnostics h)
  rw [body_scan, body_scan, body_scan, hcut, Segment.lexemes_append, ← Segment.lexemes_moved]
  simp only [Segment.lexemes, Segment.token?, Option.toList_none, List.nil_append, endLine_split]

/-- The end of the two scripts together is that of the second one, further down. -/
theorem ending_join (a b : Bytes) :
    Token.ending (scan (joined a b)).tokens
      = (Token.ending (scan b).tokens).moved (linesOf a) := by
  rw [ending_scan, ending_scan]
  simp only [Token.moved, linesOf, joined, Bytes.lineFeeds, List.count_append, List.count_cons_self]
  congr 1
  omega

/-- The two scripts together have no fault that the second one does not have. -/
theorem diagnostics_join {b : Bytes} (ha : (scan a).diagnostics = [])
    (hb : (scan b).diagnostics = []) : (scan (joined a b)).diagnostics = [] := by
  have hcut := Segment.split_join_of_clean b (Segment.fault?_of_diagnostics ha)
  refine Segment.diagnostics_of_fault? fun s hs => ?_
  rw [hcut] at hs
  rcases List.mem_append.mp hs with hs | hs
  · exact Segment.fault?_of_diagnostics ha s hs
  · rcases List.mem_cons.mp hs with rfl | hs
    · rfl
    · exact Segment.fault?_of_diagnostics hb s hs

/-- Scanning goes line by line. Where the first script leaves no string open, the tokens and the
diagnostics of the two scripts together are those of the first one, without its end, and after them
those of the second one, further down by the lines of the first. -/
theorem scan_joined (b : Bytes)
    (h : ∀ d ∈ (scan a).diagnostics, d.message ≠ utf8 "Unterminated string.") :
    (scan a).tokens.getLast?.map Token.kind = some .eof ∧
      (scan (joined a b)).tokens =
        (scan a).tokens.dropLast ++ (scan b).tokens.map (Token.moved (linesOf a)) ∧
      (scan (joined a b)).diagnostics =
        (scan a).diagnostics ++ (scan b).diagnostics.map (Diagnostic.moved (linesOf a)) := by
  have hclosed : ∀ s ∈ Segment.split a, s.fault? ≠ some .unterminatedString := by
    have hnone : ((scan a).diagnostics.any fun d =>
        d.message = ScanFault.unterminatedString.message) = false :=
      List.any_eq_false.mpr fun d hd hmessage => h d hd (of_decide_eq_true hmessage)
    have hany := (Segment.any_diagnostics 1 (Segment.split a)).symm.trans hnone
    simpa using List.any_eq_false.mp hany
  have hcut := Segment.split_join b hclosed
  have htokens : (scan a).tokens = _ := Segment.tokens_eq 1 (Segment.split a)
  refine ⟨?_, ?_, ?_⟩
  · rw [htokens, List.getLast?_concat]
    rfl
  · rw [htokens, List.dropLast_concat]
    unfold scan
    dsimp only
    rw [hcut, Segment.tokens_append, ← Segment.tokens_moved, ← endLine_split]
    rfl
  · unfold scan
    dsimp only
    rw [hcut, Segment.diagnostics_append, ← Segment.diagnostics_moved, ← endLine_split]
    rfl

/-- The first script ends with a number, a point and two bytes of a character of three. -/
theorem scan_joined_cut_short :
    let a := utf8 "x =\n1." ++ [0xE2, 0x82]
    let b := [0xAC] ++ utf8 "=\"\n"
    (∀ d ∈ (scan a).diagnostics, d.message ≠ utf8 "Unterminated string.") ∧
      (scan a).tokens.getLast?.map Token.kind = some .eof ∧
      (scan (joined a b)).tokens =
        (scan a).tokens.dropLast ++ (scan b).tokens.map (Token.moved (linesOf a)) ∧
      (scan (joined a b)).diagnostics =
        (scan a).diagnostics ++ (scan b).diagnostics.map (Diagnostic.moved (linesOf a)) := by
  intro a b
  have hopen : ∀ d ∈ (scan a).diagnostics, d.message ≠ utf8 "Unterminated string." := by
    decide +kernel
  exact ⟨hopen, scan_joined b hopen⟩

end Lox
