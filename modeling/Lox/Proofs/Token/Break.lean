/-
Where a line feed falls in a script.

# Two places for a line feed

No segment but a string goes over a line feed. So in a script that is cut without a fault there are
two places for it. It is a blank of its own, and then what stands before it is cut as it is in the
script, and so is what stands after it. Or it lies inside a string, and then what stands before it
ends with that string still open (`split_break`).

# The argument

The first segment of a text with a line feed in it is the first segment of the line, or else a
string that is closed on a later line and open up to the end of this one (`stringFrom_cases`,
`front_cases`). In the first case cutting goes on after the segment; in the second it ends there for
the line. So by induction over the line, either it is cut without a fault, or all of its segments
but the last are those of the script and the last is the string, as far as it stands on this line
(`splitFrom_break`).

# Telling the two apart

Which of the two it is can be told from the script alone, by the segment that covers the place of
the line feed (`covering?`), and the lexemes that end before a place are those of what stands before
(`kindsWithin_append`). This is how it can be said of a text, without cutting it at every line,
which of its line feeds are ends of lines to a prompt.
-/
import Lox.Proofs.Token.Join

namespace Lox.Segment

variable {a b : Bytes} {before after : List Segment} {s : Segment} {n skip : Nat}

-- ==== Places in a script

/-- The segment that covers the byte at a place, counted from nought. -/
def covering? (n : Nat) : List Segment → Option Segment
  | [] => none
  | s :: rest => if n < s.text.length then some s else covering? (n - s.text.length) rest

/-- The kind of the segment's token. -/
def kind? : Segment → Option Kind
  | lexeme kind _ => some kind
  | _ => none

/-- The kinds of all lexemes. -/
def kinds (segments : List Segment) : List Kind := segments.filterMap kind?

/-- The kinds of the lexemes that end within the first `n` bytes. -/
def kindsWithin (n : Nat) : List Segment → List Kind
  | [] => []
  | s :: rest =>
    if s.text.length ≤ n then s.kind?.toList ++ kindsWithin (n - s.text.length) rest else []

/-- The segment that covers a place is the one whose bytes the place is among. -/
theorem covering?_append (hle : (before.flatMap text).length ≤ n)
    (hlt : n < (before.flatMap text).length + s.text.length) :
    covering? n (before ++ s :: after) = some s := by
  induction before generalizing n with
  | nil =>
      rw [List.flatMap_nil, List.length_nil, Nat.zero_add] at hlt
      rw [List.nil_append, covering?, if_pos hlt]
  | cons f before ih =>
      rw [List.flatMap_cons, List.length_append] at hle hlt
      have hnot : ¬n < f.text.length := by omega
      rw [List.cons_append, covering?, if_neg hnot]
      exact ih (by omega) (by omega)

/-- Up to where a segment starts, the lexemes that have ended are those of the segments before
it. -/
theorem kindsWithin_append (hs : s.text ≠ []) :
    kindsWithin (before.flatMap text).length (before ++ s :: after) = kinds before := by
  induction before with
  | nil =>
      have hnot : ¬s.text.length ≤ 0 := fun h => hs (List.eq_nil_of_length_eq_zero (Nat.le_zero.mp h))
      rw [List.flatMap_nil, List.length_nil, List.nil_append, kindsWithin, if_neg hnot]
      rfl
  | cons f before ih =>
      rw [List.flatMap_cons, List.length_append, List.cons_append, kindsWithin,
        if_pos (Nat.le_add_right _ _), Nat.add_sub_cancel_left, ih]
      cases f <;> rfl

/-- The kinds of lexemes, of two lists of segments. -/
theorem kinds_append : kinds (before ++ after) = kinds before ++ kinds after :=
  List.filterMap_append

/-- The tokens have the kinds of the lexemes. -/
theorem map_kind_lexemes (line : Int) (segments : List Segment) :
    (lexemes line segments).map Token.kind = kinds segments := by
  induction segments generalizing line with
  | nil => rfl
  | cons s rest ih =>
      rw [lexemes, List.map_append, ih]
      cases s <;> rfl

/-- The segments of a script, one after the other, are the script. -/
theorem text_split (source : Bytes) : (split source).flatMap text = source :=
  text_splitFrom (Nat.zero_le _)

-- ==== The segment at the front

/-- A string that is closed on a later line is open up to the end of this one. If it is closed on
this line, then it is the same without the lines after it. -/
theorem stringFrom_cases (h : (stringFrom (a ++ Bytes.lineFeed :: b)).fault? = none) :
    (stringFrom a).fault? = none ∨
      stringFrom a = openString (34 :: a) ∧
        ∃ more, stringFrom (a ++ Bytes.lineFeed :: b) =
          lexeme .string (34 :: a ++ Bytes.lineFeed :: more) := by
  by_cases hlt : (a.takeWhile (· != 34)).length < a.length
  · left
    unfold stringFrom
    dsimp only
    rw [if_pos hlt]
    rfl
  · right
    have hall : a.takeWhile (· != 34) = a :=
      (List.takeWhile_prefix _).eq_of_length_le (Nat.le_of_not_lt hlt)
    have hinside : (a ++ Bytes.lineFeed :: b).takeWhile (· != 34) =
        a ++ Bytes.lineFeed :: b.takeWhile (· != 34) := by
      rw [List.takeWhile_append, if_pos (congrArg List.length hall), List.takeWhile_cons,
        if_pos (by decide)]
    unfold stringFrom at h ⊢
    dsimp only at h ⊢
    rw [hinside] at h ⊢
    refine ⟨by rw [if_neg hlt], b.takeWhile (· != 34) ++ [34], ?_⟩
    split at h
    next hclosed => rw [if_pos hclosed, List.cons_append, List.append_assoc, List.cons_append,
      List.cons_append]
    next => cases h

/-- The front of a text that goes on on the next line is the front of its first line, or a string that
is open there. -/
theorem front_cases {x : UInt8} (h : (front x (a ++ Bytes.lineFeed :: b)).fault? = none) :
    (front x a).fault? = none ∨
      front x a = openString (34 :: a) ∧
        ∃ more, front x (a ++ Bytes.lineFeed :: b) =
          lexeme .string (34 :: a ++ Bytes.lineFeed :: more) := by
  have operator_clean : ∀ single double, (operator x a single double).fault? = none := by
    intro single double
    unfold operator
    split <;> rfl
  have slash_clean : (slashFrom a).fault? = none := by
    unfold slashFrom
    split <;> rfl
  revert h
  unfold front
  split
  all_goals intro h
  all_goals try exact .inl rfl
  · exact .inl (operator_clean _ _)
  · exact .inl (operator_clean _ _)
  · exact .inl (operator_clean _ _)
  · exact .inl (operator_clean _ _)
  · exact .inl slash_clean
  · exact stringFrom_cases h
  · left
    split at h
    next hdigit =>
      rw [if_pos hdigit]
      rfl
    next hdigit =>
      split at h
      next halpha =>
        rw [if_neg hdigit, if_pos halpha]
        rfl
      next => cases h

-- ==== The whole script

/-- Nothing is cut off where all is skipped. -/
theorem splitFrom_length_self (t : Bytes) : splitFrom t.length t = [] := by
  induction t with
  | nil => rfl
  | cons x t ih => exact ih

/-- Up to a line feed the text is cut without a fault, or it ends with a string that is closed
later. -/
theorem splitFrom_break (hskip : skip ≤ a.length)
    (h : ∀ s ∈ splitFrom skip (a ++ Bytes.lineFeed :: b), s.fault? = none) :
    (∀ s ∈ splitFrom skip a, s.fault? = none) ∨
      ∃ before t more after, splitFrom skip a = before ++ [openString t] ∧
        splitFrom skip (a ++ Bytes.lineFeed :: b) =
          before ++ lexeme .string (t ++ Bytes.lineFeed :: more) :: after := by
  induction a generalizing skip with
  | nil => exact .inl fun s hs => by simp [splitFrom] at hs
  | cons x a ih =>
      cases skip with
      | succ skip => exact ih (Nat.le_of_succ_le_succ hskip) h
      | zero =>
          rw [List.cons_append, splitFrom] at h ⊢
          obtain ⟨hfront, hrest⟩ := List.forall_mem_cons.mp h
          rw [splitFrom]
          rcases front_cases hfront with hclean | ⟨hopen, more, hclosed⟩
          · obtain ⟨t, ht, hprefix⟩ := front_text x a
            have hlen : (front x a).text.length - 1 ≤ a.length := by
              rw [ht, List.length_cons, Nat.add_sub_cancel]
              exact hprefix.length_le
            rw [front_break b (closed_of_clean hclean)] at hrest ⊢
            rcases ih hlen hrest with hall | ⟨before, t, more, after, hcut, hcut'⟩
            · exact .inl (List.forall_mem_cons.mpr ⟨hclean, hall⟩)
            · refine .inr ⟨front x a :: before, t, more, after, ?_, ?_⟩
              · rw [hcut, List.cons_append]
              · rw [hcut', List.cons_append]
          -- the string takes all that is left of this line, so it is the last segment there
          · refine .inr ⟨[], 34 :: a, more,
              splitFrom ((front x (a ++ Bytes.lineFeed :: b)).text.length - 1)
                (a ++ Bytes.lineFeed :: b), ?_, ?_⟩
            · have htext : (openString (34 :: a)).text.length - 1 = a.length := rfl
              rw [hopen, htext, splitFrom_length_self, List.nil_append]
            · rw [hclosed, List.nil_append]

/-- In a script that is cut without a fault, a line feed is a blank of its own, or it lies inside a
string that is open up to there. -/
theorem split_break (h : ∀ s ∈ split (joined a b), s.fault? = none) :
    ((∀ s ∈ split a, s.fault? = none) ∧ (∀ s ∈ split b, s.fault? = none) ∧
        split (joined a b) = split a ++ blank Bytes.lineFeed :: split b) ∨
      (∃ t, openString t ∈ split a) ∧
        ∃ text, covering? a.length (split (joined a b)) = some (lexeme .string text) := by
  rcases splitFrom_break (Nat.zero_le _) h with hclean | ⟨before, t, more, after, hcut, hcut'⟩
  · have hjoin := split_join_of_clean b hclean
    refine .inl ⟨hclean, fun s hs => h s ?_, hjoin⟩
    rw [hjoin]
    exact List.mem_append_right _ (List.mem_cons_of_mem _ hs)
  · have hlen : (before.flatMap text).length + t.length = a.length := by
      have htext := congrArg List.length (text_split a)
      rw [split, hcut, List.flatMap_append, List.length_append] at htext
      simpa [text] using htext
    refine .inr ⟨⟨t, ?_⟩, t ++ Bytes.lineFeed :: more, ?_⟩
    · rw [split, hcut]
      exact List.mem_append_right _ (List.mem_singleton_self _)
    · show covering? a.length (splitFrom 0 (a ++ Bytes.lineFeed :: b)) = _
      rw [hcut']
      refine covering?_append (by omega) ?_
      show _ < _ + (t ++ Bytes.lineFeed :: more).length
      rw [List.length_append, List.length_cons]
      omega

end Lox.Segment
