/-
Texts cut at a byte.

# Cutting and appending

Cutting a text at a byte always gives one piece at least (`splitOn_ne_nil`), and one more than the
byte occurs (`length_splitOn`). The recursion goes over the text from its front: an occurrence
starts a new piece (`splitOn_cons_self`) and any other byte joins the first piece
(`splitOn_cons_of_ne`). By induction the pieces before an occurrence come before those after it,
whatever the two texts are (`splitOn_append`).

# Cutting and joining

A text that does not hold the byte is one piece (`splitOn_of_not_mem`). So texts that do not hold it
come back from the text that they are joined to (`splitOn_join`).

# Lines

Line feeds cut a text into its lines. `Around above below` says that there is place for a line
between two texts. Whatever line is put there, the lines above it and below it stay the same, and
there are as many above it as line feeds (`exists_lines_around`). With this, what is said of a line
of a file is said of the line alone.
-/
import Lox.Text.Bytes

namespace Lox.Bytes

variable {b : UInt8}

/-- There is one piece at least, also of the empty text. -/
theorem splitOn_ne_nil (b : UInt8) (text : Bytes) : splitOn b text ≠ [] := by
  cases text with
  | nil => exact List.cons_ne_nil _ _
  | cons c text =>
      show (if c = b then _ else _) ≠ []
      by_cases h : c = b
      · rw [if_pos h]
        exact List.cons_ne_nil _ _
      · rw [if_neg h]
        split
        all_goals exact List.cons_ne_nil _ _

/-- An occurrence at the front ends an empty piece. -/
theorem splitOn_cons_self (b : UInt8) (text : Bytes) : splitOn b (b :: text) = [] :: splitOn b text :=
  if_pos rfl

/-- Any other byte at the front belongs to the first piece. -/
theorem splitOn_cons_of_ne {b c : UInt8} {text piece : Bytes} {others : List Bytes} (h : c ≠ b)
    (hsplit : splitOn b text = piece :: others) :
    splitOn b (c :: text) = (c :: piece) :: others := by
  unfold splitOn at hsplit ⊢
  rw [List.foldr_cons, if_neg h, hsplit]

/-- The pieces before an occurrence come first, and then those after it. -/
theorem splitOn_append (b : UInt8) (text rest : Bytes) :
    splitOn b (text ++ b :: rest) = splitOn b text ++ splitOn b rest := by
  induction text with
  | nil => exact splitOn_cons_self b rest
  | cons c text ih =>
      rw [List.cons_append]
      by_cases h : c = b
      · rw [h, splitOn_cons_self, splitOn_cons_self, ih, List.cons_append]
      · obtain ⟨piece, others, hsplit⟩ := List.exists_cons_of_ne_nil (splitOn_ne_nil b text)
        rw [hsplit, List.cons_append] at ih
        rw [splitOn_cons_of_ne h ih, splitOn_cons_of_ne h hsplit, List.cons_append]

/-- There is one piece more than there are occurrences. -/
theorem length_splitOn (b : UInt8) (text : Bytes) : (splitOn b text).length = text.count b + 1 := by
  induction text with
  | nil => rfl
  | cons c text ih =>
      by_cases h : c = b
      · rw [h, splitOn_cons_self, List.length_cons, ih, List.count_cons_self]
      · obtain ⟨piece, others, hsplit⟩ := List.exists_cons_of_ne_nil (splitOn_ne_nil b text)
        rw [hsplit] at ih
        rw [splitOn_cons_of_ne h hsplit, List.count_cons_of_ne h]
        exact ih

/-- A text without the byte is all one piece. -/
theorem splitOn_of_not_mem {text : Bytes} (h : b ∉ text) : splitOn b text = [text] := by
  induction text with
  | nil => rfl
  | cons c text ih =>
      obtain ⟨hc, htext⟩ := not_or.mp (mt List.mem_cons.mpr h)
      exact splitOn_cons_of_ne (Ne.symm hc) (ih htext)

/-- Texts without the byte come back when they are joined by it and cut again. -/
theorem splitOn_join {pieces : List Bytes} (hne : pieces ≠ []) (h : ∀ piece ∈ pieces, b ∉ piece) :
    splitOn b (join [b] pieces) = pieces := by
  induction pieces with
  | nil => exact absurd rfl hne
  | cons piece pieces ih =>
      obtain ⟨hpiece, hpieces⟩ := List.forall_mem_cons.mp h
      cases pieces with
      | nil => exact splitOn_of_not_mem hpiece
      | cons next pieces =>
          rw [show join [b] (piece :: next :: pieces) = piece ++ [b] ++ join [b] (next :: pieces)
            from rfl, List.append_assoc, List.singleton_append, splitOn_append,
            splitOn_of_not_mem hpiece, ih (List.cons_ne_nil _ _) hpieces, List.singleton_append]

-- ==== Lines

/-- There is place for a line between the two texts: the upper one is ended by a line feed, and the
lower one starts with one, unless there is nothing there. -/
structure Around (above below : Bytes) : Prop where
  above : above = [] ∨ above.getLast? = some lineFeed
  below : below = [] ∨ below.head? = some lineFeed

/-- Whatever line stands between two texts, the lines above and below it are the same. The text
above ends with a line feed or is empty, and the text below begins with one or is empty, so that the
line does not run into them. -/
theorem exists_lines_around {above below : Bytes} (h : Around above below) :
    ∃ upper lower : List Bytes, upper.length = above.lineFeeds ∧
      splitOn lineFeed above = upper ++ [[]] ∧ splitOn lineFeed below = [] :: lower ∧
      ∀ line, lineFeed ∉ line →
        splitOn lineFeed (above ++ line ++ below) = upper ++ line :: lower := by
  have hupper : ∃ upper : List Bytes, upper.length = above.lineFeeds ∧
      ∀ text, splitOn lineFeed (above ++ text) = upper ++ splitOn lineFeed text := by
    rcases h.above with rfl | hlast
    · exact ⟨[], rfl, fun text => rfl⟩
    · obtain ⟨front, rfl⟩ := List.getLast?_eq_some_iff.mp hlast
      refine ⟨splitOn lineFeed front, ?_, fun text => ?_⟩
      · rw [length_splitOn, lineFeeds, List.count_append]
        rfl
      · rw [List.append_assoc, List.singleton_append, splitOn_append]
  have hlower : ∃ lower : List Bytes, splitOn lineFeed below = [] :: lower ∧
      ∀ line, lineFeed ∉ line → splitOn lineFeed (line ++ below) = line :: lower := by
    rcases h.below with rfl | hhead
    · exact ⟨[], rfl, fun line hline => by rw [List.append_nil, splitOn_of_not_mem hline]⟩
    · obtain ⟨rest, rfl⟩ := List.head?_eq_some_iff.mp hhead
      refine ⟨splitOn lineFeed rest, splitOn_cons_self _ rest, fun line hline => ?_⟩
      rw [splitOn_append, splitOn_of_not_mem hline, List.singleton_append]
  -- the two halves do not depend on the line, so the same lines serve for all of them
  obtain ⟨upper, hlength, hupper⟩ := hupper
  obtain ⟨lower, hbelow, hlower⟩ := hlower
  refine ⟨upper, lower, hlength, ?_, hbelow, fun line hline => ?_⟩
  · rw [← List.append_nil above, hupper]
    rfl
  · rw [List.append_assoc, hupper, hlower line hline]

end Lox.Bytes
