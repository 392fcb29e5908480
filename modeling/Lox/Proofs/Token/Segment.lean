/-
The first segment of a text.

A script is cut by taking the first segment off its front, again and again, so what cutting needs to
know is the same for all kinds of segments: the segment starts at the front of the text, takes at
least one byte, and goes no further than the text does. `front_text` says all three at once: the
text of the first segment is the first byte and then a front of the rest. There is one lemma for
each way that a segment is found, for numbers (`numberText_prefix`), operators, slashes, strings and
characters that are unexpected.

That the segment takes a byte is what makes cutting end, and that it is a front of the text is what
makes the segments, one after the other, the text again. By induction over the cut, no segment of a
script is empty (`text_ne_nil_of_mem`), and so no lexeme is (`lexeme_ne_nil_of_mem`).
-/
import Lox.Token.Scan

namespace Lox.Segment

-- ==== What the first segment covers

/-- The text of a number is the front of the text it stands in. -/
theorem numberText_prefix (digits : Bytes) : numberText digits <+: digits := by
  have hwhole : digits.takeWhile Bytes.isDigit <+: digits := List.takeWhile_prefix _
  unfold numberText
  simp only
  split
  next d rest hdrop =>
    split
    · -- the point and the digits after it follow the whole part
      have hcut : digits.takeWhile Bytes.isDigit ++ 46 :: d :: rest = digits := by
        rw [← hdrop]
        exact List.takeWhile_append_dropWhile
      conv => rhs; rw [← hcut]
      exact List.prefix_append_right_inj _ |>.mpr
        (List.cons_prefix_cons.mpr ⟨rfl, List.takeWhile_prefix _⟩)
    · exact hwhole
  next => exact hwhole

/-- A number starts with its first digit. -/
theorem numberText_cons {b : UInt8} {rest : Bytes} (hb : Bytes.isDigit b = true) :
    ∃ t, numberText (b :: rest) = b :: t ∧ t <+: rest := by
  have hpre := numberText_prefix (b :: rest)
  cases hn : numberText (b :: rest) with
  | nil =>
      unfold numberText at hn
      simp only [List.takeWhile_cons, hb, if_true] at hn
      split at hn
      · split at hn <;> simp at hn
      · simp at hn
  | cons c t =>
      rw [hn] at hpre
      obtain ⟨rfl, ht⟩ := List.cons_prefix_cons.mp hpre
      exact ⟨t, rfl, ht⟩

/-- An operator takes one byte, or two. -/
theorem operator_text (b : UInt8) (rest : Bytes) (single double : Kind) :
    ∃ t, (operator b rest single double).text = b :: t ∧ t <+: rest := by
  unfold operator
  split
  next more => exact ⟨[61], rfl, List.cons_prefix_cons.mpr ⟨rfl, List.nil_prefix⟩⟩
  next => exact ⟨[], rfl, List.nil_prefix⟩

/-- A slash alone, or a comment. -/
theorem slashFrom_text (rest : Bytes) : ∃ t, (slashFrom rest).text = 47 :: t ∧ t <+: rest := by
  unfold slashFrom
  split
  next more =>
    exact ⟨_, rfl, List.cons_prefix_cons.mpr ⟨rfl, List.takeWhile_prefix _⟩⟩
  next => exact ⟨[], rfl, List.nil_prefix⟩

/-- A closed string, or an open one. A closed string has one quote more than what stands before the
next quote, and that quote is there. -/
theorem stringFrom_text (rest : Bytes) : ∃ t, (stringFrom rest).text = 34 :: t ∧ t <+: rest := by
  unfold stringFrom
  simp only
  split
  next hlt =>
    refine ⟨rest.takeWhile (· != 34) ++ [34], rfl, ?_⟩
    have hcut := List.takeWhile_append_dropWhile (p := (· != 34)) (l := rest)
    cases hd : rest.dropWhile (· != 34) with
    | nil =>
        rw [hd, List.append_nil] at hcut
        rw [hcut] at hlt
        exact absurd hlt (Nat.lt_irrefl _)
    | cons q more =>
        have hq : q = 34 := by
          have := List.head_dropWhile_not (· != 34) (l := rest) (by simp [hd])
          simpa [hd] using this
        conv => rhs; rw [← hcut, hd, hq]
        exact (List.prefix_append_right_inj _).mpr
          (List.cons_prefix_cons.mpr ⟨rfl, List.nil_prefix⟩)
  next => exact ⟨rest, rfl, List.prefix_refl _⟩

/-- A byte is known by its character. -/
theorem eq_of_ofUInt8 {b : UInt8} {c : Char} (h : Char.ofUInt8 b = c) : b = c.toUInt8 := by
  subst h
  exact b.ofNat_toNat.symm

/-- A character that starts no lexeme. -/
theorem unexpected_text (b : UInt8) (rest : Bytes) :
    ∃ t, (unexpected ((b :: rest).take (Utf8.front b rest).width)).text = b :: t ∧ t <+: rest := by
  obtain ⟨w, hw⟩ := Nat.exists_eq_succ_of_ne_zero (Nat.ne_of_gt (Utf8.front b rest).width_pos)
  rw [hw]
  exact ⟨rest.take w, rfl, List.take_prefix _ _⟩

/-- The first segment starts with the first byte and goes no further than the text. So cutting off
segments comes to an end, and what was cut off is the text. -/
theorem front_text (b : UInt8) (rest : Bytes) :
    ∃ t, (front b rest).text = b :: t ∧ t <+: rest := by
  have one : ∀ kind, ∃ t, (lexeme kind [b]).text = b :: t ∧ t <+: rest :=
    fun _ => ⟨[], rfl, List.nil_prefix⟩
  have blankByte : ∃ t, (blank b).text = b :: t ∧ t <+: rest := ⟨[], rfl, List.nil_prefix⟩
  unfold front
  split
  · exact one _
  · exact one _
  · exact one _
  · exact one _
  · exact one _
  · exact one _
  · exact one _
  · exact one _
  · exact one _
  · exact one _
  · exact operator_text ..
  · exact operator_text ..
  · exact operator_text ..
  · exact operator_text ..
  next hslash =>
    obtain rfl : b = 47 := eq_of_ofUInt8 hslash
    exact slashFrom_text rest
  · exact blankByte
  · exact blankByte
  · exact blankByte
  · exact blankByte
  next hquote =>
    obtain rfl : b = 34 := eq_of_ofUInt8 hquote
    exact stringFrom_text rest
  · split
    next hdigit => exact numberText_cons hdigit
    next =>
      split
      · exact ⟨_, rfl, List.takeWhile_prefix _⟩
      · exact unexpected_text b rest

-- ==== Every lexeme has a byte

/-- No segment of a text is empty. -/
theorem text_ne_nil_of_mem {skip : Nat} {text : Bytes} {s : Segment}
    (h : s ∈ splitFrom skip text) : s.text ≠ [] := by
  fun_induction splitFrom skip text with
  | case1 => simp at h
  | case2 skip b rest ih => exact ih h
  | case3 b rest segment ih =>
      rcases List.mem_cons.mp h with rfl | h
      · obtain ⟨t, ht, -⟩ := front_text b rest
        simp [segment, ht]
      · exact ih h

/-- A token of a text has a lexeme, but for the end of the script. -/
theorem lexeme_ne_nil_of_mem {segments : List Segment} {line : Int} {t : Token}
    (hs : ∀ s ∈ segments, s.text ≠ []) (ht : t ∈ tokens line segments) (hk : t.kind ≠ .eof) :
    t.lexeme ≠ [] := by
  induction segments generalizing line with
  | nil =>
      obtain rfl : t = _ := by simpa [tokens] using ht
      exact absurd rfl hk
  | cons s rest ih =>
      have hrest : ∀ s ∈ rest, s.text ≠ [] := fun s' h' => hs s' (List.mem_cons_of_mem _ h')
      cases s with
      | lexeme kind text =>
          rcases List.mem_cons.mp ht with rfl | ht
          · exact hs _ List.mem_cons_self
          · exact ih hrest ht
      | blank b => exact ih hrest ht
      | comment text => exact ih hrest ht
      | unexpected text => exact ih hrest ht
      | openString text => exact ih hrest ht

end Lox.Segment
