/-
What an annotation on a line makes of the expectations.

# Marks

All marks start with two slashes and have no other one (`IsMark`), so none of them can start inside
another and run on into what follows: a mark is found where it stands, unless there is one in the
text before it (`afterMark?_lead`). Of two marks none is the start of the other
(`not_prefix_of_ne`), so a line with one annotation says one thing (`afterMark?_annotated`,
`afterMark?_unannotated`).

# Line by line

Expectations add up line by line (`addLines_eq`, by induction over the lines), so a line adds what
it says by itself to what is said above and below it (`ofSource_around`). Only the number of the
line comes from the lines above, and only whether there is another failure depends on those below.

# What is expected

An error names its own line or gets that of the annotation, either way as diagnostics are written
(`errorText`). A failure always gets the line of its annotation: a line that is named there becomes
part of the message. So an annotation can expect a static diagnostic of any line, and a failure of
its own line only (`annotation_expects`). Carriage returns at the end of a line are not part of an
annotation (`stripReturns_append`).
-/
import Mathlib.Data.List.Infix
import Lox.Fixture.Expectation
import Lox.Proofs.Number.Digits
import Lox.Proofs.Text.Split

namespace Lox

namespace Bytes

/-- What comes after a lead, in a text that starts with it. -/
theorem after?_eq_some_iff {lead text rest : Bytes} :
    after? lead text = some rest ↔ text = lead ++ rest := by
  fun_induction after? lead text with
  | case1 text => simp
  | case2 l lead => simp
  | case3 l lead text ih => simp [ih]
  | case4 l lead c text hne => simp [Ne.symm hne]

/-- Nothing does, in a text that does not. -/
theorem after?_eq_none {lead text : Bytes} (h : ¬lead <+: text) : after? lead text = none := by
  cases hafter : after? lead text with
  | none => rfl
  | some rest => exact absurd ⟨rest, (after?_eq_some_iff.mp hafter).symm⟩ h

end Bytes

namespace Expectation

-- ==== Marks

/-- The marks of annotations: of a line, of a failure and of an error. -/
def marks : List Bytes :=
  [utf8 "// expect:", utf8 "// expect runtime error: ", utf8 "// error: "]

/-- No annotation starts in the text. -/
def Plain (text : Bytes) : Prop := ∀ mark ∈ marks, ¬mark <:+: text

/-- Two slashes, and after them something without a slash. -/
def IsMark (mark : Bytes) : Prop := ∃ b tail, mark = 47 :: 47 :: b :: tail ∧ 47 ∉ b :: tail

/-- All three marks have the shape of a mark. -/
theorem isMark_of_mem {mark : Bytes} (h : mark ∈ marks) : IsMark mark := by
  simp only [marks, List.mem_cons, List.not_mem_nil, or_false] at h
  rcases h with rfl | rfl | rfl
  · exact ⟨_, _, rfl, by decide⟩
  · exact ⟨_, _, rfl, by decide⟩
  · exact ⟨_, _, rfl, by decide⟩

/-- A mark is not empty. -/
theorem IsMark.ne_nil {mark : Bytes} (h : IsMark mark) : mark ≠ [] := by
  obtain ⟨b, tail, rfl, -⟩ := h
  exact List.cons_ne_nil _ _

variable {mark other lead skipped text : Bytes}

/-- A mark that starts before another one ends before it. Otherwise it would reach over the slashes
that the other one starts with, and past its own start a mark has no slash. -/
theorem IsMark.ends_before {c : UInt8} (hmark : IsMark mark) (hother : IsMark other)
    (h : mark <+: c :: lead ++ (other ++ text)) : mark <+: c :: lead := by
  obtain ⟨b, tail, rfl, htail⟩ := hmark
  obtain ⟨b', tail', rfl, -⟩ := hother
  obtain ⟨rest, hrest⟩ := h
  rcases List.append_eq_append_iff.mp hrest with ⟨left, hlead, -⟩ | ⟨left, hmark, hleft⟩
  · exact ⟨left, hlead.symm⟩
  · -- what is left of the mark would start with the two slashes of the other one
    cases left with
    | nil =>
        rw [List.append_nil] at hmark
        exact ⟨[], by rw [List.append_nil, hmark]⟩
    | cons x left =>
        simp only [List.cons_append, List.cons.injEq] at hleft hmark
        refine absurd ?_ htail
        cases lead with
        | nil =>
            obtain ⟨-, -, rfl⟩ := hmark
            exact (List.cons.inj hleft.2).1 ▸ List.mem_cons_self
        | cons y lead =>
            rw [(List.cons.inj hmark.2).2, ← hleft.1]
            exact List.mem_append_right _ List.mem_cons_self

/-- A byte with which no mark starts is passed over. -/
theorem afterMark?_cons {c : UInt8} (h : ¬mark <+: c :: text) :
    afterMark? mark (c :: text) = afterMark? mark text := by
  rw [afterMark?, Bytes.after?_eq_none h]

/-- No mark is found that is not there. -/
theorem afterMark?_eq_none (hmark : IsMark mark) (h : ¬mark <:+: text) :
    afterMark? mark text = Option.none := by
  induction text with
  | nil => exact Bytes.after?_eq_none fun hpre => hmark.ne_nil (List.prefix_nil.mp hpre)
  | cons c text ih =>
      rw [afterMark?_cons fun hpre => h hpre.isInfix]
      exact ih fun hin => h (hin.trans (List.suffix_cons c text).isInfix)

/-- A mark is found where the text starts with it. -/
theorem afterMark?_self (hmark : IsMark mark) (text : Bytes) :
    afterMark? mark (mark ++ text) = some text := by
  have hafter := Bytes.after?_eq_some_iff.mpr (rfl : mark ++ text = mark ++ text)
  obtain ⟨b, tail, rfl, -⟩ := hmark
  rw [List.cons_append, afterMark?, ← List.cons_append, hafter]

/-- Before another mark, none is found that is not in the text there. -/
theorem afterMark?_lead (hmark : IsMark mark) (hother : IsMark other) (h : ¬mark <:+: lead) :
    afterMark? mark (lead ++ (other ++ text)) = afterMark? mark (other ++ text) := by
  induction lead with
  | nil => rfl
  | cons c lead ih =>
      have hpre : ¬mark <+: c :: (lead ++ (other ++ text)) :=
        fun hpre => h (hmark.ends_before hother hpre).isInfix
      rw [List.cons_append, afterMark?_cons hpre]
      exact ih fun hin => h (hin.trans (List.suffix_cons c lead).isInfix)

/-- No mark starts where there are no slashes. -/
theorem afterMark?_skip (hmark : IsMark mark) (h : 47 ∉ skipped) :
    afterMark? mark (skipped ++ text) = afterMark? mark text := by
  induction skipped with
  | nil => rfl
  | cons c skipped ih =>
      obtain ⟨hc, hskipped⟩ := not_or.mp (mt List.mem_cons.mpr h)
      rw [List.cons_append, afterMark?_cons, ih hskipped]
      intro hpre
      obtain ⟨b, tail, rfl, -⟩ := hmark
      exact hc (List.cons_prefix_cons.mp hpre).1

/-- After another mark, none is found that is not in the text there. -/
theorem afterMark?_other (hmark : IsMark mark) (hother : IsMark other)
    (hne : ¬mark <+: other ++ text) (h : ¬mark <:+: text) :
    afterMark? mark (other ++ text) = Option.none := by
  have hnone := afterMark?_eq_none hmark h
  obtain ⟨b, tail, rfl, htail⟩ := hother
  have hfirst : ¬mark <+: 47 :: 47 :: (b :: tail ++ text) := hne
  have hsecond : ¬mark <+: 47 :: (b :: tail ++ text) := by
    intro hpre
    obtain ⟨b', tail', rfl, -⟩ := hmark
    have hb := (List.cons_prefix_cons.mp (List.cons_prefix_cons.mp hpre).2).1
    exact htail (hb ▸ List.mem_cons_self)
  show afterMark? mark (47 :: 47 :: (b :: tail ++ text)) = _
  rw [afterMark?_cons hfirst, afterMark?_cons hsecond, afterMark?_skip hmark htail, hnone]

/-- Of two marks none is the start of the other. -/
theorem not_prefix_of_ne (hmark : mark ∈ marks) (hother : other ∈ marks) (hne : mark ≠ other)
    (text : Bytes) : ¬mark <+: other ++ text := by
  intro hpre
  have hcomparable := List.prefix_or_prefix_of_prefix hpre (List.prefix_append other text)
  have hdistinct : ∀ a ∈ marks, ∀ b ∈ marks, a <+: b ∨ b <+: a → a = b := by decide
  exact hne (hdistinct mark hmark other hother hcomparable)

/-- A mark is found in a line that has no other one. -/
theorem afterMark?_annotated (hmark : mark ∈ marks) (hlead : Plain lead) (text : Bytes) :
    afterMark? mark (lead ++ (mark ++ text)) = some text := by
  have h := isMark_of_mem hmark
  rw [afterMark?_lead h h (hlead mark hmark), afterMark?_self h]

/-- No other mark is found in it. -/
theorem afterMark?_unannotated (hmark : mark ∈ marks) (hother : other ∈ marks) (hne : mark ≠ other)
    (hlead : Plain lead) (htext : Plain text) :
    afterMark? mark (lead ++ (other ++ text)) = Option.none := by
  have h := isMark_of_mem hmark
  have h' := isMark_of_mem hother
  rw [afterMark?_lead h h' (hlead mark hmark),
    afterMark?_other h h' (not_prefix_of_ne hmark hother hne text) (htext mark hmark)]

/-- No annotation starts in front of a text where there is no slash. -/
theorem plain_append (hskipped : 47 ∉ skipped) (h : Plain text) : Plain (skipped ++ text) := by
  intro mark hmark
  induction skipped with
  | nil => exact h mark hmark
  | cons c skipped ih =>
      obtain ⟨hc, hskipped⟩ := not_or.mp (mt List.mem_cons.mpr hskipped)
      intro hin
      rcases List.infix_cons_iff.mp hin with hpre | hin
      · obtain ⟨b, tail, rfl, -⟩ := isMark_of_mem hmark
        exact hc (List.cons_prefix_cons.mp hpre).1
      · exact ih hskipped hin

-- ==== Line by line

/-- What two parts of a script say together. The failure of the lower one counts. -/
def followedBy (e e' : Expectation) : Expectation where
  output := e.output ++ e'.output
  errors := e.errors ++ e'.errors
  failure := if e'.failure = [] then e.failure else e'.failure

/-- A part that says nothing adds nothing. -/
theorem followedBy_none (e : Expectation) : e.followedBy none = e := by
  simp [followedBy, none]

/-- It does not matter in which order parts are put together. -/
theorem followedBy_assoc (a b c : Expectation) :
    (a.followedBy b).followedBy c = a.followedBy (b.followedBy c) := by
  simp only [followedBy, List.append_assoc, mk.injEq, true_and]
  by_cases h : c.failure = []
  · simp [h]
  · simp [h]

/-- A failure is never an empty text. -/
theorem withLineBelow_ne_nil (message : Bytes) (line : Int) :
    Diagnostic.withLineBelow message line ≠ [] := by
  have hbracket : utf8 "]" ≠ [] := by decide
  simp [Diagnostic.withLineBelow, hbracket]

/-- A line adds what it says by itself. -/
theorem addLine_eq (e : Expectation) (number : Nat) (line : Bytes) :
    e.addLine number line = e.followedBy (none.addLine number line) := by
  unfold addLine
  split
  · simp [followedBy, none]
  split
  · simp [followedBy, none, withLineBelow_ne_nil]
  split
  · simp [followedBy, none]
  · exact (followedBy_none e).symm

/-- So do lines in a row. -/
theorem addLines_eq (e : Expectation) (number : Nat) (lines : List Bytes) :
    e.addLines number lines = e.followedBy (none.addLines number lines) := by
  induction lines generalizing e number with
  | nil => exact (followedBy_none e).symm
  | cons line lines ih =>
      rw [addLines, addLines, ih, ih (none.addLine number line), addLine_eq, followedBy_assoc]

/-- The lower lines are counted on from the upper ones. -/
theorem addLines_append (e : Expectation) (number : Nat) (upper lower : List Bytes) :
    e.addLines number (upper ++ lower) =
      (e.addLines number upper).addLines (number + upper.length) lower := by
  induction upper generalizing e number with
  | nil => rfl
  | cons line upper ih =>
      rw [List.cons_append, addLines, addLines, ih, List.length_cons, Nat.add_assoc,
        Nat.add_comm 1]

/-- An empty line says nothing. -/
theorem addLine_nil (e : Expectation) (number : Nat) : e.addLine number [] = e := rfl

/-- Whether a failure is expected does not depend on the numbers of the lines. -/
theorem failure_addLine_eq_nil_iff (number other : Nat) (line : Bytes) :
    (none.addLine number line).failure = [] ↔ (none.addLine other line).failure = [] := by
  unfold addLine
  split
  · rfl
  split
  · simp [withLineBelow_ne_nil]
  split <;> rfl

/-- The same for lines in a row. -/
theorem failure_addLines_eq_nil_iff (number other : Nat) (lines : List Bytes) :
    (none.addLines number lines).failure = [] ↔ (none.addLines other lines).failure = [] := by
  induction lines generalizing number other with
  | nil => rfl
  | cons line lines ih =>
      have hline := failure_addLine_eq_nil_iff number other line
      have hlines := ih (number + 1) (other + 1)
      rw [addLines, addLines, addLines_eq, addLines_eq (none.addLine other line)]
      simp only [followedBy]
      grind

open Bytes (lineFeed Around)

/-- A line adds what it says by itself to what is said above and below it. The lines below say the
same with other numbers, so that they expect a failure just if they do by themselves. -/
theorem ofSource_around {above below : Bytes} (h : Around above below) :
    ∃ rest : Expectation, (rest.failure = [] ↔ (ofSource below).failure = []) ∧
      ofSource (above ++ below) = (ofSource above).followedBy rest ∧
      ∀ line, lineFeed ∉ line → ofSource (above ++ line ++ below) =
        ((ofSource above).followedBy
          (none.addLine (above.lineFeeds + 1) (stripReturns line))).followedBy rest := by
  obtain ⟨upper, lower, hlength, habove, hbelow, haround⟩ := Bytes.exists_lines_around h
  have hupper : ofSource above = none.addLines 1 (upper.map stripReturns) := by
    unfold ofSource
    rw [habove, List.map_append, addLines_append]
    rfl
  have hline : ∀ line, lineFeed ∉ line → ofSource (above ++ line ++ below) =
      ((ofSource above).followedBy
        (none.addLine (above.lineFeeds + 1) (stripReturns line))).followedBy
          (none.addLines (above.lineFeeds + 2) (lower.map stripReturns)) := by
    intro line hfeed
    rw [hupper]
    unfold ofSource
    rw [haround line hfeed, List.map_append, List.map_cons, addLines_append, addLines,
      List.length_map, hlength, addLines_eq, addLine_eq, Nat.add_comm 1]
  refine ⟨none.addLines (above.lineFeeds + 2) (lower.map stripReturns), ?_, ?_, hline⟩
  · rw [failure_addLines_eq_nil_iff _ 2]
    unfold ofSource
    rw [hbelow]
    rfl
  · have hempty := hline [] List.not_mem_nil
    rw [List.append_nil] at hempty
    rw [hempty, show stripReturns [] = [] from rfl, addLine_nil, followedBy_none]

-- ==== Carriage returns

/-- Carriage returns at the end do not count. -/
theorem stripReturns_append (text : Bytes) (n : Nat) :
    stripReturns (text ++ List.replicate n 13) = stripReturns text := by
  unfold stripReturns
  rw [List.reverse_append, List.reverse_replicate, List.dropWhile_append_of_pos]
  intro b hb
  rw [List.eq_of_mem_replicate hb]
  rfl

/-- Nothing but the end is cut off. -/
theorem stripReturns_isPrefix (text : Bytes) : stripReturns text <+: text := by
  unfold stripReturns
  rw [← List.reverse_suffix, List.reverse_reverse]
  exact List.dropWhile_suffix _

/-- A text that does not end with a carriage return stays as it is. -/
theorem stripReturns_eq_self (h : text.getLast? ≠ some 13) : stripReturns text = text := by
  unfold stripReturns
  rw [← List.head?_reverse] at h
  cases hrev : text.reverse with
  | nil => rw [← List.reverse_reverse text, hrev]
           rfl
  | cons b front =>
      rw [hrev] at h
      have hb : (b == 13) = false := by simpa using h
      rw [List.dropWhile_cons, hb, ← List.reverse_reverse text, hrev]
      rfl

-- ==== What one line says

/-- No annotation starts in a part of a text where none starts. -/
theorem Plain.mono {part : Bytes} (h : Plain text) (hpart : part <:+: text) : Plain part :=
  fun mark hmark hin => h mark hmark (hin.trans hpart)

/-- The text of an annotation is all that comes after its mark. -/
theorem textAfter?_annotated (hmark : mark ∈ marks) (hlead : Plain lead) (hne : text ≠ []) :
    textAfter? mark (lead ++ (mark ++ text)) = some text := by
  rw [textAfter?, afterMark?_annotated hmark hlead, Option.filter_some, if_pos (by simpa using hne)]

/-- Without the mark there is no text. -/
theorem textAfter?_eq_none (h : afterMark? mark text = Option.none) :
    textAfter? mark text = Option.none := by
  rw [textAfter?, h, Option.filter_none]

/-- Without its mark no output is expected. -/
theorem outputLine?_eq_none (h : afterMark? (utf8 "// expect:") text = Option.none) :
    outputLine? text = Option.none := by
  rw [outputLine?, h, Option.map_none]

/-- A line without an annotation says nothing. -/
theorem addLine_plain (number : Nat) (h : Plain text) : none.addLine number text = none := by
  have hnone (mark : Bytes) (hmark : mark ∈ marks) : afterMark? mark text = Option.none :=
    afterMark?_eq_none (isMark_of_mem hmark) (h mark hmark)
  unfold addLine
  rw [outputLine?_eq_none (hnone _ (by simp [marks])),
    textAfter?_eq_none (hnone _ (by simp [marks])), textAfter?_eq_none (hnone _ (by simp [marks]))]

/-- An annotated failure is expected with the number of its line below it. -/
theorem addLine_failure (number : Nat) (hlead : Plain lead) (htext : Plain text) (hne : text ≠ []) :
    none.addLine number (lead ++ (utf8 "// expect runtime error: " ++ text)) =
      ⟨[], [], Diagnostic.withLineBelow text number⟩ := by
  have hmark : utf8 "// expect runtime error: " ∈ marks := by simp [marks]
  have hnone (mark : Bytes) (h : mark ∈ marks) (hother : mark ≠ utf8 "// expect runtime error: ") :=
    afterMark?_unannotated h hmark hother hlead htext
  unfold addLine
  rw [outputLine?_eq_none (hnone _ (by simp [marks]) (by decide)),
    textAfter?_annotated hmark hlead hne]
  rfl

/-- An annotated error is expected as it names its line, or on the line it stands on. -/
theorem addLine_error (number : Nat) (hlead : Plain lead) (htext : Plain text) (hne : text ≠ []) :
    none.addLine number (lead ++ (utf8 "// error: " ++ text)) =
      ⟨[], [errorText number text], []⟩ := by
  have hmark : utf8 "// error: " ∈ marks := by simp [marks]
  have hnone (mark : Bytes) (h : mark ∈ marks) (hother : mark ≠ utf8 "// error: ") :=
    afterMark?_unannotated h hmark hother hlead htext
  unfold addLine
  rw [outputLine?_eq_none (hnone _ (by simp [marks]) (by decide)),
    textAfter?_eq_none (hnone _ (by simp [marks]) (by decide)),
    textAfter?_annotated hmark hlead hne]
  rfl

-- ==== Lines that are named

/-- The name of a line, as it starts the text of an error. -/
def lineName (number : Nat) : Bytes := utf8 "[line " ++ Bytes.ofNat number ++ utf8 "] "

/-- What the name of a line does not have in it. -/
theorem not_mem_lineName {b : UInt8} (hopen : b ∉ utf8 "[line ") (hdigit : Bytes.isDigit b = false)
    (hclose : b ∉ utf8 "] ") (number : Nat) : b ∉ lineName number := by
  intro hmem
  rcases List.mem_append.mp hmem with hmem | hmem
  · rcases List.mem_append.mp hmem with hmem | hmem
    · exact hopen hmem
    · rw [(Bytes.digits_ofNat number).each b hmem] at hdigit
      cases hdigit
  · exact hclose hmem

/-- An error that starts with the name of a line names it. -/
theorem namesLine_lineName (number : Nat) (text : Bytes) :
    namesLine (lineName number ++ text) = true := by
  have hdigits := Bytes.digits_ofNat number
  have hafter : Bytes.after? (utf8 "[line ") (lineName number ++ text) =
      some (Bytes.ofNat number ++ (93 :: 32 :: text)) := by
    rw [Bytes.after?_eq_some_iff, lineName, List.append_assoc, List.append_assoc]
    rfl
  have hstop : Bytes.isDigit 93 = false := by decide
  unfold namesLine
  rw [hafter]
  simp [List.takeWhile_append_of_pos hdigits.each, List.dropWhile_append_of_pos hdigits.each, hstop,
    hdigits.some]

/-- One that starts as diagnostics do without their line does not. -/
theorem namesLine_error (text : Bytes) : namesLine (utf8 "Error" ++ text) = false := by
  have hafter : Bytes.after? (utf8 "[line ") (utf8 "Error" ++ text) = Option.none := rfl
  unfold namesLine
  rw [hafter]

/-- A static diagnostic as it is written, without its line. -/
def lineless (d : Diagnostic) : Bytes := utf8 "Error" ++ (d.place ++ utf8 ": " ++ d.message)

/-- A static diagnostic is written with the name of its line first. -/
theorem render_static {d : Diagnostic} {line : Nat} (hstatic : d.stage ≠ .runtime)
    (hline : d.line = line) : d.render = lineName line ++ lineless d := by
  have hsplit : utf8 "] Error" = utf8 "] " ++ utf8 "Error" := by decide
  have hd : d.isStatic = true := by simpa [Diagnostic.isStatic, Stage.isStatic] using hstatic
  unfold Diagnostic.render lineName lineless
  rw [if_pos hd, hline, hsplit]
  simp only [List.append_assoc]
  rfl

/-- One of a running script is written with its line below. -/
theorem render_running {d : Diagnostic} (hrunning : d.stage = .runtime) :
    d.render = Diagnostic.withLineBelow d.message d.line := by
  have hd : d.isStatic = false := by simp [Diagnostic.isStatic, Stage.isStatic, hrunning]
  unfold Diagnostic.render
  rw [hd, if_neg Bool.false_ne_true]

-- ==== Scripts with an annotation

/-- A text that can stand behind a mark: it is on one line, no annotation starts in it, and it does
not end with a carriage return, since those at the end of a line do not count. -/
structure Fits (text : Bytes) : Prop where
  nonempty : text ≠ []
  oneLine : lineFeed ∉ text
  plain : Plain text
  ending : text.getLast? ≠ some 13

/-- Nor does a line end with a carriage return that ends with such a text. -/
theorem Fits.getLast?_append (h : Fits text) (lead : Bytes) : (lead ++ text).getLast? ≠ some 13 := by
  have hlast := List.getLast?_eq_some_getLast h.nonempty
  rw [List.getLast?_append, hlast, Option.some_or, ← hlast]
  exact h.ending

/-- A text may start with the name of a line. -/
theorem Fits.lineName (h : Fits text) (number : Nat) : Fits (lineName number ++ text) where
  nonempty := by simp [h.nonempty]
  oneLine := by
    have := not_mem_lineName (b := lineFeed) (by decide) (by decide) (by decide) number
    simp [this, h.oneLine]
  plain := plain_append (not_mem_lineName (by decide) (by decide) (by decide) number) h.plain
  ending := h.getLast?_append _

/-- A place for an annotation in a script, on a line that has none. The line has all that is asked
of it as fields, so that filling the place always makes a line with one annotation. -/
structure Place where
  /-- The lines above. -/
  above : Bytes
  /-- What stands before the annotation on its line. -/
  lead : Bytes
  /-- How many carriage returns end the line. -/
  returns : Nat
  /-- The lines below. -/
  below : Bytes
  around : Around above below
  oneLine : lineFeed ∉ lead
  plain : Plain lead

namespace Place

/-- The number of the line. -/
def number (p : Place) : Nat := p.above.lineFeeds + 1

/-- The script with an annotation at the place. -/
def fill (p : Place) (note : Bytes) : Bytes :=
  p.above ++ (p.lead ++ note ++ List.replicate p.returns 13) ++ p.below

/-- An annotation adds what its line says to what the script says without it. What stands before it
on the line says nothing by itself, and the carriage returns after it are cut off. -/
theorem ofSource_fill (p : Place) :
    ∃ rest : Expectation, (rest.failure = [] ↔ (ofSource p.below).failure = []) ∧
      ofSource (p.fill []) = (ofSource p.above).followedBy rest ∧
      ∀ mark ∈ marks, ∀ text, Fits text → ofSource (p.fill (mark ++ text)) =
        ((ofSource p.above).followedBy
          (none.addLine p.number (p.lead ++ (mark ++ text)))).followedBy rest := by
  obtain ⟨rest, hfailure, -, hline⟩ := ofSource_around p.around
  have hreturns : lineFeed ∉ List.replicate p.returns 13 :=
    fun hmem => absurd (List.eq_of_mem_replicate hmem) (by decide)
  refine ⟨rest, hfailure, ?_, fun mark hmark text htext => ?_⟩
  · have hplain : Plain (stripReturns p.lead) := p.plain.mono (stripReturns_isPrefix p.lead).isInfix
    rw [fill, List.append_nil, hline _ (by simp [p.oneLine, hreturns]), stripReturns_append,
      addLine_plain _ hplain, followedBy_none]
  · have hfeed : lineFeed ∉ mark := by
      have hall : ∀ mark ∈ marks, lineFeed ∉ mark := by decide
      exact hall mark hmark
    have hlast : (p.lead ++ (mark ++ text)).getLast? ≠ some 13 := by
      rw [← List.append_assoc]
      exact htext.getLast?_append _
    rw [fill, hline _ (by simp [p.oneLine, hreturns, hfeed, htext.oneLine]), stripReturns_append,
      stripReturns_eq_self hlast]
    rfl

/-- An annotated error comes between those above and those below. -/
theorem ofSource_fill_error (p : Place) :
    ∃ later, (ofSource (p.fill [])).errors = (ofSource p.above).errors ++ later ∧
      ∀ text, Fits text → ofSource (p.fill (utf8 "// error: " ++ text)) =
        { ofSource (p.fill []) with
          errors := (ofSource p.above).errors ++ errorText p.number text :: later } := by
  obtain ⟨rest, -, hwithout, hwith⟩ := p.ofSource_fill
  refine ⟨rest.errors, by rw [hwithout]; rfl, fun text htext => ?_⟩
  rw [hwith _ (by simp [marks]) text htext, addLine_error _ p.plain htext.plain htext.nonempty,
    hwithout]
  simp [followedBy]

/-- An annotated failure counts, unless there is another one below. -/
theorem ofSource_fill_failure (p : Place) (hbelow : (ofSource p.below).failure = []) (text : Bytes)
    (htext : Fits text) : ofSource (p.fill (utf8 "// expect runtime error: " ++ text)) =
      { ofSource (p.fill []) with failure := Diagnostic.withLineBelow text p.number } := by
  obtain ⟨rest, hrest, hwithout, hwith⟩ := p.ofSource_fill
  rw [hwith _ (by simp [marks]) text htext, addLine_failure _ p.plain htext.plain htext.nonempty,
    hwithout]
  simp [followedBy, hrest.mpr hbelow, withLineBelow_ne_nil]

end Place

/-- A message that names a line and has another one below it is longer than with one line below. -/
theorem withLineBelow_lineName_ne (line number : Nat) (message : Bytes) :
    Diagnostic.withLineBelow (lineName line ++ message) number ≠
      Diagnostic.withLineBelow message line := by
  intro h
  have hlength := congrArg List.length h
  have hline : Bytes.ofInt line = Bytes.ofNat line := rfl
  have hopen : (utf8 "[line ").length = 6 := by decide
  simp only [Diagnostic.withLineBelow, lineName, hline, List.length_append, hopen] at hlength
  omega

/-- What an annotation says of a diagnostic. For a static one, an error is expected as the diagnostic
is written, whichever line it names, and without a name it is on the line of the annotation. For one
of a running script, the failure is expected on the line of the annotation: a line that is named
becomes part of the message, so that it is never the diagnostic that is expected. -/
theorem annotation_expects (p : Place) (d : Diagnostic) (line : Nat) (hline : d.line = line) :
    let other := ofSource (p.fill [])
    let here : Diagnostic := { d with line := p.number }
    (d.stage ≠ .runtime → Fits (lineless d) → ∃ later,
      other.errors = (ofSource p.above).errors ++ later ∧
      ofSource (p.fill (utf8 "// error: " ++ (lineName line ++ lineless d))) =
        { other with errors := (ofSource p.above).errors ++ d.render :: later } ∧
      ofSource (p.fill (utf8 "// error: " ++ lineless d)) =
        { other with errors := (ofSource p.above).errors ++ here.render :: later }) ∧
    (d.stage = .runtime → Fits d.message → (ofSource p.below).failure = [] →
      ofSource (p.fill (utf8 "// expect runtime error: " ++ d.message)) =
        { other with failure := here.render } ∧
      ofSource (p.fill (utf8 "// expect runtime error: " ++ (lineName line ++ d.message))) =
        { other with failure := Diagnostic.withLineBelow (lineName line ++ d.message) p.number } ∧
      Diagnostic.withLineBelow (lineName line ++ d.message) p.number ≠ d.render) := by
  intro other here
  constructor
  · intro hstatic hfits
    obtain ⟨later, hother, herror⟩ := p.ofSource_fill_error
    have hnamed : errorText p.number (lineName line ++ lineless d) = d.render := by
      rw [errorText, if_pos (namesLine_lineName line _), render_static hstatic hline]
    have hunnamed : errorText p.number (lineless d) = here.render := by
      have hnot : namesLine (lineless d) = false := namesLine_error _
      rw [errorText, hnot, if_neg Bool.false_ne_true, render_static (d := here) hstatic rfl]
      rfl
    exact ⟨later, hother, by rw [herror _ (hfits.lineName line), hnamed],
      by rw [herror _ hfits, hunnamed]⟩
  · intro hrunning hfits hbelow
    have hfailure := p.ofSource_fill_failure hbelow
    refine ⟨?_, hfailure _ (hfits.lineName line), ?_⟩
    · rw [hfailure _ hfits, render_running (d := here) hrunning]
    · rw [render_running hrunning, hline]
      exact withLineBelow_lineName_ne line p.number d.message

/-- On the second of three lines, after other text and before a carriage return, an error of the
ninth line is expected as it is written, and a failure on the second line. -/
theorem annotation_expects_on_second_line :
    let p : Place :=
      { above := utf8 "var a = 1;\n"
        lead := utf8 "a + 1 = a; "
        returns := 1
        below := utf8 "\nprint a; // expect: 1"
        around := ⟨by decide, by decide⟩
        oneLine := by decide
        plain := by unfold Plain; decide }
    let target : Diagnostic := ⟨.parse, 9, utf8 " at '='", utf8 "Invalid assignment target."⟩
    let unbound : Diagnostic := ⟨.runtime, 9, [], utf8 "Undefined variable 'a'."⟩
    (target.line = (9 : Nat) ∧ unbound.line = (9 : Nat)) ∧
      ofSource (p.fill (utf8 "// error: [line 9] Error at '=': Invalid assignment target.")) =
        ⟨[utf8 "1"], [target.render], []⟩ ∧
      ofSource (p.fill (utf8 "// expect runtime error: Undefined variable 'a'.")) =
        ⟨[utf8 "1"], [], utf8 "Undefined variable 'a'.\n[line 2]"⟩ := by
  intro p target unbound
  have hother : ofSource (p.fill []) = ⟨[utf8 "1"], [], []⟩ := by decide +kernel
  have htarget : Fits (lineless target) :=
    ⟨by decide, by decide, by unfold Plain; decide +kernel, by decide⟩
  have hunbound : Fits unbound.message :=
    ⟨by decide, by decide, by unfold Plain; decide +kernel, by decide⟩
  refine ⟨⟨rfl, rfl⟩, ?_, ?_⟩
  · obtain ⟨later, hlater, hnamed, -⟩ := (annotation_expects p target 9 rfl).1 (by decide) htarget
    rw [hother] at hlater hnamed
    obtain ⟨habove, rfl⟩ := List.append_eq_nil_iff.mp hlater.symm
    rw [habove] at hnamed
    exact hnamed
  · have hfailure := ((annotation_expects p unbound 9 rfl).2 rfl hunbound (by decide +kernel)).1
    have hhere : ({ unbound with line := p.number } : Diagnostic).render =
        utf8 "Undefined variable 'a'.\n[line 2]" := by decide +kernel
    rw [hother, hhere] at hfailure
    exact hfailure

/-- A failure that names its line is expected on the line of the annotation, with the name as part of
the message. -/
theorem failure_keeps_named_line :
    ofSource (utf8 "// expect runtime error: [line 9] Undefined variable 'a'.") =
        ⟨[], [], utf8 "[line 9] Undefined variable 'a'.\n[line 1]"⟩ ∧
      (Diagnostic.mk .runtime 9 [] (utf8 "Undefined variable 'a'.")).render =
        utf8 "Undefined variable 'a'.\n[line 9]" := by
  decide +kernel

end Expectation

end Lox
