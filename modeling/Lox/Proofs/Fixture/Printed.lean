/-
A script that is annotated with what it prints.

# Lines in the sink

Each time a program prints, the sink takes a line with its line feed (`exists_lines_step`), and by
induction what a run printed is its lines, each ended by a line feed (`exists_lines_run`). This asks
for a sink that takes all; then the lines are what the sink has taken, in order.

# Lines in the text

A text that is printed may itself hold line feeds, and then it cannot be told from several ones. If
none does, the lines are found again in the printed text, wherever there are empty ones among them
(`outputLines_printed`). The one exception is a single empty line, which is taken for no line at
all: without the last line feed the text is empty (`join_eq_nil_iff`).

# The verdict

A run that comes to its end reports nothing and exits well (`run_completed`), so only its lines are
compared (`compare_lines_eq_nil_iff`). A script that is annotated with the lines it prints passes,
except for the one empty line (`annotated_script_passes`), which is shown not to pass
(`annotated_empty_line_fails`).
-/
import Lox.Proofs.Fixture.Verdict
import Lox.Proofs.Machine.Output
import Lox.Proofs.Text.Split

namespace Lox

-- ==== Lines that are printed

/-- The lines that were handed to a sink, one for each time that something was printed. -/
def Sink.Lines (sink : Sink) (lines : List Bytes) : Prop :=
  sink.taken.reverse = lines.map (· ++ [Bytes.lineFeed])

instance (sink : Sink) (lines : List Bytes) : Decidable (sink.Lines lines) :=
  inferInstanceAs (Decidable (_ = _))

namespace Machine

variable {host : Host} {m : Machine}

/-- What a step prints is a line. -/
theorem exists_lines_step (hall : m.sink.TakesAll) (hdone : m.isDone = false)
    (h : ∃ lines, m.sink.Lines lines) : ∃ lines, (m.step host).sink.Lines lines := by
  obtain ⟨lines, h⟩ := h
  have htaken := (taken_step host hall hdone).2
  unfold Sink.Lines at h ⊢
  rw [htaken]
  cases hp : m.prints? with
  | none => exact ⟨lines, h⟩
  | some text =>
      obtain ⟨v, -, -, -, rfl⟩ := of_prints? hp
      refine ⟨lines ++ [v.display], ?_⟩
      rw [Option.toList_some, List.singleton_append, List.reverse_cons, h, List.map_append]
      rfl

/-- So is what a run prints, each time that it prints. -/
theorem exists_lines_run (host : Host) (k : Nat) (hall : m.sink.TakesAll)
    (h : ∃ lines, m.sink.Lines lines) : ∃ lines, (m.run host k).sink.Lines lines := by
  induction k generalizing m with
  | zero => exact h
  | succ k ih =>
      rw [run]
      split
      · exact h
      next hdone =>
        have hdone' := Bool.eq_false_iff.mpr hdone
        exact ih (taken_step host hall hdone').1 (exists_lines_step hall hdone' h)

end Machine

/-- What was printed is the lines, each ended by a line feed. -/
theorem Sink.Lines.contents {sink : Sink} {lines : List Bytes} (h : sink.Lines lines) :
    sink.contents = lines.flatMap (· ++ [Bytes.lineFeed]) := by
  unfold Sink.contents
  rw [h, List.flatMap_def]

-- ==== A run to the end

namespace Session

variable {s : Session} {source : Bytes} {fuel : Nat}

/-- A run that comes to its end reports nothing and exits well, and what it printed is what its sink
has taken. -/
theorem run_completed (h : (s.run fuel source).1.outcome = .completed) :
    (s.run fuel source).1.reported = [] ∧ (s.run fuel source).1.exitCode = .ok ∧
      (s.run fuel source).1.printed = (s.run fuel source).2.interpreter.sink.contents ∧
      (s.run fuel source).2.interpreter.sink =
        ((s.started source .compact).run (s.host source .compact) fuel).sink := by
  by_cases haccepts : s.Accepts source .compact
  · obtain ⟨⟨log, hrun⟩, hnext⟩ := @run_accepted s source .compact fuel haccepts
    rw [hrun] at h
    rw [hrun, hnext]
    generalize (Interpreter.conclude _ _).1 = ending at h ⊢
    cases ending with
    | finished v => exact ⟨rfl, rfl, rfl, rfl⟩
    | failed f => cases h
    | unfinished => cases h
  · rw [(run_rejected haccepts).1] at h
    cases h

/-- Whatever a session with a sink that takes all prints, it prints in lines. -/
theorem exists_lines (hall : s.interpreter.sink.TakesAll)
    (h : (s.run fuel source).1.outcome = .completed) :
    ∃ lines, (s.run fuel source).2.interpreter.sink.Lines lines := by
  obtain ⟨-, -, -, hsink⟩ := run_completed h
  rw [hsink]
  exact Machine.exists_lines_run _ fuel hall ⟨[], rfl⟩

end Session

namespace Fixture

-- ==== Lines that are found again

/-- A line feed after each line is one between them and one at the end. -/
theorem flatMap_line (lines : List Bytes) (hne : lines ≠ []) :
    lines.flatMap (· ++ [Bytes.lineFeed]) =
      Bytes.join [Bytes.lineFeed] lines ++ [Bytes.lineFeed] := by
  induction lines with
  | nil => exact absurd rfl hne
  | cons line lines ih =>
      rw [List.flatMap_cons]
      cases lines with
      | nil => rw [List.flatMap_nil, List.append_nil, Bytes.join]
      | cons next lines =>
          rw [ih (List.cons_ne_nil _ _), ← List.append_assoc]
          rfl

/-- Only from one empty line, and from none, there is nothing left without the last line feed. -/
theorem join_eq_nil_iff (lines : List Bytes) (hne : lines ≠ []) :
    Bytes.join [Bytes.lineFeed] lines = [] ↔ lines = [[]] := by
  cases lines with
  | nil => exact absurd rfl hne
  | cons line lines =>
      cases lines with
      | nil => simp [Bytes.join]
      | cons next lines => simp [Bytes.join]

/-- Lines are found again in the text that they were printed as, except for a single empty one. -/
theorem outputLines_printed {lines : List Bytes} (h : ∀ line ∈ lines, Bytes.lineFeed ∉ line) :
    outputLines (lines.flatMap (· ++ [Bytes.lineFeed])) = if lines = [[]] then [] else lines := by
  by_cases hne : lines = []
  · subst hne
    rfl
  · unfold outputLines
    rw [flatMap_line lines hne]
    simp only [List.getLast?_concat, if_true, List.dropLast_concat, List.isEmpty_iff,
      join_eq_nil_iff lines hne, Bytes.splitOn_join hne h]

-- ==== The verdict

/-- Where only lines are expected, a run that did nothing else passes just with these lines. -/
theorem compare_lines_eq_nil_iff {output lines : List Bytes} :
    compare ⟨lines, [], []⟩ output [] 0 = [] ↔ output = lines := by
  rw [compare_eq_nil_iff]
  exact ⟨Expectation.Met.output, fun houtput => ⟨houtput, .nil, .never (by simp), rfl⟩⟩

/-- A script that runs to its end prints lines, one each time that it prints. If they hold no line
feed, they are found again in what it printed, and if its annotations say that it prints these
lines and nothing else, it passes. The exception to both is a script that prints one line, an empty
one. -/
theorem annotated_script_passes (fuel : Nat) (reading : Nat → Float) (source : Bytes)
    (hrun : ((Session.clocked .unlimited reading).run fuel source).1.outcome = .completed) :
    let ran := (Session.clocked .unlimited reading).run fuel source
    (∃ lines, ran.2.interpreter.sink.Lines lines) ∧
      ∀ lines, ran.2.interpreter.sink.Lines lines → (∀ line ∈ lines, Bytes.lineFeed ∉ line) →
        (outputLines ran.1.printed = lines ↔ lines ≠ [[]]) ∧
          (Expectation.ofSource source = ⟨lines, [], []⟩ →
            (clockedVerdict fuel reading source = [] ↔ lines ≠ [[]])) := by
  intro ran
  obtain ⟨hreported, hexit, hprinted, -⟩ := Session.run_completed hrun
  refine ⟨Session.exists_lines (fun _ => rfl) hrun, fun lines hlines hfeed => ?_⟩
  have hfound : outputLines ran.1.printed = lines ↔ lines ≠ [[]] := by
    rw [hprinted, hlines.contents, outputLines_printed hfeed]
    by_cases hlone : lines = [[]]
    · simp [hlone]
    · simp [hlone]
  refine ⟨hfound, fun hexpected => ?_⟩
  have hverdict : clockedVerdict fuel reading source =
      compare (.ofSource source) (outputLines ran.1.printed) ran.1.reported
        ran.1.exitCode.code := rfl
  rw [hverdict, hexpected, hreported, hexit, ← hfound]
  exact compare_lines_eq_nil_iff

/-- A script passes that prints empty lines before and after another one. -/
theorem annotated_script_passes_empty_lines :
    let source := utf8
      "print \"\"; // expect: \nprint \"a b\"; // expect: a b\nprint \"\"; // expect:\n"
    ((Session.clocked .unlimited fun _ => 0).run 100 source).1.outcome = .completed ∧
      clockedVerdict 100 (fun _ => 0) source = [] := by
  intro source
  have hrun : ((Session.clocked .unlimited fun _ => 0).run 100 source).1.outcome = .completed := by
    decide +kernel
  have hpass := (annotated_script_passes 100 (fun _ => 0) source hrun).2 [[], utf8 "a b", []]
    (by decide +kernel) (by decide +kernel)
  exact ⟨hrun, (hpass.2 (by decide +kernel)).mpr (by decide +kernel)⟩

/-- A script that prints one empty line, and is annotated with it, does not pass: the line is said
to be missing. -/
theorem annotated_empty_line_fails :
    let source := utf8 "print \"\"; // expect: "
    let ran := (Session.clocked .unlimited fun _ => 0).run 100 source
    ran.1.outcome = .completed ∧ ran.2.interpreter.sink.Lines [[]] ∧
      Expectation.ofSource source = ⟨[[]], [], []⟩ ∧
      clockedVerdict 100 (fun _ => 0) source = [.missingLine 1 []] := by
  intro source ran
  have hexpected : Expectation.ofSource source = ⟨[[]], [], []⟩ := by decide +kernel
  have hprinted : outputLines ran.1.printed = [] := by decide +kernel
  have hreported : ran.1.reported = [] := by decide +kernel
  have hexit : ran.1.exitCode = .ok := by decide +kernel
  refine ⟨by decide +kernel, by decide +kernel, hexpected, ?_⟩
  have hverdict : clockedVerdict 100 (fun _ => 0) source =
      compare (.ofSource source) (outputLines ran.1.printed) ran.1.reported
        ran.1.exitCode.code := rfl
  have herrors : compareErrors id [] [] = [] := (compareErrors_eq_nil_iff [] []).mpr .nil
  rw [hverdict, hexpected, hprinted, hreported, hexit]
  unfold compare
  rw [List.filter_nil, List.map_nil, herrors, compareLines, compareLines]
  rfl

end Fixture

end Lox
