/-
What the prompt makes of the lines it is given.

# Lines that wait

Lines that leave the source open, however few of them are taken, are all kept (`Waiting`). The chunk
that is being read after them is known from these lines alone (`OpenChunk.after`), and an empty one
among them is no exception, since a source that is open is not empty (`isEmpty_after`). So an answer
finds the lines that wait and nothing else (`step_after`).

# Runs of lines

A run of lines is read as a chunk just if it is the shortest one that may end (`readChunk_closed`).
Every list of lines falls into such runs and lines that still wait (`exists_closed`, by induction
from the last line), and it does so in one way only (`Cuts.unique`), since of two runs that could be
taken neither goes on after the other (`Takes.unique`).

# The end, and giving up

The end of the input makes a chunk of the lines that wait (`readChunk_ended`), and giving up drops
them (`readChunk_abort`). What comes before is read alike in both cases (`readChunks_closed`, by
induction over the runs). Put together, the chunks have all lines, in order and unchanged, or all
but those that were given up (`reading_keeps_lines`).
-/
import Mathlib.Data.List.Induction
import Lox.Proofs.Repl.Chunk

namespace Lox

variable {prompts : Prompts} {lines run rest : List Bytes} {line : Bytes} {runs : List (List Bytes)}

-- ==== Runs of lines

/-- The prompts for the first `n` answers: one for the first line, and the other one after it. -/
def Prompts.upTo (prompts : Prompts) : Nat → List Bytes
  | 0 => []
  | n + 1 => prompts.first :: List.replicate n prompts.further

namespace Chunk

/-- However few of the lines are taken, the source is left open. -/
def Waiting (lines : List Bytes) : Prop :=
  ∀ front, front <+: lines → front ≠ [] → needsMore (unlines front) = true

/-- Of the lines `run ++ rest`, the run is the shortest that may end, or all of them if none may. -/
structure Takes (run rest : List Bytes) : Prop where
  some : run ≠ []
  shortest : ∀ front, front <+: run → front ≠ [] → front ≠ run → needsMore (unlines front) = true
  ends : needsMore (unlines run) = false ∨ rest = []

/-- Lines and the runs that they are taken in, one after the other. -/
inductive Cuts : List Bytes → List (List Bytes) → Prop where
  | nil : Cuts [] []
  | cons {run rest : List Bytes} {runs : List (List Bytes)} (takes : Takes run rest)
      (cuts : Cuts rest runs) : Cuts (run ++ rest) (run :: runs)

/-- The chunk of a run of lines. If the run may not end, one more prompt was shown and no line
came. -/
def ofRun (prompts : Prompts) (run : List Bytes) : Chunk where
  source := unlines run
  ok := true
  shown := prompts.upTo (if needsMore (unlines run) then run.length + 1 else run.length)

/-- The run may end, and no shorter one may. -/
def Closed (run : List Bytes) : Prop :=
  ∃ front line, run = front ++ [line] ∧ Waiting front ∧ needsMore (unlines run) = false

/-- No lines wait. -/
theorem waiting_nil : Waiting [] :=
  fun _ hfront hne => absurd (List.prefix_nil.mp hfront) hne

/-- One more line waits if the source is still open with it. -/
theorem Waiting.concat (h : Waiting lines) (hmore : needsMore (unlines (lines ++ [line])) = true) :
    Waiting (lines ++ [line]) := by
  intro front hfront hne
  rcases List.prefix_concat_iff.mp hfront with rfl | hfront
  · exact hmore
  · exact h front hfront hne

/-- All that waits is taken, where nothing comes after it. -/
theorem Waiting.takes (h : Waiting run) (hne : run ≠ []) : Takes run [] :=
  ⟨hne, fun front hfront hsome _ => h front hfront hsome, .inr rfl⟩

/-- A run that may end is taken, whatever comes after it. -/
theorem Closed.takes (h : Closed run) (rest : List Bytes) : Takes run rest := by
  obtain ⟨front, line, rfl, hwait, hdone⟩ := h
  refine ⟨by simp, fun shorter hshorter hne hother => ?_, .inl hdone⟩
  rcases List.prefix_concat_iff.mp hshorter with rfl | hshorter
  · exact absurd rfl hother
  · exact hwait shorter hshorter hne

/-- No run that is taken goes on after another one. -/
theorem Takes.eq_of_prefix {run' rest' : List Bytes} (h : Takes run rest) (h' : Takes run' rest')
    (hsame : run ++ rest = run' ++ rest') (hle : run <+: run') : run = run' := by
  by_contra hne
  have hmore := h'.shortest run hle h.some hne
  rcases h.ends with hdone | rfl
  · rw [hmore] at hdone
    cases hdone
  · rw [List.append_nil] at hsame
    exact hne (hle.eq_of_length_le (hsame ▸ (List.prefix_append run' rest').length_le))

/-- Lines are taken in one way only. -/
theorem Takes.unique {run' rest' : List Bytes} (h : Takes run rest) (h' : Takes run' rest')
    (hsame : run ++ rest = run' ++ rest') : run = run' := by
  have hpre : run <+: run' ++ rest' := ⟨rest, hsame⟩
  rcases List.prefix_or_prefix_of_prefix hpre (List.prefix_append run' rest') with hle | hle
  · exact h.eq_of_prefix h' hsame hle
  · exact (h'.eq_of_prefix h hsame.symm hle).symm

/-- Lines fall into runs in one way only. -/
theorem Cuts.unique {runs' : List (List Bytes)} (h : Cuts lines runs) (h' : Cuts lines runs') :
    runs' = runs := by
  induction h generalizing runs' with
  | nil =>
      generalize hnil : ([] : List Bytes) = lines at h'
      cases h' with
      | nil => rfl
      | cons takes cuts => exact absurd (List.append_eq_nil_iff.mp hnil.symm).1 takes.some
  | @cons run rest runs takes cuts ih =>
      generalize hlines : run ++ rest = lines at h'
      cases h' with
      | nil => exact absurd (List.append_eq_nil_iff.mp hlines).1 takes.some
      | cons takes' cuts' =>
          obtain rfl := takes.unique takes' hlines
          obtain rfl := List.append_cancel_left hlines
          rw [ih cuts']

/-- The runs together are the lines. -/
theorem Cuts.flatten (h : Cuts lines runs) : runs.flatten = lines := by
  induction h with
  | nil => rfl
  | cons takes cuts ih => rw [List.flatten_cons, ih]

/-- No run is empty. -/
theorem Cuts.some (h : Cuts lines runs) : ∀ run ∈ runs, run ≠ [] := by
  induction h with
  | nil => simp
  | cons takes cuts ih => exact List.forall_mem_cons.mpr ⟨takes.some, ih⟩

/-- Every list of lines falls into runs that may end, and lines that wait. -/
theorem exists_closed (lines : List Bytes) :
    ∃ (runs : List (List Bytes)) (pending : List Bytes), lines = runs.flatten ++ pending ∧
      (∀ run ∈ runs, Closed run) ∧ Waiting pending := by
  induction lines using List.reverseRecOn with
  | nil => exact ⟨[], [], rfl, by simp, waiting_nil⟩
  | append_singleton lines line ih =>
      obtain ⟨runs, pending, rfl, hruns, hwait⟩ := ih
      cases hmore : needsMore (unlines (pending ++ [line])) with
      | true =>
          exact ⟨runs, pending ++ [line], List.append_assoc _ _ _, hruns, hwait.concat hmore⟩
      | false =>
          refine ⟨runs ++ [pending ++ [line]], [], by simp, fun run hrun => ?_, waiting_nil⟩
          rcases List.mem_append.mp hrun with hrun | hrun
          · exact hruns run hrun
          · rw [List.mem_singleton.mp hrun]
            exact ⟨pending, line, rfl, hwait, hmore⟩

/-- Runs that may end are taken before any lines. -/
theorem cuts_append (hruns : ∀ run ∈ runs, Closed run) {last : List (List Bytes)}
    (h : Cuts lines last) : Cuts (runs.flatten ++ lines) (runs ++ last) := by
  induction runs with
  | nil => exact h
  | cons run runs ih =>
      obtain ⟨hrun, hruns⟩ := List.forall_mem_cons.mp hruns
      rw [List.flatten_cons, List.append_assoc, List.cons_append]
      exact .cons (hrun.takes _) (ih hruns)

end Chunk

open Chunk (Waiting Closed Cuts)

-- ==== Lines, joined

/-- Between the lines of two lists there is a line feed. -/
theorem unlines_append (h : lines ≠ []) (hrest : rest ≠ []) :
    unlines (lines ++ rest) = joined (unlines lines) (unlines rest) := by
  induction lines with
  | nil => exact absurd rfl h
  | cons line lines ih =>
      rw [List.cons_append, unlines_cons line (by simp [hrest])]
      by_cases hlines : lines = []
      · subst hlines
        rfl
      · rw [ih hlines, unlines_cons line hlines, joined_assoc]

/-- Lines may be joined run by run. -/
theorem unlines_flatten (h : ∀ run ∈ runs, run ≠ []) :
    unlines (runs.map unlines) = unlines runs.flatten := by
  induction runs with
  | nil => rfl
  | cons run runs ih =>
      obtain ⟨hrun, hruns⟩ := List.forall_mem_cons.mp h
      by_cases hnil : runs = []
      · subst hnil
        rw [List.flatten_cons, List.flatten_nil, List.append_nil]
        rfl
      · have hflat : runs.flatten ≠ [] := by
          obtain ⟨first, others, rfl⟩ := List.exists_cons_of_ne_nil hnil
          simp [hruns first List.mem_cons_self]
        rw [List.map_cons, unlines_cons _ (by simpa using hnil), ih hruns, List.flatten_cons,
          unlines_append hrun hflat]

-- ==== A chunk that is being read

namespace OpenChunk

/-- The chunk that is being read after lines that all wait. -/
def after (prompts : Prompts) (lines : List Bytes) : OpenChunk :=
  ⟨unlines lines, prompts.upTo lines.length⟩

/-- Only before its first line a chunk is empty. -/
theorem isEmpty_after (h : Waiting lines) :
    (after prompts lines).source.isEmpty = lines.isEmpty := by
  by_cases hlines : lines = []
  · rw [hlines]
    rfl
  · rw [List.isEmpty_eq_false_iff.mpr hlines]
    exact source_isEmpty (h lines (List.prefix_refl _) hlines)

/-- One prompt has been shown for each line, and one is shown now. -/
theorem shown_after (h : Waiting lines) :
    (after prompts lines).shown ++ [(after prompts lines).prompt prompts] =
      prompts.upTo (lines.length + 1) := by
  unfold prompt
  rw [isEmpty_after h]
  cases lines with
  | nil => rfl
  | cons line lines =>
      show prompts.first :: List.replicate _ _ ++ [_] = prompts.first :: List.replicate _ _
      rw [List.length_cons, List.replicate_succ', List.cons_append]
      rfl

/-- The next line is put below those that wait. -/
theorem withLine_after (h : Waiting lines) (line : Bytes) :
    (after prompts lines).withLine line = unlines (lines ++ [line]) := by
  unfold withLine
  rw [isEmpty_after h]
  by_cases hlines : lines = []
  · rw [hlines]
    rfl
  · rw [List.isEmpty_eq_false_iff.mpr hlines, if_neg Bool.false_ne_true,
      unlines_append hlines (List.cons_ne_nil _ _), List.append_assoc]
    rfl

/-- A line is put below those that wait. -/
theorem step_after (h : Waiting lines) (line : Bytes) :
    (after prompts lines).step prompts (.line line) =
      if needsMore (unlines (lines ++ [line])) then .inl (after prompts (lines ++ [line]))
      else .inr ⟨unlines (lines ++ [line]), true, prompts.upTo (lines.length + 1)⟩ := by
  simp only [step, shown_after h, withLine_after h]
  rw [after, List.length_append, List.length_singleton]

end OpenChunk

open OpenChunk (after)

/-- Lines that wait are all kept, and reading goes on after them. -/
theorem readChunk_waiting (prompts : Prompts) (pending : List Bytes) (answers : List Answer)
    (h : Waiting (pending ++ lines)) :
    readChunk prompts (after prompts pending) (lines.map .line ++ answers) =
      readChunk prompts (after prompts (pending ++ lines)) answers := by
  induction lines generalizing pending with
  | nil => rw [List.append_nil, List.map_nil, List.nil_append]
  | cons line lines ih =>
      have hcut : pending ++ line :: lines = pending ++ [line] ++ lines := by simp
      have hpending : Waiting pending :=
        fun front hfront => h front (hfront.trans (List.prefix_append _ _))
      have hmore : needsMore (unlines (pending ++ [line])) = true :=
        h _ (hcut ▸ List.prefix_append _ _) (by simp)
      rw [List.map_cons, List.cons_append, readChunk, OpenChunk.step_after hpending, hmore,
        if_pos rfl]
      dsimp only
      rw [hcut] at h ⊢
      exact ih _ h

/-- The shortest run of lines that may end is a chunk. -/
theorem readChunk_closed (answers : List Answer) (h : Closed run) :
    readChunk prompts {} (run.map .line ++ answers) = (Chunk.ofRun prompts run, answers) := by
  obtain ⟨front, line, rfl, hwait, hdone⟩ := h
  have hfront := readChunk_waiting prompts [] (.line line :: answers) hwait
  rw [List.nil_append] at hfront
  rw [List.map_append, List.append_assoc]
  refine hfront.trans ?_
  rw [readChunk, OpenChunk.step_after hwait, hdone, if_neg Bool.false_ne_true, Chunk.ofRun, hdone,
    if_neg Bool.false_ne_true, List.length_append, List.length_singleton]

/-- Giving up drops the lines that wait. -/
theorem readChunk_abort (answers : List Answer) (h : Waiting lines) :
    readChunk prompts {} (lines.map .line ++ .abort :: answers) =
      (⟨[], true, prompts.upTo (lines.length + 1)⟩, answers) := by
  refine (readChunk_waiting prompts [] _ h).trans ?_
  rw [List.nil_append, ← OpenChunk.shown_after h]
  rfl

/-- At the end of the input the lines that wait are a chunk. -/
theorem readChunk_ended (h : Waiting lines) (hne : lines ≠ []) :
    readChunk prompts {} (lines.map .line) = (Chunk.ofRun prompts lines, []) := by
  have hmore : needsMore (unlines lines) = true := h lines (List.prefix_refl _) hne
  have hread := readChunk_waiting prompts [] [] h
  rw [List.append_nil, List.nil_append] at hread
  refine hread.trans ?_
  have hok : (!(after prompts lines).source.isEmpty) = true := by
    rw [OpenChunk.isEmpty_after h, List.isEmpty_eq_false_iff.mpr hne]
    rfl
  rw [Chunk.ofRun, hmore, if_pos rfl, ← OpenChunk.shown_after h, ← hok]
  rfl

-- ==== Chunk after chunk

/-- Chunks are read one after the other as long as there are answers. -/
theorem readChunks_of_readChunk {answers later : List Answer} {chunk : Chunk} (hne : answers ≠ [])
    (h : readChunk prompts {} answers = (chunk, later)) :
    readChunks prompts answers = chunk :: readChunks prompts later := by
  rw [readChunks, if_neg fun hnil => hne (List.isEmpty_iff.mp hnil), h]

/-- Runs that may end are chunks, whatever is answered after them. -/
theorem readChunks_closed (prompts : Prompts) (hruns : ∀ run ∈ runs, Closed run)
    (answers : List Answer) :
    readChunks prompts (runs.flatten.map .line ++ answers) =
      runs.map (Chunk.ofRun prompts) ++ readChunks prompts answers := by
  induction runs with
  | nil => rfl
  | cons run runs ih =>
      obtain ⟨hrun, hruns⟩ := List.forall_mem_cons.mp hruns
      have hne : run ≠ [] := (hrun.takes []).some
      rw [List.flatten_cons, List.map_append, List.append_assoc,
        readChunks_of_readChunk (by simp [hne]) (readChunk_closed _ hrun), ih hruns]
      rfl

/-- The prompt keeps the lines it is given. They are taken in runs, each the shortest that may end,
or all that are left if none may, and the input ends after the last one. A run is a chunk, with its
lines as they came: so the chunks together are the lines. The first line of a chunk is asked for with
the one prompt and each further line with the other. Where the user gives up, the runs that may end
are chunks as before, the lines that wait are dropped, and reading goes on with the next answer. -/
theorem reading_keeps_lines (prompts : Prompts) (lines : List Bytes) :
    (∃ runs, (∀ cut, Cuts lines cut ↔ cut = runs) ∧
        readChunks prompts (lines.map .line) =
          runs.map (Chunk.ofRun prompts) ++ [⟨[], false, [prompts.first]⟩] ∧
        Chunk.sources (runs.map (Chunk.ofRun prompts)) = unlines lines) ∧
      ∃ (runs : List (List Bytes)) (pending : List Bytes), lines = runs.flatten ++ pending ∧
        Cuts runs.flatten runs ∧ (∀ run ∈ runs, needsMore (unlines run) = false) ∧
        Waiting pending ∧
        ∀ later : List Answer,
          readChunks prompts (lines.map .line ++ .abort :: later) =
            runs.map (Chunk.ofRun prompts) ++
              ⟨[], true, prompts.upTo (pending.length + 1)⟩ :: readChunks prompts later := by
  obtain ⟨runs, pending, rfl, hruns, hwait⟩ := Chunk.exists_closed lines
  have hsources : ∀ {cut}, Cuts (runs.flatten ++ pending) cut →
      Chunk.sources (cut.map (Chunk.ofRun prompts)) = unlines (runs.flatten ++ pending) := by
    intro cut hcut
    have hmap : (cut.map (Chunk.ofRun prompts)).map Chunk.source = cut.map unlines := by
      rw [List.map_map]
      rfl
    rw [Chunk.sources, hmap, unlines_flatten hcut.some, hcut.flatten]
  have hunique : ∀ {all}, Cuts (runs.flatten ++ pending) all →
      ∀ cut, Cuts (runs.flatten ++ pending) cut ↔ cut = all :=
    fun hall cut => ⟨hall.unique, fun h => h ▸ hall⟩
  constructor
  · by_cases hpending : pending = []
    · subst hpending
      have hcuts := Chunk.cuts_append hruns Cuts.nil
      rw [List.append_nil runs] at hcuts
      refine ⟨runs, hunique hcuts, ?_, hsources hcuts⟩
      have hread := readChunks_closed prompts hruns []
      rwa [List.append_nil, readChunks_nil, ← List.append_nil runs.flatten] at hread
    · have hlast : Cuts pending [pending] := by
        have := Cuts.cons (hwait.takes hpending) .nil
        rwa [List.append_nil] at this
      have hcuts := Chunk.cuts_append hruns hlast
      refine ⟨runs ++ [pending], hunique hcuts, ?_, hsources hcuts⟩
      rw [List.map_append, readChunks_closed prompts hruns,
        readChunks_of_readChunk (by simpa using hpending) (readChunk_ended hwait hpending),
        readChunks_nil, List.map_append, List.append_assoc]
      rfl
  · have hclosed := Chunk.cuts_append hruns Cuts.nil
    rw [List.append_nil, List.append_nil] at hclosed
    refine ⟨runs, pending, rfl, hclosed, fun run hrun => ?_, hwait, fun later => ?_⟩
    · obtain ⟨-, -, -, -, hdone⟩ := hruns run hrun
      exact hdone
    · rw [List.map_append, List.append_assoc, readChunks_closed prompts hruns,
        readChunks_of_readChunk (by simp) (readChunk_abort later hwait)]

end Lox
