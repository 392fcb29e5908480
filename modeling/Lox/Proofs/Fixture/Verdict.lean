/-
When a run is found to agree with what is expected of it.

# Tallies

The tally of the expected errors says of each error how often it is expected (`times_ofList`), and
counting down leaves of each as much as was reported too little, and gives back as much as was
reported too much (`strike_counts`, by induction over what is reported). What is still awaited has
each error as often as the tally says (`count_awaited`), because a tally has one entry for each
(`Distinct`). So nothing is left over on either side just if the reported errors are the expected
ones in some order (`compareErrors_eq_nil_iff`).

# The order of a tally

What the tally still awaits is sorted before it is listed. The order of bytes is total and
antisymmetric (`le_total`, `le_antisymm`), so lists of the same errors are sorted alike
(`mergeSort_eq_of_perm`): it does not matter in which order the tally is gone through
(`compareErrors_visit`).

# Agreement

`Expectation.Met` says what is asked for without tallies: the lines, the errors in whatever order,
the text of the last fault of the running program (`FailsWith`), and the exit code. A run passes
just if this is so (`passes_iff_met`).
-/
import Lox.Fixture.Verdict

namespace Lox

-- ==== The byte order

namespace Bytes

/-- Of two texts one comes first. -/
theorem le_total (s t : Bytes) : (le s t || le t s) = true := by
  fun_induction le s t with
  | case1 t => rfl
  | case2 a s => simp [le]
  | case3 a s b t ih =>
      rcases Nat.lt_trichotomy a.toNat b.toNat with h | h | h
      · simp [UInt8.lt_iff_toNat_lt.mpr h]
      · obtain rfl := UInt8.toNat_inj.mp h
        simpa [le] using ih
      · simp [le, UInt8.lt_iff_toNat_lt.mpr h]

/-- Only the same text comes both before and after a text. -/
theorem le_antisymm {s t : Bytes} (h : le s t = true) (h' : le t s = true) : s = t := by
  fun_induction le s t with
  | case1 t =>
      cases t with
      | nil => rfl
      | cons b t => simp [le] at h'
  | case2 a s => cases h
  | case3 a s b t ih =>
      simp only [le, Bool.or_eq_true, Bool.and_eq_true, decide_eq_true_eq, beq_iff_eq] at h h'
      rcases h with h | ⟨rfl, h⟩
      · rcases h' with h' | ⟨rfl, -⟩
        · exact absurd (UInt8.lt_trans h h') (UInt8.lt_irrefl a)
        · exact absurd h (UInt8.lt_irrefl b)
      · rcases h' with h' | ⟨-, h'⟩
        · exact absurd h' (UInt8.lt_irrefl a)
        · rw [ih h h']

/-- What comes before a text comes before all that come after it. -/
theorem le_trans {s t u : Bytes} (h : le s t = true) (h' : le t u = true) : le s u = true := by
  induction s generalizing t u with
  | nil => rfl
  | cons a s ih =>
      cases t with
      | nil => cases h
      | cons b t =>
          cases u with
          | nil => cases h'
          | cons c u =>
              simp only [le, Bool.or_eq_true, Bool.and_eq_true, decide_eq_true_eq,
                beq_iff_eq] at h h' ⊢
              rcases h with h | ⟨rfl, h⟩
              · rcases h' with h' | ⟨rfl, -⟩
                · exact .inl (UInt8.lt_trans h h')
                · exact .inl h
              · rcases h' with h' | ⟨rfl, h'⟩
                · exact .inl h'
                · exact .inr ⟨rfl, ih h h'⟩

/-- Sorting forgets the order that texts came in. -/
theorem mergeSort_eq_of_perm {l l' : List Bytes} (h : l.Perm l') :
    l.mergeSort le = l'.mergeSort le := by
  have sorted (l : List Bytes) : (l.mergeSort le).Pairwise fun s t => le s t = true :=
    @List.pairwise_mergeSort Bytes le (fun _ _ _ => le_trans) le_total l
  refine List.Perm.eq_of_pairwise (fun _ _ _ _ => le_antisymm) (sorted l) (sorted l') ?_
  exact (List.mergeSort_perm l le).trans (h.trans (List.mergeSort_perm l' le).symm)

end Bytes

-- ==== Tallies

namespace Tally

variable {t : Tally} {error x : Bytes} {n : Nat}

/-- Each error has one entry. -/
def Distinct (t : Tally) : Prop := (t.map Prod.fst).Nodup

/-- Setting how often an error is awaited changes nothing for the others. -/
theorem times_set (t : Tally) (error x : Bytes) (n : Nat) :
    times (Table.set error n t) x = if x = error then n else t.times x := by
  unfold times
  rw [Table.lookup_set]
  split <;> rfl

/-- Each error in a list is awaited once more. -/
theorem times_foldl_add (t : Tally) (errors : List Bytes) (x : Bytes) :
    times (errors.foldl add t) x = t.times x + errors.count x := by
  induction errors generalizing t with
  | nil => rfl
  | cons error errors ih =>
      rw [List.foldl_cons, ih, add, times_set, List.count_cons]
      by_cases h : x = error
      · subst h
        simp [Nat.add_assoc, Nat.add_comm 1]
      · have : (error == x) = false := by simpa using Ne.symm h
        simp [h, this]

/-- The tally of a list has each error as often as the list. -/
theorem times_ofList (errors : List Bytes) (x : Bytes) :
    (ofList errors).times x = errors.count x := by
  rw [ofList, times_foldl_add, times, List.lookup_nil, Option.getD_none, Nat.zero_add]

/-- Adding errors keeps one entry for each. -/
theorem distinct_foldl_add (errors : List Bytes) (h : t.Distinct) :
    Distinct (errors.foldl add t) := by
  induction errors generalizing t with
  | nil => exact h
  | cons error errors ih => exact ih (Table.nodup_keys_set h)

/-- The tally of a list has one entry for each error. -/
theorem distinct_ofList (errors : List Bytes) : (ofList errors).Distinct :=
  distinct_foldl_add errors List.nodup_nil

/-- So has the tally after errors were struck off. -/
theorem distinct_strike (gots : List Bytes) (h : t.Distinct) : (t.strike gots).2.Distinct := by
  fun_induction strike t gots with
  | case1 t => exact h
  | case2 t got gots hpos ih => exact ih (Table.nodup_keys_set h)
  | case3 t got gots hzero extra rest hrest ih =>
      rw [hrest] at ih
      exact ih h

/-- Of each error as much is left as was awaited and not reported, and returned as much as was
reported and not awaited. -/
theorem strike_counts (t : Tally) (gots : List Bytes) (x : Bytes) :
    (t.strike gots).2.times x = t.times x - gots.count x ∧
      (t.strike gots).1.count x = gots.count x - t.times x := by
  fun_induction strike t gots with
  | case1 t => simp
  | case2 t got gots hpos ih =>
      rw [times_set] at ih
      rw [List.count_cons]
      by_cases h : x = got
      · subst h
        simp only [if_true, beq_self_eq_true] at ih ⊢
        omega
      · have : (got == x) = false := by simpa using Ne.symm h
        simp only [h, this, if_false, Bool.false_eq_true] at ih ⊢
        exact ih
  | case3 t got gots hzero extra rest hrest ih =>
      rw [hrest] at ih
      simp only [List.count_cons]
      by_cases h : x = got
      · subst h
        simp only [if_true, beq_self_eq_true] at ih ⊢
        omega
      · have : (got == x) = false := by simpa using Ne.symm h
        simp only [this, if_false, Bool.false_eq_true] at ih ⊢
        exact ih

/-- What is awaited has each error as often as the tally says. This needs one entry for each error:
looking up finds the first entry, while all entries are gone through for what is awaited. -/
theorem count_awaited (h : t.Distinct) (x : Bytes) : t.awaited.count x = t.times x := by
  induction t with
  | nil => rfl
  | cons entry t ih =>
      obtain ⟨error, n⟩ := entry
      obtain ⟨hnew, hrest⟩ := List.nodup_cons.mp h
      have hcons : awaited ((error, n) :: t) = List.replicate n error ++ awaited t :=
        List.flatMap_cons
      rw [hcons, List.count_append, ih hrest, List.count_replicate]
      by_cases hx : x = error
      · subst hx
        have hnone : times t x = 0 := by
          unfold times
          rw [List.lookup_eq_none_iff.mpr]
          · rfl
          · intro entry hentry
            have : x ≠ entry.1 := fun heq => hnew (List.mem_map.mpr ⟨entry, hentry, heq.symm⟩)
            simpa using this
        rw [hnone]
        simp [times]
      · have : (error == x) = false := by simpa using Ne.symm hx
        have : (x == error) = false := by simpa using hx
        simp [times, List.lookup_cons, *]

/-- What is awaited is the same, whichever way the tally is gone through. -/
theorem awaited_perm {t' : Tally} (h : t.Perm t') : t.awaited.Perm t'.awaited :=
  h.flatMap_right _

end Tally

-- ==== Agreement

/-- The text of the last fault of a running program among the diagnostics, and no text if there is
none. -/
inductive FailsWith : List Diagnostic → Bytes → Prop where
  | last {before after : List Diagnostic} {d : Diagnostic} (running : d.stage = .runtime)
      (static : ∀ other ∈ after, other.stage ≠ .runtime) : FailsWith (before ++ d :: after) d.render
  | never {diagnostics : List Diagnostic} (static : ∀ d ∈ diagnostics, d.stage ≠ .runtime) :
      FailsWith diagnostics []

/-- A run did what is expected: it printed the lines, has the errors in whatever order, ends with
the failure, and leaves the exit code that these imply. -/
structure Expectation.Met (e : Expectation) (output : List Bytes) (diagnostics : List Diagnostic)
    (exit : Int) : Prop where
  output : output = e.output
  errors : ((diagnostics.filter fun d => d.stage ≠ .runtime).map Diagnostic.render).Perm e.errors
  failure : FailsWith diagnostics e.failure
  exit : exit = if e.errors ≠ [] then 65 else if e.failure ≠ [] then 70 else 0

namespace Fixture

variable {visit : Tally → Tally}

/-- No line is at fault just if the lines are the same. -/
theorem compareLines_eq_nil_iff (number : Nat) (gots wants : List Bytes) :
    compareLines number gots wants = [] ↔ gots = wants := by
  fun_induction compareLines number gots wants with
  | case1 => simp
  | case2 number want wants ih => simp
  | case3 number got gots ih => simp
  | case4 number gots want wants ih => simp [ih]
  | case5 number got gots want wants hne ih => simp [hne]

/-- What is listed: errors that are too many as they came, and those that are missing, sorted. -/
theorem compareErrors_eq (visit : Tally → Tally) (gots wants : List Bytes) :
    compareErrors visit gots wants =
      ((Tally.ofList wants).strike gots).1.map .extraError ++
        ((visit ((Tally.ofList wants).strike gots).2).awaited.mergeSort Bytes.le).map
          .missingError :=
  rfl

/-- The way the tally is gone through does not matter. -/
theorem compareErrors_visit (hvisit : ∀ t, (visit t).Perm t) (gots wants : List Bytes) :
    compareErrors visit gots wants = compareErrors id gots wants := by
  have hperm := Tally.awaited_perm (hvisit ((Tally.ofList wants).strike gots).2)
  rw [compareErrors_eq, compareErrors_eq, Bytes.mergeSort_eq_of_perm hperm, id_eq]

/-- No error is at fault just if they are the same up to their order. Nothing is left over on either
side, so each error occurs as often in one list as in the other. -/
theorem compareErrors_eq_nil_iff (gots wants : List Bytes) :
    compareErrors id gots wants = [] ↔ gots.Perm wants := by
  have hdistinct := Tally.distinct_strike gots (Tally.distinct_ofList wants)
  have hcounts := Tally.strike_counts (Tally.ofList wants) gots
  simp only [Tally.times_ofList, ← Tally.count_awaited hdistinct] at hcounts
  have hsort := List.mergeSort_perm ((Tally.ofList wants).strike gots).2.awaited Bytes.le
  rw [compareErrors_eq, List.append_eq_nil_iff, List.map_eq_nil_iff, List.map_eq_nil_iff, id_eq,
    ← List.perm_nil, ← List.perm_nil, hsort.congr_left, List.perm_iff_count, List.perm_iff_count,
    List.perm_iff_count]
  simp only [List.count_nil]
  constructor
  · intro ⟨hextra, hmissing⟩ x
    have := hcounts x
    have := hextra x
    have := hmissing x
    omega
  · intro hsame
    constructor
    · intro x
      have := hcounts x
      have := hsame x
      omega
    · intro x
      have := hcounts x
      have := hsame x
      omega

/-- The text of the last fault is the one that is compared. -/
theorem failureText_of_failsWith {diagnostics : List Diagnostic} {text : Bytes}
    (h : FailsWith diagnostics text) : failureText diagnostics = text := by
  unfold failureText
  cases h with
  | @last before after d running static =>
      have hafter : after.filter (fun d => !d.isStatic) = [] := by
        simpa [Diagnostic.isStatic, Stage.isStatic] using static
      have hd : (!d.isStatic) = true := by simp [Diagnostic.isStatic, Stage.isStatic, running]
      simp [List.filter_append, hd, hafter]
  | never static =>
      have hnone : diagnostics.filter (fun d => !d.isStatic) = [] := by
        simpa [Diagnostic.isStatic, Stage.isStatic] using static
      rw [hnone]
      rfl

/-- Every list of diagnostics has a last fault of a running program or none. -/
theorem exists_failsWith (diagnostics : List Diagnostic) : ∃ text, FailsWith diagnostics text := by
  induction diagnostics with
  | nil => exact ⟨[], .never (by simp)⟩
  | cons d rest ih =>
      obtain ⟨text, h⟩ := ih
      cases h with
      | @last before after last running static =>
          exact ⟨_, @FailsWith.last (d :: before) after last running static⟩
      | never static =>
          by_cases hd : d.stage = .runtime
          · exact ⟨_, @FailsWith.last [] rest d hd static⟩
          · exact ⟨[], .never (List.forall_mem_cons.mpr ⟨hd, static⟩)⟩

/-- It is no other one. -/
theorem failureText_eq_iff {diagnostics : List Diagnostic} {text : Bytes} :
    failureText diagnostics = text ↔ FailsWith diagnostics text := by
  refine ⟨fun h => ?_, failureText_of_failsWith⟩
  obtain ⟨text', h'⟩ := exists_failsWith diagnostics
  rwa [← h, failureText_of_failsWith h']

/-- The exit code that is implied. -/
theorem code_exitCode (e : Expectation) :
    (e.exitCode.code : Int) = if e.errors ≠ [] then 65 else if e.failure ≠ [] then 70 else 0 := by
  obtain ⟨output, errors, failure⟩ := e
  cases errors <;> cases failure <;> rfl

/-- Nothing is at fault just if the expectation is met. -/
theorem compare_eq_nil_iff {e : Expectation} {output : List Bytes} {diagnostics : List Diagnostic}
    {exit : Int} : compare e output diagnostics exit = [] ↔ e.Met output diagnostics exit := by
  have hstatic : diagnostics.filter (·.isStatic) =
      diagnostics.filter fun d => d.stage ≠ .runtime :=
    List.filter_congr fun d _ => by simp [Diagnostic.isStatic, Stage.isStatic]
  unfold compare
  simp only [List.append_eq_nil_iff, compareLines_eq_nil_iff, compareErrors_eq_nil_iff, hstatic,
    ite_eq_left_iff, List.cons_ne_nil, imp_false, Classical.not_not, failureText_eq_iff,
    code_exitCode]
  exact ⟨fun ⟨⟨⟨houtput, herrors⟩, hfailure⟩, hexit⟩ => ⟨houtput, herrors, hfailure, hexit⟩,
    fun ⟨houtput, herrors, hfailure, hexit⟩ => ⟨⟨⟨houtput, herrors⟩, hfailure⟩, hexit⟩⟩

/-- A run passes just if it did what is expected, and what is listed against it does not depend on
the order in which the tally is gone through. -/
theorem passes_iff_met (e : Expectation) (output : List Bytes) (diagnostics : List Diagnostic)
    (exit : Int) (hvisit : ∀ t, (visit t).Perm t) :
    (compare e output diagnostics exit visit = [] ↔ e.Met output diagnostics exit) ∧
      compare e output diagnostics exit visit = compare e output diagnostics exit := by
  have hsame : compare e output diagnostics exit visit = compare e output diagnostics exit := by
    unfold compare
    rw [compareErrors_visit hvisit]
  exact ⟨by rw [hsame, compare_eq_nil_iff], hsame⟩

/-- Errors pass that were expected in another order, one of them twice, and of two failures the last
one counts; with one of the two missing and another one twice nothing passes. -/
theorem passes_iff_met_out_of_order :
    let target : Diagnostic := ⟨.parse, 3, utf8 " at '='", utf8 "Invalid assignment target."⟩
    let return' : Diagnostic := ⟨.resolve, 9, utf8 " at 'return'", utf8 "Can't return."⟩
    let first : Diagnostic := ⟨.runtime, 2, [], utf8 "Operand must be a number."⟩
    let last : Diagnostic := ⟨.runtime, 5, [], utf8 "Undefined variable 'a'."⟩
    let e : Expectation :=
      ⟨[utf8 "1", []], [target.render, return'.render, target.render], last.render⟩
    (∀ t : Tally, t.reverse.Perm t) ∧
      compare e [utf8 "1", []] [return', first, target, last, target] 65 List.reverse = [] ∧
      compare e [utf8 "1", []] [return', first, target, last, return'] 65 List.reverse ≠ [] := by
  intro target return' first last e
  have hreverse : ∀ t : Tally, t.reverse.Perm t := fun t => t.reverse_perm
  refine ⟨hreverse, ?_, fun hpass => ?_⟩
  · refine (passes_iff_met e _ _ _ hreverse).1.mpr ⟨rfl, .swap _ _ _, ?_, rfl⟩
    exact @FailsWith.last [return', first, target] [target] last rfl (by decide)
  · have hmet := (passes_iff_met e _ _ _ hreverse).1.mp hpass
    exact absurd hmet.errors (by decide +kernel)

end Fixture

end Lox
