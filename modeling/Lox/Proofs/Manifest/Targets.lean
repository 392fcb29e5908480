/-
The targets of a manifest.

# The table and the order

The table and the order of a manifest are built together, one target of the draft at a time, and
after each of them they agree with each other and with the targets so far (`Built`, `Built.step`). A
target whose name has occurred changes nothing (`Built.again`), and one with a new name is entered
and comes last (`Built.new`). By induction this holds of all targets of a draft (`Built.foldl`,
`built_ofDraft`).

# One list of targets

What later looks a target up through the order needs only two things: each name in the order has a
target that carries it, and each name with a target is in the order (`Consistent`). With these the
order and the table are as good as one list of targets (`Manifest.targets`), and checking and
finding are said of that list (`Consistent.issues?_eq`, `findTarget_eq`, `defaultTarget_eq`).

# Finding

A name asks for the target that has just it, and else for the first one that has it up to case. That
each target is found by its own name needs names that are trimmed, because the name that is asked
for is (`findTarget_name`). The names of a file are, however its keys are read, and so the targets
of a manifest are all found (`targets_consistent`).
-/
import Mathlib.Data.List.Basic
import Lox.Manifest.File
import Lox.Proofs.Manifest.Decoded

namespace Lox

namespace Manifest

-- ==== Building the table and the order

/-- The table and the order are those of a list of targets: the order has each name by where it first
occurs, and the table has an entry for just these, made from the first target of the name. -/
structure Built (entries : List Target) (built : Table Target × List Bytes) : Prop where
  keys : built.1.map Prod.fst = built.2
  mem (name : Bytes) : name ∈ built.2 ↔ name ∈ entries.map Target.name
  first : built.2.Pairwise fun a b =>
    (entries.map Target.name).idxOf a < (entries.map Target.name).idxOf b
  lookup (name : Bytes) : built.1.lookup name =
    (entries.find? fun t => t.name = name).map fun t => ⟨name, Text.trim t.main⟩

namespace Built

variable {entries : List Target} {built : Table Target × List Bytes} {t : Target}

/-- Without targets there is nothing in either. -/
theorem nil : Built [] ([], []) := ⟨rfl, fun _ => Iff.rfl, .nil, fun _ => rfl⟩

/-- The order has each name once. -/
theorem nodup (h : Built entries built) : built.2.Nodup :=
  h.first.imp fun hlt heq => absurd (heq ▸ hlt) (Nat.lt_irrefl _)

/-- The table has no entry for just the names that did not occur. -/
theorem lookup_eq_none_iff (h : Built entries built) {name : Bytes} :
    built.1.lookup name = none ↔ name ∉ entries.map Target.name := by
  rw [h.lookup, Option.map_eq_none_iff, List.find?_eq_none]
  simp

/-- Where names first occur does not change when a target is added. -/
theorem first_append (h : Built entries built) (t : Target) :
    built.2.Pairwise fun a b => ((entries ++ [t]).map Target.name).idxOf a <
      ((entries ++ [t]).map Target.name).idxOf b := by
  refine h.first.imp_of_mem fun ha hb hlt => ?_
  rw [List.map_append, List.idxOf_append_of_mem ((h.mem _).mp ha),
    List.idxOf_append_of_mem ((h.mem _).mp hb)]
  exact hlt

/-- A target whose name has occurred changes nothing. -/
theorem again (h : Built entries built) (hold : t.name ∈ entries.map Target.name) :
    Built (entries ++ [t]) built where
  keys := h.keys
  mem name := by
    rw [h.mem, List.map_append, List.mem_append]
    refine ⟨.inl, fun hname => hname.elim id fun hlast => ?_⟩
    rw [List.mem_singleton.mp hlast]
    exact hold
  first := h.first_append t
  lookup name := by
    rw [h.lookup, List.find?_append]
    cases hfind : entries.find? fun u => u.name = name with
    | some u => rfl
    | none =>
        have hne : t.name ≠ name := by
          rintro rfl
          obtain ⟨u, hu, hname⟩ := List.mem_map.mp hold
          simpa [hname] using List.find?_eq_none.mp hfind u hu
        simp [hne]

/-- A target with a new name is entered under it, and the name comes last. Its first occurrence
comes after those of all earlier names, and looking up an earlier name passes over it. -/
theorem new (h : Built entries built) (hnew : t.name ∉ entries.map Target.name) :
    Built (entries ++ [t])
      (Table.set t.name ⟨t.name, Text.trim t.main⟩ built.1, built.2 ++ [t.name]) where
  keys := by
    have hkeys : t.name ∉ built.1.map Prod.fst := by
      rw [h.keys, h.mem]
      exact hnew
    rw [Table.keys_set, if_neg hkeys, h.keys]
  mem name := by
    rw [List.mem_append, h.mem, List.map_append, List.mem_append]
    rfl
  first := by
    refine List.pairwise_append.mpr ⟨h.first_append t, List.pairwise_singleton _ _, ?_⟩
    intro a ha b hb
    rw [List.mem_singleton.mp hb, List.map_append,
      List.idxOf_append_of_mem ((h.mem a).mp ha), List.idxOf_append_of_notMem hnew]
    exact Nat.lt_add_right _ (List.idxOf_lt_length_of_mem ((h.mem a).mp ha))
  lookup name := by
    rw [Table.lookup_set, h.lookup, List.find?_append]
    by_cases hname : name = t.name
    · subst hname
      have hfind : entries.find? (fun u => u.name = t.name) = none := by
        rw [List.find?_eq_none]
        intro u hu heq
        exact hnew (List.mem_map.mpr ⟨u, hu, of_decide_eq_true heq⟩)
      simp [hfind]
    · have hne : t.name ≠ name := fun heq => hname heq.symm
      simp [hname, hne]

/-- One more target, whether its name is new or not. -/
theorem step (h : Built entries built) (t : Target) : Built (entries ++ [t]) (addTarget built t) := by
  unfold addTarget
  split
  next found hfound =>
    apply h.again
    by_contra hnew
    rw [h.lookup_eq_none_iff.mpr hnew] at hfound
    cases hfound
  next hnone => exact h.new (h.lookup_eq_none_iff.mp hnone)

/-- Any number of targets, one at a time. -/
theorem foldl (h : Built entries built) (more : List Target) :
    Built (entries ++ more) (more.foldl addTarget built) := by
  induction more generalizing entries built with
  | nil =>
      rw [List.append_nil]
      exact h
  | cons t more ih =>
      rw [List.append_cons]
      exact ih (h.step t)

end Built

/-- The table and the order of a manifest are those of the targets in its draft. -/
theorem built_ofDraft (path : Bytes) (draft : Draft) :
    Built draft.targets ((ofDraft path draft).table, (ofDraft path draft).order) :=
  Built.nil.foldl draft.targets

-- ==== The table through the order

/-- Each name in the order has a target that carries it, and no other name has one. -/
structure Consistent (m : Manifest) : Prop where
  named {name : Bytes} (h : name ∈ m.order) : ∃ t, m.target? name = some t ∧ t.name = name
  listed {name : Bytes} {t : Target} (h : m.target? name = some t) : name ∈ m.order

/-- So the order and the table of a manifest agree. -/
theorem consistent_ofDraft (path : Bytes) (draft : Draft) : (ofDraft path draft).Consistent := by
  have hbuilt := built_ofDraft path draft
  constructor
  · intro name hname
    cases hlookup : (ofDraft path draft).table.lookup name with
    | none => exact absurd ((hbuilt.mem name).mp hname) (hbuilt.lookup_eq_none_iff.mp hlookup)
    | some t =>
        refine ⟨t, hlookup, ?_⟩
        rw [hbuilt.lookup, Option.map_eq_some_iff] at hlookup
        obtain ⟨u, -, rfl⟩ := hlookup
        rfl
  · intro name t ht
    rw [hbuilt.mem]
    by_contra hnew
    cases ht.symm.trans (hbuilt.lookup_eq_none_iff.mpr hnew)

namespace Consistent

variable {m : Manifest} {t : Target}

/-- The targets have the names in the order. -/
theorem map_targets (h : m.Consistent) : m.targets.map Target.name = m.order := by
  have hname : ∀ name ∈ m.order, (m.target? name).map Target.name = some name := by
    intro name hname
    obtain ⟨t, ht, rfl⟩ := h.named hname
    rw [ht]
    rfl
  unfold targets
  rw [List.map_filterMap, List.filterMap_congr hname, List.filterMap_some]

/-- A target is one of them just if the table has it under its name. -/
theorem mem_targets_iff (h : m.Consistent) : t ∈ m.targets ↔ m.target? t.name = some t := by
  unfold targets
  rw [List.mem_filterMap]
  constructor
  · rintro ⟨name, hname, ht⟩
    obtain ⟨u, hu, rfl⟩ := h.named hname
    cases hu.symm.trans ht
    exact hu
  · intro ht
    exact ⟨t.name, h.listed ht, ht⟩

/-- Finding a name in the order and then its target is finding the target. -/
theorem find?_targets (h : m.Consistent) (p : Bytes → Bool) :
    m.targets.find? (fun t => p t.name) = (m.order.find? p).bind m.target? := by
  rw [← h.map_targets, List.find?_map]
  cases hfind : m.targets.find? (p ∘ Target.name) with
  | none => exact hfind
  | some t => exact hfind.trans (h.mem_targets_iff.mp (List.mem_of_find?_eq_some hfind)).symm

/-- The table finds the first target of a name. -/
theorem target?_eq (h : m.Consistent) (name : Bytes) :
    m.target? name = m.targets.find? fun t => t.name = name := by
  rw [h.find?_targets fun key => key = name]
  cases hfind : m.order.find? fun key => key = name with
  | some key =>
      have hkey : key = name := by simpa using List.find?_some hfind
      rw [hkey]
      rfl
  | none =>
      cases htarget : m.target? name with
      | none => rfl
      | some t => simpa using List.find?_eq_none.mp hfind name (h.listed htarget)

/-- Finding a target, first by its name and then up to case. -/
theorem findTarget_eq (h : m.Consistent) (name : Bytes) :
    findTarget (some m) name = (m.targets.find? fun t => t.name = Text.trim name).or
      (m.targets.find? fun t => Text.equalFold t.name (Text.trim name)) := by
  rw [← h.target?_eq, h.find?_targets fun key => Text.equalFold key (Text.trim name)]
  unfold findTarget
  dsimp only
  cases m.target? (Text.trim name) <;> rfl

/-- A target is found by its own name if that is trimmed. -/
theorem findTarget_name (h : m.Consistent) (ht : t ∈ m.targets) (htrim : Text.trim t.name = t.name) :
    findTarget (some m) t.name = some t := by
  rw [h.findTarget_eq, htrim, ← h.target?_eq, h.mem_targets_iff.mp ht]
  rfl

/-- The default is the first target in order, which is there if any target is: the first name in the
order has one. -/
theorem defaultTarget_eq (h : m.Consistent) :
    defaultTarget (some m) = m.targets.head?.elim (.error .noTargets) .ok := by
  have horder := h.map_targets
  cases htargets : m.targets with
  | nil =>
      rw [htargets] at horder
      unfold defaultTarget
      dsimp only
      rw [← horder]
      rfl
  | cons t rest =>
      have ht : m.target? t.name = some t := by
        apply h.mem_targets_iff.mp
        rw [htargets]
        exact List.mem_cons_self
      rw [htargets] at horder
      unfold defaultTarget
      dsimp only
      rw [← horder, List.map_cons]
      dsimp only
      rw [ht]
      rfl

/-- Going through the order and looking each name up meets all targets and no gap. -/
theorem mapM_order (h : m.Consistent) {β : Type} (f : Bytes → Target → β) :
    m.order.mapM (fun name => (m.target? name).map (f name)) =
      some (m.targets.map fun t => f t.name t) := by
  have hmap : ∀ targets : List Target, (∀ t ∈ targets, m.target? t.name = some t) →
      (targets.map Target.name).mapM (fun name => (m.target? name).map (f name)) =
        some (targets.map fun t => f t.name t) := by
    intro targets hfound
    induction targets with
    | nil => rfl
    | cons t rest ih =>
        rw [List.map_cons, List.mapM_cons, hfound t List.mem_cons_self,
          ih fun u hu => hfound u (List.mem_cons_of_mem t hu)]
        rfl
  rw [← h.map_targets]
  exact hmap m.targets fun t ht => h.mem_targets_iff.mp ht

end Consistent

-- ==== Checking

/-- What is wrong with the script of a target, if anything is. -/
def issueOf (t : Target) : Option Issue :=
  if t.main = [] then some (.noMain t.name)
  else if Path.extension t.main = utf8 ".lox" then none
  else some (.notScript t.name t.main)

/-- Nothing is wrong with a script that is named and has the extension of scripts. -/
theorem issueOf_eq_none_iff {t : Target} :
    issueOf t = none ↔ t.main ≠ [] ∧ Path.extension t.main = utf8 ".lox" := by
  unfold issueOf
  split
  next hmain => simp [hmain]
  next hmain => split <;> simp_all

/-- What is found wrong with a target is what is wrong with it. -/
theorem mainIssues_eq (t : Target) : mainIssues t.name t.main = (issueOf t).toList := by
  unfold mainIssues issueOf Path.isScript
  by_cases hmain : t.main = []
  · simp [hmain]
  · by_cases hext : Path.extension t.main = utf8 ".lox"
    · simp [hmain, hext]
    · simp [hmain, hext]

/-- Checking goes through the targets in order, and never fails to find one. -/
theorem Consistent.issues?_eq {m : Manifest} (h : m.Consistent) :
    m.issues? = some ((if m.name = [] then [.noName] else []) ++ m.targets.filterMap issueOf ++
      (if m.parallel < 0 then [.negativeParallel m.parallel] else [])) := by
  have hscripts : (m.targets.map fun t => mainIssues t.name t.main).flatten =
      m.targets.filterMap issueOf := by
    rw [List.filterMap_eq_flatMap_toList, List.flatMap_def, funext mainIssues_eq]
  unfold issues?
  rw [h.mapM_order fun name t => mainIssues name t.main]
  simp only [Option.bind_eq_bind, Option.bind_some, hscripts, List.isEmpty_iff]
  rfl

/-- It finds nothing just if there is nothing to find. -/
theorem Consistent.issues?_eq_nil_iff {m : Manifest} (h : m.Consistent) :
    m.issues? = some [] ↔ m.name ≠ [] ∧
      (∀ t ∈ m.targets, t.main ≠ [] ∧ Path.extension t.main = utf8 ".lox") ∧ 0 ≤ m.parallel := by
  rw [h.issues?_eq, Option.some.injEq, List.append_eq_nil_iff, List.append_eq_nil_iff,
    List.filterMap_eq_nil_iff, and_assoc]
  simp only [issueOf_eq_none_iff]
  apply and_congr
  · by_cases hname : m.name = [] <;> simp [hname]
  · apply and_congr_right'
    by_cases hparallel : m.parallel < 0
    · simp [hparallel]
    · simp [hparallel, Int.not_lt.mp hparallel]

-- ==== The whole

/-- Each target is found by its own name: that is the name of an entry, and so it is trimmed. -/
theorem findTarget_ofDraft {path : Bytes} {draft : Draft} {t : Target} (hnamed : draft.WellNamed)
    (ht : t ∈ (ofDraft path draft).targets) :
    findTarget (some (ofDraft path draft)) t.name = some t := by
  have hbuilt := built_ofDraft path draft
  have h := consistent_ofDraft path draft
  have hname : t.name ∈ (ofDraft path draft).order := h.listed (h.mem_targets_iff.mp ht)
  obtain ⟨u, hu, huname⟩ := List.mem_map.mp ((hbuilt.mem t.name).mp hname)
  apply h.findTarget_name ht
  rw [← huname]
  exact (hnamed u hu).2

/-- However keys and scripts are read from the entries of a file, the targets have trimmed names, none
of them empty. From any draft with such targets comes a manifest whose order has each name once, by
where it first occurs, and whose table has a target for just these, with the trimmed script of the
first target of that name. Checking it meets no name without a target: it gives the issues of the
name, of each target in order and of the number of fixtures at a time. A name asks for the target
that has just it, or else for the first one in order that has it up to case, so each target is found
by its own name. -/
theorem targets_consistent :
    (∀ (κ ν : Type) (readKey : κ → Noting (Option Bytes)) (readScript : ν → Noting Bytes)
        (entries : List (κ × ν)) (noted noted' : List TypeFault) (targets : List Target),
      (readTargets readKey readScript [] entries).run.run noted = (.ok (some targets), noted') →
        ∀ t ∈ targets, t.Named) ∧
    ∀ (path : Bytes) (draft : Draft), draft.WellNamed →
      let m := ofDraft path draft
      (Built draft.targets (m.table, m.order) ∧ m.order.Nodup ∧
        m.targets.map Target.name = m.order ∧
        ∀ t, t ∈ m.targets ↔ m.target? t.name = some t) ∧
      (m.issues? = some (
          (if Text.trim draft.name = [] then [.noName] else []) ++
          m.targets.filterMap issueOf ++
          (if draft.parallel < 0 then [.negativeParallel draft.parallel] else [])) ∧
        (m.issues? = some [] ↔ Text.trim draft.name ≠ [] ∧
          (∀ t ∈ m.targets, t.main ≠ [] ∧ Path.extension t.main = utf8 ".lox") ∧
          0 ≤ draft.parallel)) ∧
      ((∀ name, findTarget (some m) name = (m.targets.find? fun t => t.name = Text.trim name).or
          (m.targets.find? fun t => Text.equalFold t.name (Text.trim name))) ∧
        (∀ t ∈ m.targets, findTarget (some m) t.name = some t) ∧
        defaultTarget (some m) = m.targets.head?.elim (.error .noTargets) .ok) := by
  constructor
  · intro κ ν readKey readScript entries noted noted' targets h
    exact readTargets_named (fun t ht => absurd ht List.not_mem_nil) ⟨noted, by rw [h]⟩
  intro path draft hnamed m
  have hbuilt : Built draft.targets (m.table, m.order) := built_ofDraft path draft
  have h : m.Consistent := consistent_ofDraft path draft
  exact ⟨⟨hbuilt, hbuilt.nodup, h.map_targets, fun t => h.mem_targets_iff⟩,
    ⟨h.issues?_eq, h.issues?_eq_nil_iff⟩, h.findTarget_eq, fun t ht => findTarget_ofDraft hnamed ht,
    h.defaultTarget_eq⟩

/-- Entries with two names that differ in case, and a third that is the second one again. -/
def casesEntries : List (Bytes × Bytes) :=
  [(utf8 "Run", utf8 " a.lox "), (utf8 "run", utf8 "b.lox"), (utf8 " run ", utf8 "c.lox")]

/-- What a file with these entries says, where texts stand for themselves. -/
def casesDraft : Draft where
  name := utf8 "demo"
  targets := [⟨utf8 "Run", utf8 " a.lox "⟩, ⟨utf8 "run", utf8 "b.lox"⟩, ⟨utf8 "run", utf8 "c.lox"⟩]

/-- Two names that differ in case are two targets, and each is found by its own. A third entry has
the name of the second one again and is not entered. -/
theorem targets_consistent_cases :
    let readKey (key : Bytes) : Noting (Option Bytes) := pure (some key)
    let readScript (script : Bytes) : Noting Bytes := pure script
    (readTargets readKey readScript [] casesEntries).run.run [] =
        (.ok (some casesDraft.targets), []) ∧ casesDraft.WellNamed ∧
      Built casesDraft.targets ((ofDraft [] casesDraft).table, (ofDraft [] casesDraft).order) ∧
      (ofDraft [] casesDraft).order = [utf8 "Run", utf8 "run"] ∧
      (ofDraft [] casesDraft).issues? = some [] ∧
      findTarget (some (ofDraft [] casesDraft)) (utf8 " run ") =
        some ⟨utf8 "run", utf8 "b.lox"⟩ ∧
      findTarget (some (ofDraft [] casesDraft)) (utf8 "RUN") =
        some ⟨utf8 "Run", utf8 "a.lox"⟩ := by
  intro readKey readScript
  have hread : (readTargets readKey readScript [] casesEntries).run.run [] =
      (.ok (some casesDraft.targets), []) := rfl
  have hnamed : casesDraft.WellNamed := targets_consistent.1 _ _ _ _ _ _ _ _ hread
  have h := targets_consistent.2 [] casesDraft hnamed
  refine ⟨hread, hnamed, h.1.1, by decide, by decide, ?_, ?_⟩
  · rw [h.2.2.1]
    decide
  · rw [h.2.2.1]
    decide

/-- What is asked of a manifest holds of every one that is read from a file, and each of its targets
is found by its own name. -/
theorem ofText_sound {path text : Bytes} {m : Manifest} (h : ofText path text = .ok m) :
    m.name ≠ [] ∧ 0 ≤ m.parallel ∧ ∀ t ∈ m.targets,
      t.main ≠ [] ∧ Path.extension t.main = utf8 ".lox" ∧ findTarget (some m) t.name = some t := by
  unfold ofText at h
  split at h
  next => cases h
  next => cases h
  next node =>
    split at h
    next => cases h
    next draft hdraft =>
      dsimp only at h
      split at h
      next hissues =>
        cases h
        obtain ⟨hname, hmains, hparallel⟩ :=
          (consistent_ofDraft path draft).issues?_eq_nil_iff.mp hissues
        refine ⟨hname, hparallel, fun t ht => ⟨(hmains t ht).1, (hmains t ht).2, ?_⟩⟩
        exact findTarget_ofDraft (Draft.ofNode_wellNamed hdraft) ht
      next => cases h
      next => cases h

end Manifest

end Lox
