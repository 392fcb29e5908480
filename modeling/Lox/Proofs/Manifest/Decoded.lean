/-
The names of the targets in a draft that was read from a document.

# Where names come from

The targets are read entry by entry, and the name of each is the trimmed text of its key; one that
is empty then ends it all. This holds whatever texts the keys and the scripts are read as
(`readTargets_named`), so it does not depend on how a document is taken apart.

# What a record keeps

A draft is read from a document as a record, field by field, and records are read in two monads, one
of which can stop. What a record keeps from field to field is shown for both at once. All that it
takes is to know which results a computation can have, and that those of a sequence are results of
its parts (`Yielding`, with one instance for each of the two monads). A field that is set, from any
state that has a property, to one that has it, keeps the property (`Keeps`); entries read one after
the other keep what each field keeps, by induction (`readEntries_keeps`), and so does the whole record
(`readRecord_keeps`).

# The fields of a manifest

The property here is that all targets are named: trimmed and not empty (`Draft.WellNamed`). Only one
field sets the targets (`targetsField_keeps`), and all others leave them alone (`stringField_keeps`,
`parallelField_keeps`, and the records within the record, `replFields_keep` and `fixtureFields_keep`).
A draft starts without targets, so those of the draft that a document holds are named
(`Draft.ofNode_wellNamed`).
-/
import Lox.Manifest.Draft
import Lox.Proofs.Text.Trim

namespace Lox

/-- The target has a name without blanks at its ends, and not the empty one. -/
def Target.Named (t : Target) : Prop := t.name ≠ [] ∧ Text.trim t.name = t.name

namespace Manifest

open Yaml (Node)

/-- All targets are named. -/
def Draft.WellNamed (draft : Draft) : Prop := ∀ t ∈ draft.targets, t.Named

-- ==== Results of computations

/-- A monad with the results that its computations can have. Only two things are asked, so that the
lemmas about reading records hold for all of the monads that records are read in. -/
class Yielding (m : Type → Type) [Monad m] where
  /-- The computation can have the result. -/
  Yields {α : Type} : m α → α → Prop
  eq_of_pure {α : Type} {a b : α} : Yields (pure a) b → b = a
  of_bind {α β : Type} {x : m α} {f : α → m β} {b : β} :
    Yields (x >>= f) b → ∃ a, Yields x a ∧ Yields (f a) b

open Yielding

instance : Yielding Noting where
  Yields x a := ∃ faults, (x.run faults).1 = a
  eq_of_pure := by
    rintro α a b ⟨faults, h⟩
    exact h.symm
  of_bind := by
    rintro α β x f b ⟨faults, h⟩
    exact ⟨_, ⟨faults, rfl⟩, ⟨_, h⟩⟩

instance : Yielding (ExceptT DraftFault Noting) where
  Yields x a := ∃ faults, (x.run.run faults).1 = .ok a
  eq_of_pure := by
    rintro α a b ⟨faults, h⟩
    cases h
    rfl
  of_bind := by
    rintro α β x f b ⟨faults, h⟩
    rw [ExceptT.run_bind, StateT.run_bind] at h
    cases hx : x.run.run faults with
    | mk result noted =>
        rw [hx] at h
        cases result with
        | error fault => cases h
        | ok a => exact ⟨a, ⟨faults, by rw [hx]⟩, ⟨noted, h⟩⟩

/-- The computation keeps the property: from a state that has it, all results have it. -/
def Keeps {m : Type → Type} [Monad m] [Yielding m] {σ : Type} (P : σ → Prop) (x : σ → m σ) : Prop :=
  ∀ s s', P s → Yields (x s) s' → P s'

section

variable {m : Type → Type} [Monad m] [Yielding m] {σ : Type} {P : σ → Prop}

/-- Doing nothing keeps all properties. -/
theorem keeps_pure : Keeps P (pure : σ → m σ) := by
  intro s s' hs h
  rw [eq_of_pure h]
  exact hs

-- ==== Records

variable [MonadLiftT Noting m] {type : FieldType} {strict : Bool} {fields : Fields m σ}

/-- The entries of a mapping keep what each field keeps: one that is passed over or unknown leaves the
record as it is. -/
theorem readEntries_keeps
    (hfields : ∀ name set, fields name = some set → ∀ node, Keeps P (set node))
    (entries : List (Node × Node)) : Keeps P (readEntries type strict fields entries) := by
  induction entries with
  | nil => exact keeps_pure
  | cons entry rest ih =>
      intro s s' hs h
      unfold readEntries at h
      obtain ⟨name?, -, h⟩ := of_bind h
      cases name? with
      | none => exact ih s s' hs h
      | some name =>
          dsimp only at h
          cases hset : fields name with
          | none =>
              rw [hset] at h
              cases strict with
              | false => exact ih s s' hs h
              | true =>
                  obtain ⟨-, -, h⟩ := of_bind h
                  exact ih s s' hs h
          | some set =>
              rw [hset] at h
              obtain ⟨s₁, hfirst, h⟩ := of_bind h
              exact ih s₁ s' (hfields name set hset entry.2 s s₁ hs hfirst) h

/-- A record keeps what each of its fields keeps, whatever the node is. A node that is no mapping
leaves the record as it is, with or without a note. -/
theorem readRecord_keeps
    (hfields : ∀ name set, fields name = some set → ∀ node, Keeps P (set node)) (node : Node) :
    Keeps P (readRecord type strict fields node) := by
  intro s s' hs h
  have after_note : ∀ x : m PUnit, Yields (x >>= fun _ => pure s) s' → P s' := by
    intro x hx
    obtain ⟨-, -, hpure⟩ := of_bind hx
    exact keeps_pure s s' hs hpure
  cases node with
  | scalar line text quoted =>
      unfold readRecord at h
      dsimp only at h
      split at h
      · exact keeps_pure s s' hs h
      · exact after_note _ h
  | sequence line items => exact after_note _ h
  | mapping line entries =>
      unfold readRecord at h
      dsimp only at h
      split at h
      · exact readEntries_keeps hfields entries s s' hs h
      · exact after_note _ h

end

/-- A string that is no target leaves the targets alone. -/
theorem stringField_keeps {set : Bytes → Draft → Draft}
    (hset : ∀ text d, (set text d).targets = d.targets) (node : Node) :
    Keeps Draft.WellNamed (stringField set node) := by
  intro d d' hd h
  obtain ⟨text?, -, h⟩ := of_bind h
  cases text? with
  | none => exact keeps_pure d d' hd h
  | some text =>
      refine keeps_pure (set text d) d' ?_ h
      unfold Draft.WellNamed
      rw [hset text d]
      exact hd

/-- A field keeps the same where a fault can end it all. -/
theorem stoppable_keeps {P : Draft → Prop} {field : Node → Draft → Noting Draft} {node : Node}
    (h : Keeps P (field node)) : Keeps P (stoppable field node) := by
  rintro s s' hs ⟨faults, hrun⟩
  refine h s s' hs ⟨faults, ?_⟩
  cases hrun
  rfl

-- ==== The fields of a manifest

/-- A computation that stops has no result. -/
theorem not_yields_throw {α : Type} (fault : DraftFault) (a : α) :
    ¬Yields (throw fault : ExceptT DraftFault Noting α) a := by
  rintro ⟨faults, h⟩
  cases h

theorem named_trim {text main : Bytes} (h : ¬(Text.trim text).isEmpty = true) :
    Target.Named ⟨Text.trim text, main⟩ :=
  ⟨fun hnil => h (List.isEmpty_iff.mpr hnil), Text.trim_trim text⟩

/-- However keys and scripts are read, the targets have names that are trimmed and not empty. By
induction over the entries: an entry whose name is empty ends the reading with a fault, and each of
the others adds its trimmed name. -/
theorem readTargets_named {κ ν : Type} {readKey : κ → Noting (Option Bytes)}
    {readScript : ν → Noting Bytes} {before targets : List Target} {entries : List (κ × ν)}
    (hbefore : ∀ t ∈ before, t.Named)
    (h : Yields (readTargets readKey readScript before entries) (some targets)) :
    ∀ t ∈ targets, t.Named := by
  induction entries generalizing before with
  | nil =>
      cases eq_of_pure h
      exact hbefore
  | cons entry rest ih =>
      unfold readTargets at h
      dsimp only at h
      -- the ways out in the order they are taken: a key that is no string, an empty name, a script
      -- that cannot be read
      split at h
      split at h
      · obtain ⟨-, -, h⟩ := of_bind h
        cases eq_of_pure h
      split at h
      · obtain ⟨_, hthrow, -⟩ := of_bind h
        exact absurd hthrow (not_yields_throw _ _)
      next hname =>
        split at h
        split at h
        · obtain ⟨_, hthrow, -⟩ := of_bind h
          exact absurd hthrow (not_yields_throw _ _)
        · refine ih (fun t ht => ?_) h
          rcases List.mem_append.mp ht with hold | hnew
          · exact hbefore t hold
          · rw [List.mem_singleton.mp hnew]
            exact named_trim hname

/-- The targets that are set are named. -/
theorem targetsField_keeps (node : Node) : Keeps Draft.WellNamed (targetsField node) := by
  intro d d' hd h
  unfold targetsField at h
  cases node with
  | scalar line text quoted =>
      dsimp only at h
      split at h
      · exact keeps_pure d d' hd h
      · exact absurd h (not_yields_throw _ d')
  | sequence line items => exact absurd h (not_yields_throw _ d')
  | mapping line entries =>
      obtain ⟨targets?, htargets, h⟩ := of_bind h
      cases targets? with
      | none => exact keeps_pure d d' hd h
      | some targets =>
          refine keeps_pure { d with targets := targets } d' ?_ h
          exact readTargets_named (fun t ht => absurd ht List.not_mem_nil) htargets

theorem parallelField_keeps (node : Node) : Keeps Draft.WellNamed (parallelField node) := by
  intro d d' hd h
  obtain ⟨n?, -, h⟩ := of_bind h
  cases n? with
  | none => exact keeps_pure d d' hd h
  | some n => exact keeps_pure { d with parallel := n } d' hd h

theorem replFields_keep (name : Bytes) (set : Node → Draft → Noting Draft)
    (h : replFields name = some set) (node : Node) : Keeps Draft.WellNamed (set node) := by
  unfold replFields at h
  split at h
  · cases h
    apply stringField_keeps
    exact fun _ _ => rfl
  split at h
  · cases h
    apply stringField_keeps
    exact fun _ _ => rfl
  split at h
  · cases h
    apply stringField_keeps
    exact fun _ _ => rfl
  · cases h

theorem fixtureFields_keep (name : Bytes) (set : Node → Draft → Noting Draft)
    (h : fixtureFields name = some set) (node : Node) : Keeps Draft.WellNamed (set node) := by
  unfold fixtureFields at h
  split at h
  · cases h
    apply stringField_keeps
    exact fun _ _ => rfl
  split at h
  · cases h
    exact parallelField_keeps node
  · cases h

/-- Each field of a manifest keeps the targets named: one sets them, and the others are strings and
records within the record. -/
theorem manifestFields_keep (name : Bytes) (set : Node → Draft → ExceptT DraftFault Noting Draft)
    (h : manifestFields name = some set) (node : Node) : Keeps Draft.WellNamed (set node) := by
  unfold manifestFields at h
  split at h
  · cases h
    apply stoppable_keeps
    apply stringField_keeps
    exact fun _ _ => rfl
  split at h
  · cases h
    apply stoppable_keeps
    apply stringField_keeps
    exact fun _ _ => rfl
  split at h
  · cases h
    exact targetsField_keeps node
  split at h
  · cases h
    exact stoppable_keeps (readRecord_keeps replFields_keep node)
  split at h
  · cases h
    exact stoppable_keeps (readRecord_keeps fixtureFields_keep node)
  · cases h

/-- The targets of a draft that a document holds are named. -/
theorem Draft.ofNode_wellNamed {node : Node} {draft : Draft} (h : ofNode node = .ok draft) :
    draft.WellNamed := by
  have hkeeps : Keeps Draft.WellNamed (readRecord .manifest true manifestFields node) :=
    readRecord_keeps manifestFields_keep node
  have hstart : Draft.WellNamed {} := fun t ht => absurd ht List.not_mem_nil
  unfold ofNode at h
  split at h
  next => cases h
  next read hrun =>
    cases h
    exact hkeeps {} draft hstart ⟨[], by rw [hrun]⟩
  next => cases h

end Manifest

end Lox
