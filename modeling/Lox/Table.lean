/-
Tables by name.

A table has an entry for some names, each name at most once, in the order in which they came.
-/
import Lox.Text.Bytes

namespace Lox

/-- Names with what the table says of them. -/
abbrev Table (α : Type) := List (Bytes × α)

namespace Table

variable {α : Type} {name : Bytes} {value : α}

/-- Enter a name, in place of its old entry if it has one. -/
def set (name : Bytes) (value : α) : Table α → Table α
  | [] => [(name, value)]
  | (other, v) :: rest =>
    if other = name then (name, value) :: rest else (other, v) :: set name value rest

/-- After a name has been entered it is found as entered, and no other name has changed. -/
theorem lookup_set (table : Table α) (x : Bytes) :
    (table.set name value).lookup x = if x = name then some value else table.lookup x := by
  induction table with
  | nil =>
      by_cases h : x = name
      · simp [set, h]
      · have : (x == name) = false := by simpa using h
        simp [set, h, List.lookup_cons, this]
  | cons entry rest ih =>
      obtain ⟨other, v⟩ := entry
      unfold set
      split
      next heq =>
        subst heq
        by_cases h : x = other
        · simp [h]
        · have : (x == other) = false := by simpa using h
          simp [h, List.lookup_cons, this]
      next hne =>
        by_cases h : x = other
        · subst h
          simp [hne]
        · have : (x == other) = false := by simpa using h
          simp only [List.lookup_cons, this, ih]

/-- A name that is entered comes last, unless it had an entry: then no name has moved. -/
theorem keys_set (table : Table α) :
    (table.set name value).map Prod.fst =
      if name ∈ table.map Prod.fst then table.map Prod.fst else table.map Prod.fst ++ [name] := by
  induction table with
  | nil => simp [set]
  | cons entry rest ih =>
      obtain ⟨other, v⟩ := entry
      unfold set
      split
      next heq => simp [heq]
      next hne =>
        have hname : name ≠ other := fun h => hne h.symm
        simp only [List.map_cons, ih, List.mem_cons, hname, false_or, List.cons_append]
        split <;> rfl

/-- Entering a name keeps each name at most once. -/
theorem nodup_keys_set {table : Table α} (h : (table.map Prod.fst).Nodup) :
    ((table.set name value).map Prod.fst).Nodup := by
  rw [keys_set]
  split
  next => exact h
  next hnew =>
    refine List.nodup_append.mpr ⟨h, List.nodup_cons.mpr ⟨List.not_mem_nil, List.nodup_nil⟩, ?_⟩
    intro a ha b hb hab
    rw [hab, List.mem_singleton.mp hb] at ha
    exact hnew ha

end Table

end Lox
