/-
The heap: all frames and all cells.

# What is tied

`Heap` says that what a frame binds a name to is what the cell of the name holds. A name of a frame
that has a cell but is not bound yet has an empty cell; the names of the global frame have no cells,
and are tied to the globals of the lexical machine one by one. No two names share a cell, so that a
change of one binding is a change of one cell.

# Finding a name

Going out from a frame by as many parents as the distance says leads to the frame whose cell the
scopes give (`find_some`, by induction over the chain); without a distance the name is in no scope
(`find_none`).

# Changes

Each change that the two machines make to their memories has one lemma here, which gives the layout
after the change: declaring a name (`allot`), which only the lexical machine does, and binding a
name (`write`, `writeGlobal`), adding a frame (`add`) and making a function (`issue`), which both
do. A value that is bound may be a function that uses the very name, so it has to agree under the
layout after the change.
-/
import Lox.Proofs.Frames.Layout

namespace Lox

open Lexical (CellRef Scopes Cells)

/-- All frames agree with all cells: the layout tells which cell stands for which name of which
frame, and the two have values that agree. -/
structure Heap (vs : List Visit) (L : Layout) (store : Store) (mem : Cells) : Prop where
  parent : ∀ ρ, store.parent? ρ = L.parent ρ
  bound : ∀ ρ x, (store.lookup? ρ x).isSome = true ↔ L.bound ρ x
  root : L.parent Store.global = none
  nonempty : Store.global < store.frames.size
  /-- A name that a frame binds has a cell, unless the frame is the global one. -/
  celled : ∀ ρ x, ρ ≠ Store.global → L.bound ρ x → ∃ c, L.cell ρ x = some c
  cell : ∀ ρ x c, L.cell ρ x = some c →
    ρ ≠ Store.global ∧ ρ < store.frames.size ∧ c < mem.slots.size ∧
      Option.Rel (Agrees vs L) (store.lookup? ρ x) (mem.cell? c)
  injective : ∀ ρ x ρ' x' c, L.cell ρ x = some c → L.cell ρ' x' = some c → ρ = ρ' ∧ x = x'
  globals : ∀ x, Option.Rel (Agrees vs L) (store.lookup? Store.global x) (mem.globals.lookup x)
  issued : store.issued = mem.issued

/-- The frame has no cells but those of the innermost scope. -/
def Owns (L : Layout) (ρ : FrameRef) : Scopes → Prop
  | [] => True
  | names :: _ => ∀ x, L.cell ρ x = names.lookup x

namespace Heap

variable {vs us : List Visit} {L : Layout} {store : Store} {mem : Cells}
variable {scopes : List Scope} {ρ ref : FrameRef} {σ : Scopes} {name : Bytes} {c : CellRef}
variable {v : Value} {v' : Value Scopes}

/-- There may be further visits. -/
theorem mono (h : Heap vs L store mem) (hs : vs ⊆ us) : Heap us L store mem where
  parent := h.parent
  bound := h.bound
  root := h.root
  nonempty := h.nonempty
  celled := h.celled
  cell ρ x c hc := by
    obtain ⟨h₁, h₂, h₃, h₄⟩ := h.cell ρ x c hc
    exact ⟨h₁, h₂, h₃, Agrees.mono_rel h₄ hs (.refl L)⟩
  injective := h.injective
  globals x := Agrees.mono_rel (h.globals x) hs (.refl L)
  issued := h.issued

/-- A frame that is not there has no parent. -/
theorem parent_eq_none (h : Heap vs L store mem) (hle : store.frames.size ≤ ρ) :
    L.parent ρ = none := by
  rw [← h.parent ρ]
  refine Option.eq_none_iff_forall_ne_some.mpr fun ρ' hp => ?_
  exact Nat.not_lt.mpr hle (Store.lt_of_parent? hp)

/-- A frame that is not there has no cells. -/
theorem cell_eq_none (h : Heap vs L store mem) (hle : store.frames.size ≤ ρ) (x : Bytes) :
    L.cell ρ x = none := by
  refine Option.eq_none_iff_forall_ne_some.mpr fun c hc => ?_
  exact Nat.not_lt.mpr hle (h.cell ρ x c hc).2.1

/-- A frame that is not there binds nothing. -/
theorem not_bound (h : Heap vs L store mem) (hle : store.frames.size ≤ ρ) (x : Bytes) :
    ¬L.bound ρ x := by
  intro hb
  have hsome := (h.bound ρ x).mpr hb
  rw [Store.lookup?_of_le hle] at hsome
  simp at hsome

/-- The frame of a chain is in the store. -/
theorem lt_of_chain (h : Heap vs L store mem) (hc : Chain L scopes ρ σ) :
    ρ < store.frames.size := by
  cases hc with
  | top => exact h.nonempty
  | under _ _ _ parent _ =>
      rw [← h.parent ρ] at parent
      exact Store.lt_of_parent? parent

-- ==== Finding a name

/-- Going out by the distance of a name leads to the frame whose cell the scopes give. -/
theorem find_some (h : Heap vs L store mem) (hc : Chain L scopes ρ σ) {hops : Nat}
    (hd : Scope.distance? name scopes = some hops) :
    ∃ ref c, store.climb hops ρ = .ok ref ∧ σ.find? name = some c ∧ L.cell ref name = some c := by
  induction hc generalizing hops with
  | top => simp [Scope.distance?] at hd
  | @under scope outer ρ ρ' names rest declared cells inner parent chain ih =>
      unfold Scope.distance? at hd
      rw [declared name] at hd
      cases hl : names.lookup name with
      | some c =>
          simp only [hl, Option.isSome_some, if_true, Option.some.injEq] at hd
          subst hd
          exact ⟨ρ, c, rfl, by simp [Scopes.find?, hl], cells name c hl⟩
      | none =>
          simp only [hl, Option.isSome_none, Bool.false_eq_true, if_false] at hd
          obtain ⟨k, hk, rfl⟩ := Option.map_eq_some_iff.mp hd
          obtain ⟨ref, c, hclimb, hfind, hcell⟩ := ih hk
          refine ⟨ref, c, ?_, by simp [Scopes.find?, hl, hfind], hcell⟩
          simp only [Store.climb, h.parent ρ, parent, hclimb]

/-- A name without a distance is in no scope. -/
theorem find_none (hc : Chain L scopes ρ σ) (hd : Scope.distance? name scopes = none) :
    σ.find? name = none := by
  induction hc with
  | top => rfl
  | @under scope outer ρ ρ' names rest declared cells inner parent chain ih =>
      unfold Scope.distance? at hd
      rw [declared name] at hd
      cases hl : names.lookup name with
      | some c => simp [hl] at hd
      | none =>
          simp only [hl, Option.isSome_none, Bool.false_eq_true, if_false,
            Option.map_eq_none_iff] at hd
          simp [Scopes.find?, hl, ih hd]

-- ==== Changes

/-- Binding a name that has a cell. The value may be a function that uses the name, so it is asked
to agree in the layout where the name is bound already. No other name changes, because no two names
share a cell. -/
theorem write (h : Heap vs L store mem) (hc : L.cell ref name = some c)
    (hv : Agrees vs (L.bind ref name) v v') :
    Heap vs (L.bind ref name) (store.define ref name v) (mem.setCell c v') := by
  obtain ⟨hglobal, hsize, hcells, -⟩ := h.cell ref name c hc
  have hle := L.le_bind ref name
  refine ⟨fun ρ => ?_, fun ρ x => ?_, h.root, ?_, fun ρ x hρ hb => ?_, fun ρ x d hd => ?_,
    h.injective, fun x => ?_, h.issued⟩
  · rw [Store.parent?_define]
    exact h.parent ρ
  · rw [Store.lookup?_define hsize]
    by_cases hx : ρ = ref ∧ x = name
    · simp [hx, Layout.bind]
    · simp only [hx, if_false, Layout.bind, false_or]
      exact h.bound ρ x
  · rw [Store.size_define]
    exact h.nonempty
  · rcases hb with ⟨rfl, rfl⟩ | hb
    · exact ⟨c, hc⟩
    · exact h.celled ρ x hρ hb
  · obtain ⟨h₁, h₂, h₃, h₄⟩ := h.cell ρ x d hd
    refine ⟨h₁, by rwa [Store.size_define], by simpa [Cells.setCell] using h₃, ?_⟩
    rw [Store.lookup?_define hsize, Cells.cell?_setCell hcells]
    by_cases hx : ρ = ref ∧ x = name
    · obtain ⟨rfl, rfl⟩ := hx
      obtain rfl : d = c := Option.some.inj (hd.symm.trans hc)
      simp only [and_self, if_true]
      exact .some hv
    · have hne : d ≠ c := by
        rintro rfl
        exact hx (h.injective _ _ _ _ _ hd hc)
      simp only [hx, hne, if_false]
      exact Agrees.mono_rel h₄ (List.Subset.refl _) hle
  · have hne : ¬(Store.global = ref ∧ x = name) := fun hx => hglobal hx.1.symm
    rw [Store.lookup?_define hsize, if_neg hne]
    exact Agrees.mono_rel (h.globals x) (List.Subset.refl _) hle

/-- Binding a global. Globals have no cells, so the local names keep theirs, and the global table is
set where the global frame is. -/
theorem writeGlobal (h : Heap vs L store mem) (name : Bytes)
    (hv : Agrees vs (L.bind Store.global name) v v') :
    Heap vs (L.bind Store.global name) (store.define Store.global name v)
      (mem.setGlobal name v') := by
  have hle := L.le_bind Store.global name
  refine ⟨fun ρ => ?_, fun ρ x => ?_, h.root, ?_, fun ρ x hρ hb => ?_, fun ρ x d hd => ?_,
    h.injective, fun x => ?_, h.issued⟩
  · rw [Store.parent?_define]
    exact h.parent ρ
  · rw [Store.lookup?_define h.nonempty]
    by_cases hx : ρ = Store.global ∧ x = name
    · simp [hx, Layout.bind]
    · simp only [hx, if_false, Layout.bind, false_or]
      exact h.bound ρ x
  · rw [Store.size_define]
    exact h.nonempty
  · rcases hb with hb | hb
    · exact absurd hb.1 hρ
    · exact h.celled ρ x hρ hb
  · obtain ⟨h₁, h₂, h₃, h₄⟩ := h.cell ρ x d hd
    have hne : ¬(ρ = Store.global ∧ x = name) := fun hx => h₁ hx.1
    refine ⟨h₁, by rwa [Store.size_define], h₃, ?_⟩
    rw [Store.lookup?_define h.nonempty, if_neg hne]
    exact Agrees.mono_rel h₄ (List.Subset.refl _) hle
  · rw [Store.lookup?_define h.nonempty, Cells.lookup_setGlobal]
    by_cases hx : x = name
    · simp only [hx, and_self, if_true]
      exact .some hv
    · simp only [hx, and_false, if_false]
      exact Agrees.mono_rel (h.globals x) (List.Subset.refl _) hle

/-- Adding a frame. It binds nothing and has no cells yet, and no function and no frame had it
before, so all that was said of the others still holds. -/
theorem add (h : Heap vs L store mem) (ρ : FrameRef) :
    Heap vs (L.push store.nextRef ρ) (store.add (some ρ)) mem := by
  have hle : L.Le (L.push store.nextRef ρ) :=
    Layout.le_push (h.parent_eq_none (Nat.le_refl _)) ρ
  refine ⟨fun ref => ?_, fun ref x => ?_, ?_, ?_, h.celled, fun ref x c hc => ?_, h.injective,
    fun x => ?_, h.issued⟩
  · rw [Store.parent?_add, h.parent ref]
    rfl
  · rw [Store.lookup?_add]
    exact h.bound ref x
  · have hne : Store.global ≠ store.nextRef := Nat.ne_of_lt h.nonempty
    show (if Store.global = store.nextRef then some ρ else L.parent Store.global) = none
    rw [if_neg hne, h.root]
  · rw [Store.size_add]
    exact Nat.lt_succ_of_lt h.nonempty
  · obtain ⟨h₁, h₂, h₃, h₄⟩ := h.cell ref x c hc
    refine ⟨h₁, ?_, h₃, ?_⟩
    · rw [Store.size_add]
      exact Nat.lt_succ_of_lt h₂
    · rw [Store.lookup?_add]
      exact Agrees.mono_rel h₄ (List.Subset.refl _) hle
  · rw [Store.lookup?_add]
    exact Agrees.mono_rel (h.globals x) (List.Subset.refl _) hle

/-- Making a function. -/
theorem issue (h : Heap vs L store mem) :
    Heap vs L { store with issued := store.issued + 1 } { mem with issued := mem.issued + 1 } :=
  ⟨h.parent, h.bound, h.root, h.nonempty, h.celled, h.cell, h.injective, h.globals,
    congrArg (· + 1) h.issued⟩

/-- A new unbound cell for a name that the frame has no cell for. The frame cannot bind the name
either, since all that it binds has cells, and the new cell is the cell of nothing else. -/
theorem allot (h : Heap vs L store mem) (hn : L.cell ref name = none) (hg : ref ≠ Store.global)
    (hr : ref < store.frames.size) :
    Heap vs (L.assignCell ref name mem.slots.size) store
      { mem with slots := mem.slots.push none } := by
  have hle := Layout.le_assignCell hn mem.slots.size
  have hcell? : ∀ c, Cells.cell? { mem with slots := mem.slots.push none } c = mem.cell? c := by
    intro c
    unfold Cells.cell?
    rw [Array.getElem?_push]
    split
    next hc => subst hc; simp
    next => rfl
  refine ⟨h.parent, h.bound, h.root, h.nonempty, fun ρ x hρ hb => ?_, fun ρ x d hd => ?_,
    fun ρ x ρ' x' d hd hd' => ?_, fun x => ?_, h.issued⟩
  · obtain ⟨c, hc⟩ := h.celled ρ x hρ hb
    exact ⟨c, hle.cell hc⟩
  · simp only [Layout.assignCell] at hd
    split at hd
    next hx =>
      obtain ⟨rfl, rfl⟩ := hx
      obtain rfl := Option.some.inj hd
      refine ⟨hg, hr, by simp, ?_⟩
      have hnone : store.lookup? ρ x = none := by
        cases hl : store.lookup? ρ x with
        | none => rfl
        | some v =>
            obtain ⟨c, hc⟩ := h.celled ρ x hg ((h.bound ρ x).mp (by rw [hl]; rfl))
            rw [hn] at hc
            simp at hc
      rw [hnone, hcell?]
      simp only [Cells.cell?, Array.getElem?_size]
      exact .none
    next =>
      obtain ⟨h₁, h₂, h₃, h₄⟩ := h.cell ρ x d hd
      refine ⟨h₁, h₂, by simpa using Nat.lt_succ_of_lt h₃, ?_⟩
      rw [hcell?]
      exact Agrees.mono_rel h₄ (List.Subset.refl _) hle
  · -- No old cell is the new one.
    have hold : ∀ ρ x, L.cell ρ x ≠ some mem.slots.size := by
      intro ρ x hc
      exact Nat.lt_irrefl _ (h.cell ρ x _ hc).2.2.1
    simp only [Layout.assignCell] at hd hd'
    split at hd
    next hx =>
      split at hd'
      next hx' => exact ⟨hx.1.trans hx'.1.symm, hx.2.trans hx'.2.symm⟩
      next => exact absurd (hd'.trans hd.symm) (hold ρ' x')
    next =>
      split at hd'
      next => exact absurd (hd.trans hd'.symm) (hold ρ x)
      next => exact h.injective ρ x ρ' x' d hd hd'
  · exact Agrees.mono_rel (h.globals x) (List.Subset.refl _) hle

end Heap

end Lox
