/-
Frames and scopes side by side.

# Layouts

Frames are shared and keep growing: a function's frame also gets the names that are declared after
the function. Scopes are never changed, and a cell is bound to a name in one map or in several maps
that grew from one another. A layout says which cell stands for which name of which frame, together
with the parents of frames and the names that they bind. It only ever grows (`Layout.Le`), and all
that is said about values, closures and pending work is said relative to it, so what was true of a
value stays true (`Agrees.mono`).

# Chains

`Chain` ties a frame to a stack of scopes: going out from the frame by its parents, one meets for
each map a frame that has at least its cells. That the frame may have more is what makes a function
see just the names that were there when it was declared. `Holds` says on the side of frames that
what the walk had as defined is bound.

# Values

Two values agree if they are the same but for functions, and two functions agree if they have the
same code and were declared in a frame and in scopes that a chain ties (`Encloses`), where the walk
had been. What always holds of the frame of a scene, whatever was bound there later, is `Sound`.
-/
import Lox.Proofs.Scope.Seen
import Lox.Proofs.Lexical.Machine
import Lox.Proofs.Store.Change
import Lox.Proofs.Value.Alike

namespace Lox

-- ==== Cells after a change

namespace Lexical.Cells

variable {mem : Cells} {ref c : CellRef} {v : Value Scopes} {x name : Bytes}

/-- What cells hold after one of them was set. -/
theorem cell?_setCell (h : ref < mem.slots.size) :
    (mem.setCell ref v).cell? c = if c = ref then some v else mem.cell? c := by
  unfold setCell cell?
  rw [Array.getElem?_setIfInBounds]
  by_cases hc : ref = c
  · subst hc
    simp [h]
  · simp [hc, Ne.symm hc]

/-- What globals are after one of them was set. -/
theorem lookup_setGlobal :
    (mem.setGlobal name v).globals.lookup x = if x = name then some v else mem.globals.lookup x :=
  Table.lookup_set ..

end Lexical.Cells

-- ==== Layouts

open Lexical (CellRef Scopes Cells)

/-- The parents of frames, the names they bind, and the cells that stand for names of frames. -/
structure Layout where
  parent : FrameRef → Option FrameRef
  bound : FrameRef → Bytes → Prop
  cell : FrameRef → Bytes → Option CellRef

namespace Layout

/-- The layout has grown. -/
structure Le (L L' : Layout) : Prop where
  parent : ∀ {ρ ρ'}, L.parent ρ = some ρ' → L'.parent ρ = some ρ'
  bound : ∀ {ρ x}, L.bound ρ x → L'.bound ρ x
  cell : ∀ {ρ x c}, L.cell ρ x = some c → L'.cell ρ x = some c

/-- A layout that has not changed. -/
theorem Le.refl (L : Layout) : L.Le L := ⟨id, id, id⟩

/-- A layout that has grown twice. -/
theorem Le.trans {L₁ L₂ L₃ : Layout} (h : L₁.Le L₂) (h' : L₂.Le L₃) : L₁.Le L₃ :=
  ⟨fun hp => h'.parent (h.parent hp), fun hb => h'.bound (h.bound hb),
    fun hc => h'.cell (h.cell hc)⟩

/-- A frame has come to bind a name. -/
def bind (L : Layout) (ref : FrameRef) (name : Bytes) : Layout :=
  { L with bound := fun ρ x => ρ = ref ∧ x = name ∨ L.bound ρ x }

/-- A frame has been added. -/
def push (L : Layout) (ref parent : FrameRef) : Layout :=
  { L with parent := fun ρ => if ρ = ref then some parent else L.parent ρ }

/-- A cell has come to stand for a name of a frame. -/
def assignCell (L : Layout) (ref : FrameRef) (name : Bytes) (c : CellRef) : Layout :=
  { L with cell := fun ρ x => if ρ = ref ∧ x = name then some c else L.cell ρ x }

/-- Binding a name only adds to a layout. -/
theorem le_bind (L : Layout) (ref : FrameRef) (name : Bytes) : L.Le (L.bind ref name) :=
  ⟨id, .inr, id⟩

/-- So does a frame that was not there. -/
theorem le_push {L : Layout} {ref : FrameRef} (h : L.parent ref = none) (parent : FrameRef) :
    L.Le (L.push ref parent) := by
  refine ⟨fun {ρ ρ'} hp => ?_, id, id⟩
  have hne : ρ ≠ ref := by
    rintro rfl
    simp [h] at hp
  simpa [push, hne] using hp

/-- So does a cell for a name that had none. -/
theorem le_assignCell {L : Layout} {ref : FrameRef} {name : Bytes} (h : L.cell ref name = none)
    (c : CellRef) : L.Le (L.assignCell ref name c) := by
  refine ⟨id, id, fun {ρ x c'} hc => ?_⟩
  have hne : ¬(ρ = ref ∧ x = name) := by
    rintro ⟨rfl, rfl⟩
    simp [h] at hc
  simpa [assignCell, hne] using hc

end Layout

-- ==== Chains

/-- Out from the frame there is a frame for each scope, with at least the cells of the scope; and the
scopes have the names that the walk had. -/
inductive Chain (L : Layout) : List Scope → FrameRef → Scopes → Prop where
  | top : Chain L [] Store.global []
  | under {scope : Scope} {outer : List Scope} {ρ ρ' : FrameRef} {names : Lexical.Names}
      {rest : Scopes} (declared : ∀ x, scope.declares x = (names.lookup x).isSome)
      (cells : ∀ x c, names.lookup x = some c → L.cell ρ x = some c) (inner : ρ ≠ Store.global)
      (parent : L.parent ρ = some ρ') (chain : Chain L outer ρ' rest) :
      Chain L (scope :: outer) ρ (names :: rest)

/-- Out from the frame there is a frame for each scope, and it binds all names that the walk had as
defined. -/
inductive Holds (L : Layout) : List Scope → FrameRef → Prop where
  | top : Holds L [] Store.global
  | under {scope : Scope} {outer : List Scope} {ρ ρ' : FrameRef}
      (defined : ∀ x, scope.lookup x = some true → L.bound ρ x) (parent : L.parent ρ = some ρ')
      (holds : Holds L outer ρ') : Holds L (scope :: outer) ρ

variable {L L' : Layout} {scopes : List Scope} {ρ : FrameRef} {σ : Scopes}

/-- A chain stays one. -/
theorem Chain.mono (h : Chain L scopes ρ σ) (hle : L.Le L') : Chain L' scopes ρ σ := by
  induction h with
  | top => exact .top
  | under declared cells inner parent _ ih =>
      exact .under declared (fun x c hx => hle.cell (cells x c hx)) inner (hle.parent parent) ih

/-- What is bound stays bound. -/
theorem Holds.mono (h : Holds L scopes ρ) (hle : L.Le L') : Holds L' scopes ρ := by
  induction h with
  | top => exact .top
  | under defined parent _ ih =>
      exact .under (fun x hx => hle.bound (defined x hx)) (hle.parent parent) ih

/-- Whether a declared name is defined does not matter to a chain. -/
theorem Chain.define {name : Bytes} {d : Bool} :
    Chain L (Scope.record name false scopes) ρ σ ↔
      Chain L (Scope.record name d (Scope.record name false scopes)) ρ σ := by
  cases scopes with
  | nil => exact .rfl
  | cons scope outer =>
      have hsame : ∀ x, Scope.declares ((scope.set name false).set name d) x =
          Scope.declares (scope.set name false) x := by
        intro x
        rw [Scope.declares_set, Scope.declares_set]
        by_cases hx : x = name <;> simp [hx]
      constructor
      · rintro (_ | ⟨declared, cells, inner, parent, chain⟩)
        exact .under (fun x => (hsame x).trans (declared x)) cells inner parent chain
      · rintro (_ | ⟨declared, cells, inner, parent, chain⟩)
        exact .under (fun x => (hsame x).symm.trans (declared x)) cells inner parent chain

/-- In its own initializer a name counts as not defined, so nothing more has to be bound. -/
theorem Holds.declare (h : Holds L scopes ρ) (name : Bytes) :
    Holds L (Scope.record name false scopes) ρ := by
  cases h with
  | top => exact .top
  | under defined parent holds =>
      refine .under (fun x hx => defined x ?_) parent holds
      rw [Table.lookup_set] at hx
      split at hx
      · simp at hx
      · exact hx

-- ==== Values

/-- What always holds of the frame in which the walk's scene is carried out: it binds what its
scopes have as defined, and all that they declare is defined. It may bind more, which was declared
there after the scene was kept by a function. -/
structure Sound (L : Layout) (scene : Scene) (ρ : FrameRef) : Prop where
  holds : Holds L scene.scopes ρ
  defined : ∀ scope ∈ scene.scopes, ∀ x, scope.declares x = true → scope.lookup x = some true
  globals : ∀ x ∈ scene.globals, L.bound Store.global x
  known : ∀ x, scene.known x = true → L.bound Store.global x

theorem Sound.mono {scene : Scene} (h : Sound L scene ρ) (hle : L.Le L') : Sound L' scene ρ :=
  ⟨h.holds.mono hle, h.defined, fun x hx => hle.bound (h.globals x hx),
    fun x hx => hle.bound (h.known x hx)⟩

/-- The code was declared in the frame and in the scopes, where the walk had been. -/
def Encloses (vs : List Visit) (L : Layout) (code : Code) (ρ : FrameRef) (σ : Scopes) : Prop :=
  ∃ scene, Chain L scene.scopes ρ σ ∧ Sound L scene ρ ∧
    SeenBody vs (scene.enterFunction code.params) code.body

/-- Two functions are the same but for the places in which they were declared, which agree. -/
inductive Closure.Agrees (vs : List Visit) (L : Layout) : Closure → Closure Scopes → Prop where
  | mk {ident : Nat} {code : Option Code} {ρ : FrameRef} {σ : Scopes}
      (encloses : ∀ c, code = some c → Encloses vs L c ρ σ) :
      Closure.Agrees vs L ⟨ident, code, ρ⟩ ⟨ident, code, σ⟩

/-- To operators, functions that agree are the same. -/
theorem Closure.Agrees.same {vs : List Visit} (f : Closure) (g : Closure Scopes)
    (h : Closure.Agrees vs L f g) : Closure.Same f g := by
  cases h
  exact ⟨rfl, rfl, rfl⟩

/-- Two values are the same but for the places in which functions were declared, which agree. -/
abbrev Agrees (vs : List Visit) (L : Layout) : Value → Value Scopes → Prop :=
  Value.Alike (Closure.Agrees vs L)

/-- The place of a function stays tied. -/
theorem Encloses.mono {vs us : List Visit} {code : Code} (h : Encloses vs L code ρ σ)
    (hs : vs ⊆ us) (hle : L.Le L') : Encloses us L' code ρ σ := by
  obtain ⟨scene, hc, hsound, hseen⟩ := h
  exact ⟨scene, hc.mono hle, hsound.mono hle, hseen.mono hs⟩

/-- Values that agree go on agreeing. -/
theorem Agrees.mono {vs us : List Visit} {v : Value} {v' : Value Scopes} (h : Agrees vs L v v')
    (hs : vs ⊆ us) (hle : L.Le L') : Agrees us L' v v' := by
  refine Value.Alike.mono h fun f g hfg => ?_
  cases hfg with
  | mk encloses => exact .mk fun c hc => (encloses c hc).mono hs hle

theorem Agrees.mono_rel {vs us : List Visit} {v : Option Value} {v' : Option (Value Scopes)}
    (h : Option.Rel (Agrees vs L) v v') (hs : vs ⊆ us) (hle : L.Le L') :
    Option.Rel (Agrees us L') v v' := by
  cases h with
  | some h => exact .some (Agrees.mono h hs hle)
  | none => exact .none

end Lox
