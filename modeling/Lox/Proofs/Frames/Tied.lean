/-
The machine that runs programs, tied to the lexical machine.

# Frames in use

At any moment some frames are in use: that of the innermost block or call, and below it on the stack
those that wait for it to end. A frame in use is exact: it binds just the names that the walk had as
defined when it came to the statement that is being carried out there (`Exact`), and it has cells
for just the names of its scope (`Owns`). The frame of a function that has ended is not in use any
more, but functions may still see it; of such a frame only `Sound` is known.

# What a change can disturb

Frames in use get older down the stack, and a machine only declares and binds names in the youngest
of them and in the global frame. So all that a change can disturb is the youngest frame
(`Layout.Keeps`, `Stack.keeps`). That frames are numbered in the order in which they were added is
what makes this an inequality between numbers.

# Waiting work

What waits on the stack waits for a value or for a statement to end (`Awaited`). A return is only
carried out where a statement is awaited, and so it never skips the binding of a name. `Stack` has
one rule for each kind of waiting work; the frame in use and the scene change only where the
statements of a block or a function wait.

# Machines

`Tied` puts it together: the heap, what is done next with the work that waits for it (`Doing`), and
the counters.
-/
import Lox.Proofs.Frames.Heap
import Mathlib.Data.List.Forall2

namespace Lox

open Lexical (CellRef Scopes Cells)

-- ==== Frames in use

/-- The frame binds just the names that its scope defines in the scene. -/
structure Exact (L : Layout) (scene : Scene) (ρ : FrameRef) : Prop extends Sound L scene ρ where
  inner : scene.scopes ≠ [] → ρ ≠ Store.global
  only : ∀ scope outer, scene.scopes = scope :: outer → ∀ x, L.bound ρ x → scope.declares x = true

/-- The layout has grown, but not for frames older than `ρ`, and the frame `ρ` itself has got no
cells. The global frame may have got names. -/
structure Layout.Keeps (L L' : Layout) (ρ : FrameRef) : Prop extends Le L L' where
  older : ∀ ref x, ref ≠ Store.global → ref < ρ → L'.bound ref x → L.bound ref x
  cells : ∀ ref, ref ≠ Store.global → ref ≤ ρ → L'.cell ref = L.cell ref

namespace Layout

variable {L L' L'' : Layout} {ρ ref : FrameRef} {name : Bytes}

/-- What is kept for a frame is kept for older ones. -/
theorem Keeps.down {ρ₀ : FrameRef} (h : L.Keeps L' ρ) (hlt : ρ₀ < ρ) : L.Keeps L' ρ₀ :=
  ⟨h.toLe, fun ref x hg hr => h.older ref x hg (Nat.lt_trans hr hlt),
    fun ref hg hr => h.cells ref hg (Nat.le_trans hr (Nat.le_of_lt hlt))⟩

/-- Binding a name in the youngest frame, or globally. -/
theorem keeps_bind (h : ref = Store.global ∨ ρ ≤ ref) : L.Keeps (L.bind ref name) ρ := by
  refine ⟨L.le_bind ref name, fun r x hg hlt hb => ?_, fun _ _ _ => rfl⟩
  rcases hb with ⟨rfl, -⟩ | hb
  · rcases h with h | h
    · exact absurd h hg
    · exact absurd hlt (Nat.not_lt.mpr h)
  · exact hb

/-- The layout has grown, but only for the frame `n` and younger ones. -/
structure Spares (L L' : Layout) (n : FrameRef) : Prop extends Le L L' where
  sameBound : ∀ ref < n, L'.bound ref = L.bound ref
  sameCell : ∀ ref < n, L'.cell ref = L.cell ref

/-- A change of younger frames alone. -/
theorem Spares.keeps {n : FrameRef} (h : L.Spares L' n) (hlt : ρ < n) : L.Keeps L' ρ :=
  ⟨h.toLe, fun ref _ _ hr hb => h.sameBound ref (Nat.lt_trans hr hlt) ▸ hb,
    fun ref _ hr => h.sameCell ref (Nat.lt_of_le_of_lt hr hlt)⟩

/-- No change. -/
theorem Spares.refl (L : Layout) (n : FrameRef) : L.Spares L n :=
  ⟨.refl L, fun _ _ => rfl, fun _ _ => rfl⟩

/-- One change after another. -/
theorem Spares.trans {n : FrameRef} (h : L.Spares L' n) (h' : L'.Spares L'' n) : L.Spares L'' n :=
  ⟨h.toLe.trans h'.toLe, fun ref hr => (h'.sameBound ref hr).trans (h.sameBound ref hr),
    fun ref hr => (h'.sameCell ref hr).trans (h.sameCell ref hr)⟩

/-- Adding a frame. -/
theorem spares_push (h : L.parent ref = none) (parent n : FrameRef) :
    L.Spares (L.push ref parent) n :=
  ⟨le_push h parent, fun _ _ => rfl, fun _ _ => rfl⟩

/-- Binding a name in the youngest frame. -/
theorem spares_bind (ref : FrameRef) (name : Bytes) : L.Spares (L.bind ref name) ref := by
  refine ⟨L.le_bind ref name, fun r hr => ?_, fun _ _ => rfl⟩
  have hne : r ≠ ref := Nat.ne_of_lt hr
  funext x
  simp [bind, hne]

/-- A cell for a name of the youngest frame. -/
theorem spares_assignCell {c : CellRef} (h : L.cell ref name = none) :
    L.Spares (L.assignCell ref name c) ref := by
  refine ⟨le_assignCell h c, fun _ _ => rfl, fun r hr => ?_⟩
  have hne : r ≠ ref := Nat.ne_of_lt hr
  funext x
  simp [assignCell, hne]

end Layout

section

variable {L L' : Layout} {scene : Scene} {ρ ρ₀ : FrameRef}

/-- A frame that waits stays exact. -/
theorem Exact.older (h : Exact L scene ρ₀) (hk : L.Keeps L' ρ) (hlt : ρ₀ < ρ) :
    Exact L' scene ρ₀ where
  toSound := h.toSound.mono hk.toLe
  inner := h.inner
  only scope outer hs x hb := by
    refine h.only scope outer hs x (hk.older ρ₀ x (h.inner ?_) hlt hb)
    simp [hs]

/-- A frame that is spared stays exact. -/
theorem Exact.spared {n : FrameRef} (h : Exact L scene ρ) (hs : L.Spares L' n) (hlt : ρ < n) :
    Exact L' scene ρ :=
  ⟨h.toSound.mono hs.toLe, h.inner,
    fun scope outer heq x hb => h.only scope outer heq x (hs.sameBound ρ hlt ▸ hb)⟩

/-- A change that binds nothing leaves all frames exact. -/
theorem Exact.of_bound_eq (h : Exact L scene ρ) (hle : L.Le L') (hb : L'.bound = L.bound) :
    Exact L' scene ρ :=
  ⟨h.toSound.mono hle, h.inner, fun scope outer hs x hx => h.only scope outer hs x (hb ▸ hx)⟩

/-- Going into a block or a function: the new frame binds nothing. -/
theorem Exact.enter (h : Sound L scene ρ) {ref : FrameRef} (hg : ref ≠ Store.global)
    (hp : L.parent ref = none) (hb : ∀ x, ¬L.bound ref x) :
    Exact (L.push ref ρ) scene.enter ref where
  holds := .under (fun x hx => by simp at hx) (by simp [Layout.push])
    (h.holds.mono (Layout.le_push hp ρ))
  defined scope hscope x hx := by
    rcases List.mem_cons.mp hscope with rfl | hscope
    · simp at hx
    · exact h.defined scope hscope x hx
  globals x hx := h.globals x hx
  known := h.known
  inner _ := hg
  only scope outer _ x hx := absurd hx (hb x)

/-- Binding the name that the scene defines next. At top level it is one more global. In a scope,
the frame binds the name and the scope has it as defined, so that it still binds what the scope
declares and nothing else. -/
theorem Exact.define (h : Exact L scene ρ) (name : Bytes) :
    Exact (L.bind ρ name) (scene.define name) ρ := by
  obtain ⟨known, scopes, globals⟩ := scene
  have hle := L.le_bind ρ name
  cases scopes with
  | nil =>
      have hρ : ρ = Store.global := by
        cases h.holds
        rfl
      subst hρ
      refine ⟨⟨.top, fun scope hs => by simp [Scene.define] at hs, fun x hx => ?_,
        fun x hx => hle.bound (h.known x hx)⟩, fun hs => absurd rfl hs, fun scope outer hs => ?_⟩
      · rcases List.mem_cons.mp hx with rfl | hx
        · exact .inl ⟨rfl, rfl⟩
        · exact .inr (h.globals x hx)
      · simp [Scene.define] at hs
  | cons scope outer =>
      have hlookup : ∀ x, ((scope.set name false).set name true).lookup x =
          if x = name then some true else scope.lookup x := by
        intro x
        rw [Table.lookup_set, Table.lookup_set]
        split <;> rfl
      have hdeclares : ∀ x, Scope.declares ((scope.set name false).set name true) x = true ↔
          x = name ∨ scope.declares x = true := by
        intro x
        rw [Scope.declares_set, Scope.declares_set]
        by_cases hx : x = name <;> simp [hx]
      refine ⟨⟨?_, fun scope' hs x hx => ?_, fun x hx => ?_, fun x hx => hle.bound (h.known x hx)⟩,
        fun _ => h.inner (by simp), fun scope' outer' hs x hb => ?_⟩
      · cases h.holds with
        | under defined parent holds =>
            refine .under (fun x hx => ?_) parent (holds.mono hle)
            rw [hlookup] at hx
            split at hx
            next heq => exact .inl ⟨rfl, heq⟩
            next => exact .inr (defined x hx)
      · rcases List.mem_cons.mp hs with rfl | hs
        · rw [hlookup]
          rcases (hdeclares x).mp hx with heq | hx
          · rw [if_pos heq]
          · split
            · rfl
            · exact h.defined scope List.mem_cons_self x hx
        · exact h.defined scope' (List.mem_cons_of_mem _ hs) x hx
      · exact hle.bound (h.globals x hx)
      · obtain ⟨rfl, rfl⟩ := List.cons.inj hs
        rcases hb with ⟨-, rfl⟩ | hb
        · exact (hdeclares x).mpr (.inl rfl)
        · exact (hdeclares x).mpr (.inr (h.only scope outer rfl x hb))

end

-- ==== Waiting work

/-- What waiting work waits for. -/
inductive Awaited where
  | value
  | statement

/-- The waiting work of both machines, where the frame `ρ` is in use and the walk's scene there is
`scene`. -/
inductive Stack (vs : List Visit) (L : Layout) :
    Awaited → FrameRef → Scene → List Pending → List (Pending Scopes) → Prop where
  | unary {ρ scene K K'} (id : Nat) (operator : Token) (below : Stack vs L .value ρ scene K K') :
      Stack vs L .value ρ scene (.unary id operator :: K) (.unary id operator :: K')
  | left {ρ scene K K' scopes σ right} (id : Nat) (operator : Token) (chain : Chain L scopes ρ σ)
      (holds : Holds L scopes ρ) (seen : SeenExpr vs scene scopes right)
      (below : Stack vs L .value ρ scene K K') :
      Stack vs L .value ρ scene (.left id operator right ρ :: K) (.left id operator right σ :: K')
  | right {ρ scene K K' v v'} (id : Nat) (operator : Token) (agrees : Agrees vs L v v')
      (below : Stack vs L .value ρ scene K K') :
      Stack vs L .value ρ scene (.right id operator v :: K) (.right id operator v' :: K')
  | decide {ρ scene K K' scopes σ right} (operator : Token) (chain : Chain L scopes ρ σ)
      (holds : Holds L scopes ρ) (seen : SeenExpr vs scene scopes right)
      (below : Stack vs L .value ρ scene K K') :
      Stack vs L .value ρ scene (.decide operator right ρ :: K) (.decide operator right σ :: K')
  | assign {ρ scene K K' scopes σ id name value} (chain : Chain L scopes ρ σ)
      (holds : Holds L scopes ρ) (seen : SeenExpr vs scene scopes (.assign id name value))
      (below : Stack vs L .value ρ scene K K') :
      Stack vs L .value ρ scene (.assign id name ρ :: K) (.assign id name σ :: K')
  | callee {ρ scene K K' scopes σ arguments} (id : Nat) (paren : Token)
      (chain : Chain L scopes ρ σ) (holds : Holds L scopes ρ)
      (seen : SeenExprs vs scene scopes arguments) (below : Stack vs L .value ρ scene K K') :
      Stack vs L .value ρ scene (.callee id paren arguments ρ :: K)
        (.callee id paren arguments σ :: K')
  | argument {ρ scene K K' scopes σ rest callee callee' before before'} (id : Nat) (paren : Token)
      (chain : Chain L scopes ρ σ) (holds : Holds L scopes ρ)
      (agrees : Agrees vs L callee callee') (passed : List.Forall₂ (Agrees vs L) before before')
      (seen : SeenExprs vs scene scopes rest) (below : Stack vs L .value ρ scene K K') :
      Stack vs L .value ρ scene (.argument id paren callee before rest ρ :: K)
        (.argument id paren callee' before' rest σ :: K')
  | discard {ρ scene K K'} (below : Stack vs L .statement ρ scene K K') :
      Stack vs L .value ρ scene (.discard :: K) (.discard :: K')
  | print {ρ scene K K'} (below : Stack vs L .statement ρ scene K K') :
      Stack vs L .value ρ scene (.print :: K) (.print :: K')
  | bind {ρ scene K K' σ name} (chain : Chain L (Scope.record name.lexeme false scene.scopes) ρ σ)
      (below : Stack vs L .statement ρ (scene.define name.lexeme) K K') :
      Stack vs L .value ρ scene (.bind name ρ :: K) (.bind name σ :: K')
  | choose {ρ scene K K' σ positive negative} (chain : Chain L scene.scopes ρ σ)
      (seenPositive : SeenStmt vs scene positive) (plainPositive : positive.declared? = none)
      (seenNegative : SeenStmt vs scene negative) (plainNegative : negative.declared? = none)
      (below : Stack vs L .statement ρ scene K K') :
      Stack vs L .value ρ scene (.choose positive negative ρ :: K)
        (.choose positive negative σ :: K')
  | loopTest {ρ scene K K' σ condition body} (chain : Chain L scene.scopes ρ σ)
      (seenCondition : SeenExpr vs scene scene.scopes condition) (seenBody : SeenStmt vs scene body)
      (plain : body.declared? = none) (below : Stack vs L .statement ρ scene K K') :
      Stack vs L .value ρ scene (.loopTest condition body ρ :: K)
        (.loopTest condition body σ :: K')
  | result {ρ scene K K'} (below : Stack vs L .statement ρ scene K K') :
      Stack vs L .value ρ scene (.result :: K) (.result :: K')
  | loopBody {ρ scene K K' σ condition body} (chain : Chain L scene.scopes ρ σ)
      (seenCondition : SeenExpr vs scene scene.scopes condition) (seenBody : SeenStmt vs scene body)
      (plain : body.declared? = none) (below : Stack vs L .statement ρ scene K K') :
      Stack vs L .statement ρ scene (.loopBody condition body ρ :: K)
        (.loopBody condition body σ :: K')
  | invoked {ρ scene K K'} (below : Stack vs L .value ρ scene K K') :
      Stack vs L .statement ρ scene (.invoked :: K) (.invoked :: K')
  /-- The statements of a block or of a function, in a frame younger than the one that waits. -/
  | sequence {ρ ρ₀ scene scene₀ K K' σ rest} (chain : Chain L scene.scopes ρ σ)
      (owns : Owns L ρ σ) (seen : SeenBody vs scene rest) (younger : ρ₀ < ρ)
      (exact : Exact L scene₀ ρ₀) (below : Stack vs L .statement ρ₀ scene₀ K K') :
      Stack vs L .statement ρ scene (.sequence rest ρ :: K) (.sequence rest σ :: K')
  /-- The statements of the program. -/
  | program {scene rest} (outermost : scene.scopes = []) (seen : SeenBody vs scene rest) :
      Stack vs L .statement Store.global scene [.sequence rest Store.global] [.sequence rest []]
  | done (ρ : FrameRef) (scene : Scene) : Stack vs L .statement ρ scene [] []

section

variable {vs us : List Visit} {L L' : Layout} {scene : Scene} {scopes : List Scope}
variable {ρ : FrameRef} {σ : Scopes}

/-- A frame that gets no cells owns what it owned. -/
theorem Owns.keeps (h : Owns L ρ σ) (hc : Chain L scopes ρ σ) (hk : L.Keeps L' ρ) :
    Owns L' ρ σ := by
  cases hc with
  | top => trivial
  | under _ _ inner _ _ =>
      intro x
      rw [hk.cells ρ inner (Nat.le_refl ρ)]
      exact h x

/-- Values in a row go on agreeing. -/
theorem Agrees.mono_all {l : List Value} {l' : List (Value Scopes)}
    (h : List.Forall₂ (Agrees vs L) l l') (hs : vs ⊆ us) (hle : L.Le L') :
    List.Forall₂ (Agrees us L') l l' := by
  induction h with
  | nil => exact .nil
  | cons h _ ih => exact .cons (h.mono hs hle) ih

/-- A change in the youngest frame does not disturb the work that waits, by induction over it. All
that is said of the frames of waiting work is kept when a layout grows, except that they bind no
more than the walk had; and these are older frames. -/
theorem Stack.keeps {awaited : Awaited} {K : List Pending} {K' : List (Pending Scopes)}
    (h : Stack vs L awaited ρ scene K K') (hk : L.Keeps L' ρ) :
    Stack vs L' awaited ρ scene K K' := by
  induction h with
  | unary id operator _ ih => exact .unary id operator (ih hk)
  | left id operator chain holds seen _ ih =>
      exact .left id operator (chain.mono hk.toLe) (holds.mono hk.toLe) seen (ih hk)
  | right id operator agrees _ ih =>
      exact .right id operator (agrees.mono (List.Subset.refl _) hk.toLe) (ih hk)
  | decide operator chain holds seen _ ih =>
      exact .decide operator (chain.mono hk.toLe) (holds.mono hk.toLe) seen (ih hk)
  | assign chain holds seen _ ih =>
      exact .assign (chain.mono hk.toLe) (holds.mono hk.toLe) seen (ih hk)
  | callee id paren chain holds seen _ ih =>
      exact .callee id paren (chain.mono hk.toLe) (holds.mono hk.toLe) seen (ih hk)
  | argument id paren chain holds agrees passed seen _ ih =>
      exact .argument id paren (chain.mono hk.toLe) (holds.mono hk.toLe)
        (agrees.mono (List.Subset.refl _) hk.toLe)
        (Agrees.mono_all passed (List.Subset.refl _) hk.toLe) seen (ih hk)
  | discard _ ih => exact .discard (ih hk)
  | print _ ih => exact .print (ih hk)
  | bind chain _ ih => exact .bind (chain.mono hk.toLe) (ih hk)
  | choose chain seenP plainP seenN plainN _ ih =>
      exact .choose (chain.mono hk.toLe) seenP plainP seenN plainN (ih hk)
  | loopTest chain seenC seenB plain _ ih =>
      exact .loopTest (chain.mono hk.toLe) seenC seenB plain (ih hk)
  | result _ ih => exact .result (ih hk)
  | loopBody chain seenC seenB plain _ ih =>
      exact .loopBody (chain.mono hk.toLe) seenC seenB plain (ih hk)
  | invoked _ ih => exact .invoked (ih hk)
  | sequence chain owns seen younger exact _ ih =>
      exact .sequence (chain.mono hk.toLe) (owns.keeps chain hk) seen younger
        (exact.older hk younger) (ih (hk.down younger))
  | program outermost seen => exact .program outermost seen
  | done ρ scene => exact .done ρ scene

end

-- ==== Machines

/-- What both machines do next, with the work that waits for it. An expression is evaluated in the
scopes that the walk had at it, and a statement in those after it, since the lexical machine has
declared its name. -/
inductive Doing (vs : List Visit) (L : Layout) :
    Control → Control Scopes → List Pending → List (Pending Scopes) → Prop where
  | eval {ρ scene scopes σ e K K'} (exact : Exact L scene ρ) (chain : Chain L scopes ρ σ)
      (holds : Holds L scopes ρ) (seen : SeenExpr vs scene scopes e)
      (stack : Stack vs L .value ρ scene K K') : Doing vs L (.eval e ρ) (.eval e σ) K K'
  | exec {ρ scene σ s K K'} (exact : Exact L scene ρ)
      (chain : Chain L (s.scopesAfter scene.scopes) ρ σ) (seen : SeenStmt vs scene s)
      (stack : Stack vs L .statement ρ (scene.after s) K K') :
      Doing vs L (.exec s ρ) (.exec s σ) K K'
  | yield {ρ scene awaited v v' K K'} (exact : Exact L scene ρ) (agrees : Agrees vs L v v')
      (stack : Stack vs L awaited ρ scene K K') : Doing vs L (.yield v) (.yield v') K K'
  | leave {ρ scene v v' K K'} (exact : Exact L scene ρ) (agrees : Agrees vs L v v')
      (stack : Stack vs L .statement ρ scene K K') : Doing vs L (.leave v) (.leave v') K K'
  | fail {ρ scene awaited K K'} (f : Fault) (stack : Stack vs L awaited ρ scene K K') :
      Doing vs L (.fail f) (.fail f) K K'

/-- The two machines are at the same point of the same program: their memories mirror each other in
the layout `L`, and they do the same next and after that. All that can be seen of them is equal. -/
structure Tied (vs : List Visit) (L : Layout) (m : Machine) (l : Lexical.Machine) : Prop where
  heap : Heap vs L m.store l.memory
  doing : Doing vs L m.control l.control m.stack l.stack
  sink : m.sink = l.sink
  depth : m.depth = l.depth
  calls : m.calls = l.calls

end Lox
