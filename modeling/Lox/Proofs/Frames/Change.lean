/-
What the two machines do to a frame in use.

# Declaring and binding

A name is declared in the lexical machine alone, where it gets a cell or keeps the one it has in
this scope (`Heap.declare`), and bound by both (`Heap.define`). Declaring does not change the frame,
so what the layout says of frames stays as it is but for the new cell. Going into a block or a call
adds a frame on the one side and an empty scope on the other (`Heap.enter`), and the new frame is
exact for the scene there, since it binds nothing.

# Parameters

Parameters are declared and bound one after the other, which leaves the new frame exact for the
scene of the function's body (`bindParams_exact`, by induction over the parameters). A parameter
that occurs twice is declared once and bound twice, on both sides.

# Using a name

A use of a name finds the same thing on both sides (`Heap.use`): the frame that the distance leads
to has the cell that the scopes give, and where there is no distance both look among the globals.
What the machine runs with has to know the distances that the visits of the walk tell (`Serves`).
-/
import Lox.Proofs.Frames.Tied
import Lox.Proofs.Scope.Located

namespace Lox

open Lexical (CellRef Scopes Cells)

variable {vs : List Visit} {L : Layout} {scene : Scene} {scopes : List Scope}
variable {ρ : FrameRef} {σ : Scopes} {store : Store} {mem : Cells}

-- ==== Declaring and binding

/-- Declaring a name in the innermost scope of a frame in use. Frames change at no declaration, only
cells do: at top level nothing happens, a name that has its cell keeps it, and any other one is
given a new cell, which is unbound. -/
theorem Heap.declare (h : Heap vs L store mem) (hc : Chain L scopes ρ σ) (ho : Owns L ρ σ)
    (name : Bytes) :
    ∃ L', L.Spares L' ρ ∧ L'.bound = L.bound ∧ Heap vs L' store (mem.declare σ name).2 ∧
      Chain L' (Scope.record name false scopes) ρ (mem.declare σ name).1 ∧
      Owns L' ρ (mem.declare σ name).1 := by
  cases hc with
  | top => exact ⟨L, .refl L _, rfl, h, .top, ho⟩
  | @under scope outer ρ ρ' names rest declared cells inner parent chain =>
      cases hl : names.lookup name with
      | some c =>
          have hdeclare : mem.declare (names :: rest) name = (names :: rest, mem) := by
            simp only [Cells.declare, hl]
          rw [hdeclare]
          refine ⟨L, .refl L _, rfl, h, .under (fun x => ?_) cells inner parent chain, ho⟩
          rw [Scope.declares_set, declared x]
          by_cases hx : x = name <;> simp [hx, hl]
      | none =>
          have hdeclare : mem.declare (names :: rest) name =
              (((name, mem.slots.size) :: names) :: rest,
                { mem with slots := mem.slots.push none }) := by
            simp only [Cells.declare, hl]
          rw [hdeclare]
          have hn : L.cell ρ name = none := (ho name).trans hl
          have hs := Layout.spares_assignCell (c := mem.slots.size) hn
          have hlt : ρ < store.frames.size := by
            rw [← h.parent ρ] at parent
            exact Store.lt_of_parent? parent
          have howns : ∀ x, (L.assignCell ρ name mem.slots.size).cell ρ x =
              List.lookup x ((name, mem.slots.size) :: names) := by
            intro x
            simp only [Layout.assignCell, true_and, List.lookup_cons]
            by_cases hx : x = name
            · simp [hx]
            · have hne : (x == name) = false := by simpa using hx
              rw [if_neg hx, hne]
              exact ho x
          refine ⟨L.assignCell ρ name mem.slots.size, hs, rfl, h.allot hn inner hlt,
            .under (fun x => ?_) (fun x c hx => (howns x).trans hx) inner parent
              (chain.mono hs.toLe), howns⟩
          rw [Scope.declares_set, declared x, List.lookup_cons]
          by_cases hx : x = name
          · simp [hx]
          · have hne : (x == name) = false := by simpa using hx
            simp [hx, hne]

/-- Binding a name that has been declared in a frame in use. -/
theorem Heap.define {name : Bytes} (h : Heap vs L store mem)
    (hc : Chain L (Scope.record name false scopes) ρ σ) {v : Value} {v' : Value Scopes}
    (hv : Agrees vs (L.bind ρ name) v v') :
    Heap vs (L.bind ρ name) (store.define ρ name v) (mem.define σ name v') := by
  cases scopes with
  | nil =>
      cases hc
      exact h.writeGlobal name hv
  | cons scope outer =>
      cases hc with
      | @under _ _ _ _ names rest declared cells inner parent chain =>
          have hd := declared name
          rw [Scope.declares_set] at hd
          obtain ⟨c, hc⟩ : ∃ c, names.lookup name = some c := by
            simpa [Option.isSome_iff_exists] using hd.symm
          have := h.write (cells name c hc) hv
          simpa only [Cells.define, hc] using this

/-- Binding a name takes no cell. -/
theorem Owns.bind {ref : FrameRef} {name : Bytes} (h : Owns L ρ σ) :
    Owns (L.bind ref name) ρ σ := by
  cases σ <;> exact h

/-- Adding a frame for a block or a call. -/
theorem Heap.enter (h : Heap vs L store mem) (sound : Sound L scene ρ)
    (chain : Chain L scene.scopes ρ σ) :
    ∃ L', L.Spares L' store.nextRef ∧ Heap vs L' (store.add (some ρ)) mem ∧
      Exact L' scene.enter store.nextRef ∧
      Chain L' scene.enter.scopes store.nextRef ([] :: σ) ∧ Owns L' store.nextRef ([] :: σ) := by
  have hnone : L.parent store.nextRef = none := h.parent_eq_none (Nat.le_refl _)
  have hglobal : store.nextRef ≠ Store.global := Nat.ne_of_gt h.nonempty
  have hs := Layout.spares_push hnone ρ store.nextRef
  refine ⟨L.push store.nextRef ρ, hs, h.add ρ,
    Exact.enter sound hglobal hnone (h.not_bound (Nat.le_refl _)), ?_,
    h.cell_eq_none (Nat.le_refl _)⟩
  exact .under (fun x => rfl) (fun x c hx => by simp at hx) hglobal (by simp [Layout.push])
    (chain.mono hs.toLe)

-- ==== Parameters

/-- A function's scene is that of a block in which its parameters have been defined. -/
theorem Scene.enterFunction_eq (scene : Scene) (params : List Token) :
    scene.enterFunction params =
      params.foldl (fun scene param => scene.define param.lexeme) scene.enter := by
  have key : ∀ (ps : List Token) (scope : Scope),
      ps.foldl (fun scene param => scene.define param.lexeme)
        { scene with scopes := scope :: scene.scopes }
        = { scene with scopes := Walk.paramScope ps scope :: scene.scopes } := by
    intro ps
    induction ps with
    | nil => intro scope; rfl
    | cons p ps ih => intro scope; exact ih _
  exact (key params []).symm

/-- Binding parameters in a new frame, by recursion over them: each is declared, bound and defined
in the walk's scope before the next one. A parameter that occurs twice is declared once and bound
twice, on both sides. -/
theorem bindParams_exact : ∀ (params : List Token) {args : List Value}
    {args' : List (Value Scopes)} {L : Layout} {scene : Scene} {σ : Scopes} {store : Store}
    {mem : Cells}, Heap vs L store mem → Exact L scene ρ → Chain L scene.scopes ρ σ →
    Owns L ρ σ → params.length = args.length → List.Forall₂ (Agrees vs L) args args' →
    ∃ L', L.Spares L' ρ ∧ Heap vs L' (Machine.bindParams store ρ params args)
        (mem.bindParams σ (params.zip args')).2 ∧
      Exact L' (params.foldl (fun scene param => scene.define param.lexeme) scene) ρ ∧
      Chain L' (params.foldl (fun scene param => scene.define param.lexeme) scene).scopes ρ
        (mem.bindParams σ (params.zip args')).1 ∧
      Owns L' ρ (mem.bindParams σ (params.zip args')).1
  | [], _, _, L, _, _, _, _, heap, exact, chain, owns, _, _ =>
      ⟨L, .refl L _, heap, exact, chain, owns⟩
  | param :: params, [], _, _, _, _, _, _, _, _, _, _, hlen, _ => by simp at hlen
  | param :: params, arg :: args, [], _, _, _, _, _, _, _, _, _, _, hargs => by cases hargs
  | param :: params, arg :: args, arg' :: args', L, scene, σ, store, mem, heap, exact, chain, owns,
      hlen, hargs => by
      obtain ⟨harg, hargs⟩ := List.forall₂_cons.mp hargs
      obtain ⟨L₁, hs₁, hb₁, heap₁, chain₁, owns₁⟩ := heap.declare chain owns param.lexeme
      have hs₂ := Layout.spares_bind (L := L₁) ρ param.lexeme
      have hle := (hs₁.trans hs₂).toLe
      have heap₂ := heap₁.define chain₁ (harg.mono (List.Subset.refl _) hle)
      have exact₂ := (exact.of_bound_eq hs₁.toLe hb₁).define param.lexeme
      have chain₂ : Chain (L₁.bind ρ param.lexeme) (scene.define param.lexeme).scopes ρ _ :=
        Chain.define.mp (chain₁.mono hs₂.toLe)
      obtain ⟨L₃, hs₃, heap₃, exact₃, chain₃, owns₃⟩ := bindParams_exact params heap₂ exact₂ chain₂
        owns₁.bind (Nat.succ.inj hlen) (Agrees.mono_all hargs (List.Subset.refl _) hle)
      exact ⟨L₃, (hs₁.trans hs₂).trans hs₃, heap₃, exact₃, chain₃, owns₃⟩

-- ==== Using a name

/-- What the machine runs with: the distances that the visits tell, and the clock. -/
structure Serves (host : Host) (reading : Nat → Float) (vs : List Visit) : Prop where
  located : ∃ lo hi, Located lo hi host.resolution vs
  clock : host.functions = #[fun calls _ => .ok (.number (reading calls))]

/-- Where a name is used, the frame that the distance leads to and the scopes give the same value.
If there is one, assigning a name leads to the same on both sides. -/
theorem Heap.use {host : Host} {reading : Nat → Float} (h : Heap vs L store mem)
    (hs : Serves host reading vs) (hc : Chain L scopes ρ σ) {e : Expr} {id : Nat} {name : Token}
    (seen : SeenExpr vs scene scopes e) (hu : e.use? = some (id, name)) :
    ∃ ref, Machine.readName host store id name ρ = store.get ref name.lexeme ∧
      Machine.findName host store id name ρ = store.bound ref name.lexeme ∧
      Option.Rel (Agrees vs L) (store.lookup? ref name.lexeme) (mem.value? σ name.lexeme) ∧
      ∀ v v', Agrees vs L v v' → (store.lookup? ref name.lexeme).isSome = true →
        ∃ mem', mem.assign σ name.lexeme v' = .ok mem' ∧
          Heap vs L (store.define ref name.lexeme v) mem' := by
  obtain ⟨lo, hi, hlocated⟩ := hs.located
  have he : e ≠ .absent := by
    rintro rfl
    simp [Expr.use?] at hu
  obtain ⟨u, hu', hnode, -, -, hwalk⟩ := seen.visit he
  have hentry := hlocated.entry u hu' id name (hnode ▸ hu)
  rw [hwalk.scopes] at hentry
  change _ = (Scope.distance? name.lexeme scopes).map Int.ofNat at hentry
  -- A name that is bound already is bound in the layout, which then stays as it is.
  have hsame : ∀ ref, (store.lookup? ref name.lexeme).isSome = true →
      L.bind ref name.lexeme = L := by
    intro ref hsome
    have hb := (h.bound ref name.lexeme).mp hsome
    obtain ⟨parent, bound, cell⟩ := L
    simp only [Layout.bind, Layout.mk.injEq, true_and, and_true]
    funext r x
    refine propext ⟨?_, .inr⟩
    rintro (⟨rfl, rfl⟩ | hx)
    · exact hb
    · exact hx
  cases hd : Scope.distance? name.lexeme scopes with
  | some hops =>
      obtain ⟨ref, c, hclimb, hfind, hcell⟩ := h.find_some hc hd
      obtain ⟨-, -, -, hrel⟩ := h.cell ref name.lexeme c hcell
      rw [hd] at hentry
      have hres : host.resolution[id]? = some (hops : Int) := hentry
      have hancestor : store.ancestor ρ (hops : Int) = .ok ref := by
        simp [Store.ancestor, hclimb]
      have hvalue : mem.value? σ name.lexeme = mem.cell? c := by
        simp only [Cells.value?, hfind]
      refine ⟨ref, ?_, ?_, by rw [hvalue]; exact hrel, fun v v' hv hsome => ?_⟩
      · simp only [Machine.readName, hres, Store.getAt, hancestor]
      · simp only [Machine.findName, hres, Store.boundAt, hancestor]
      · refine ⟨mem.setCell c v', ?_, ?_⟩
        · have hsome' : (mem.value? σ name.lexeme).isSome = true := by
            rw [hvalue, Value.Alike.isSome_of_rel hrel, hsome]
          simp only [Cells.assign, hsome', if_true, hfind]
        · rw [← hsame ref hsome] at hv ⊢
          exact h.write hcell hv
  | none =>
      have hfind := Heap.find_none hc hd
      have hrel := h.globals name.lexeme
      rw [hd] at hentry
      have hres : host.resolution[id]? = none := hentry
      have hvalue : mem.value? σ name.lexeme = mem.globals.lookup name.lexeme := by
        simp only [Cells.value?, hfind]
      refine ⟨Store.global, ?_, ?_, by rw [hvalue]; exact hrel, fun v v' hv hsome => ?_⟩
      · simp only [Machine.readName, hres]
      · simp only [Machine.findName, hres]
      · refine ⟨mem.setGlobal name.lexeme v', ?_, ?_⟩
        · have hsome' : (mem.value? σ name.lexeme).isSome = true := by
            rw [hvalue, Value.Alike.isSome_of_rel hrel, hsome]
          simp only [Cells.assign, hsome', if_true, hfind]
        · rw [← hsame Store.global hsome] at hv ⊢
          exact h.writeGlobal name.lexeme hv

end Lox
