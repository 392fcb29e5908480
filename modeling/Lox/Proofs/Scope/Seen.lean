/-
Parts of a program that the walk has been over.

# Why parts

What runs a program meets its parts one after the other, long after the walk has gone over them, and
in any order: a function's body runs when it is called, and maybe again and again. To know what the
walk found at a node that is being evaluated, it has to be remembered of each part that is still to
be run how the walk came to it.

# Scenes

A scene is what the walk knew as it came to a statement: which globals existed before the program,
the open scopes, and the top-level names. How it changes from one statement to the next is read off
the statement (`Scene.after`), and the walk changes accordingly in a tree that was read
(`Walk.At.stmt`).

# Seen parts

`SeenStmt`, `SeenBody` and `SeenExpr` say that the walk came to a part in a scene and that the
visits it made there are among the given ones; from a part they pass on to its own parts, one lemma
for each kind of node. An expression has in addition the scopes that are open at it, which differ
from those of the scene in an initializer. At the end stands the visit of the node itself
(`SeenExpr.visit`), with the scopes of the walk there.
-/
import Lox.Proofs.Scope.Visit

namespace Lox

/-- What the walk knows as it comes to a statement: the globals that existed before the program, the
open scopes, and the top-level names defined so far. -/
structure Scene where
  known : Bytes → Bool
  scopes : List Scope
  globals : List Bytes

namespace Scene

/-- The scene after a name has been declared and defined. -/
def define (scene : Scene) (name : Bytes) : Scene :=
  { scene with
    scopes := Scope.record name true (Scope.record name false scene.scopes)
    globals := if scene.scopes = [] then name :: scene.globals else scene.globals }

/-- The scene after a statement. -/
def after (scene : Scene) (s : Stmt) : Scene :=
  match s.declared? with
  | some name => scene.define name.lexeme
  | none => scene

/-- In a block the walk is in the scene at its start. -/
def enter (scene : Scene) : Scene := { scene with scopes := [] :: scene.scopes }

/-- The scene at the start of a function's body. -/
def enterFunction (scene : Scene) (params : List Token) : Scene :=
  { scene with scopes := Walk.paramScope params [] :: scene.scopes }

/-- The scene as it is for an expression that sees these scopes. -/
def seeing (scene : Scene) (scopes : List Scope) : Scene := { scene with scopes := scopes }

/-- A statement that declares nothing leaves the scene as it is. -/
theorem after_eq_self {scene : Scene} {s : Stmt} (h : s.declared? = none) :
    scene.after s = scene := by
  unfold after
  rw [h]

/-- The scopes of the scene are those after the statement. -/
theorem after_scopes (scene : Scene) (s : Stmt) :
    (scene.after s).scopes = s.scopesAfter scene.scopes := by
  unfold after Stmt.scopesAfter
  cases s.declared? <;> rfl

/-- The top-level names of the scene are those after the statement. -/
theorem after_globals (scene : Scene) (s : Stmt) :
    (scene.after s).globals = s.globalsAfter scene.scopes scene.globals := by
  unfold after Stmt.globalsAfter
  cases s.declared? with
  | none => rfl
  | some name => cases hs : scene.scopes <;> simp [define, hs]

@[simp] theorem after_known (scene : Scene) (s : Stmt) : (scene.after s).known = scene.known := by
  unfold after
  cases s.declared? <;> rfl

end Scene

-- ==== The walk in a scene

/-- The walk is in the scene. -/
structure Walk.At (w : Walk) (scene : Scene) : Prop where
  scopes : w.scopes = scene.scopes
  globals : w.globals = scene.globals

namespace Walk.At

variable {w : Walk} {scene : Scene} {known : Bytes → Bool} {init : Option Bytes}

/-- An expression leaves the walk in the scene. -/
theorem expr (h : w.At scene) (e : Expr) : (Walk.expr known init e w).At scene :=
  ⟨(expr_scopes e w).trans h.scopes, (expr_globals e w).trans h.globals⟩

/-- After a statement of a tree that was read, the walk is in the scene after it. -/
theorem stmt (h : w.At scene) {s : Stmt} (hs : s.Formed) (inFunction : Bool) :
    (Walk.stmt known inFunction s w).At (scene.after s) := by
  refine ⟨(stmt_after s hs inFunction w).1.trans ?_, (stmt_after s hs inFunction w).2.trans ?_⟩
  · rw [h.scopes, Scene.after_scopes]
  · rw [h.scopes, h.globals, Scene.after_globals]

/-- In a block the walk is in the scene at its start. -/
theorem enter (h : w.At scene) : w.enter.At scene.enter :=
  ⟨congrArg ([] :: ·) h.scopes, h.globals⟩

/-- At the start of a function's body the function itself has been defined. -/
theorem enterFunction (h : w.At scene) {id : Nat} {name : Token} {params : List Token}
    {body : List Stmt} :
    (((w.declare name).define name).enterFunction params).At
      ((scene.after (.function id name params body)).enterFunction params) := by
  refine ⟨?_, ?_⟩
  · rw [enterFunction_scopes, define_scopes, declare_scopes, h.scopes]
    rfl
  · rw [enterFunction_globals, define_globals, declare_scopes, declare_globals, h.scopes, h.globals]
    simp only [Scope.record_eq_nil]
    rfl

end Walk.At

-- ==== Seen parts

/-- The walk came to the expression in the scene, with these scopes open. -/
def SeenExpr (vs : List Visit) (scene : Scene) (scopes : List Scope) (e : Expr) : Prop :=
  ∃ init before w, before.scopes = scene.scopes ∧ Walk.At w (scene.seeing scopes) ∧
    Walk.exprVisits scene.known init before e w ⊆ vs

/-- The walk came to the expressions in the scene, with these scopes open. -/
def SeenExprs (vs : List Visit) (scene : Scene) (scopes : List Scope) (es : List Expr) : Prop :=
  ∃ init before w, before.scopes = scene.scopes ∧ Walk.At w (scene.seeing scopes) ∧
    Walk.exprsVisits scene.known init before es w ⊆ vs

/-- The walk came to the statement in the scene. -/
def SeenStmt (vs : List Visit) (scene : Scene) (s : Stmt) : Prop :=
  s.Formed ∧ ∃ inFunction w, Walk.At w scene ∧ Walk.stmtVisits scene.known inFunction s w ⊆ vs

/-- The walk came to the statements, to the first of them in the scene. -/
def SeenBody (vs : List Visit) (scene : Scene) (ss : List Stmt) : Prop :=
  Stmt.FormedAll ss ∧
    ∃ inFunction w, Walk.At w scene ∧ Walk.stmtsVisits scene.known inFunction ss w ⊆ vs

/-- The whole of a program. -/
theorem seenBody_program {known : Bytes → Bool} {program : Program}
    (hf : Stmt.FormedAll program) :
    SeenBody (Walk.visits known program) ⟨known, [], []⟩ program :=
  ⟨hf, false, Walk.start, ⟨rfl, rfl⟩, List.Subset.refl _⟩

variable {vs us : List Visit} {scene : Scene} {scopes : List Scope} {id : Nat}

/-- There may be further visits. -/
theorem SeenBody.mono {ss : List Stmt} (h : SeenBody vs scene ss) (hs : vs ⊆ us) :
    SeenBody us scene ss := by
  obtain ⟨hf, inFunction, w, hw, hv⟩ := h
  exact ⟨hf, inFunction, w, hw, List.Subset.trans hv hs⟩

-- ==== Parts of expressions

namespace SeenExpr

/-- The visit of an expression's own node. -/
theorem visit {e : Expr} (h : SeenExpr vs scene scopes e) (he : e ≠ .absent) :
    ∃ v ∈ vs, v.node = e ∧ v.known = scene.known ∧ v.before.scopes = scene.scopes ∧
      v.walk.At (scene.seeing scopes) := by
  obtain ⟨init, before, w, hb, hw, hv⟩ := h
  refine ⟨⟨e, scene.known, init, before, w⟩, hv ?_, rfl, rfl, hb, hw⟩
  cases e <;> first | exact absurd rfl he | exact List.mem_cons_self

theorem grouping {inner : Expr} (h : SeenExpr vs scene scopes (.grouping id inner)) :
    SeenExpr vs scene scopes inner := by
  obtain ⟨init, before, w, hb, hw, hv⟩ := h
  exact ⟨init, before, w, hb, hw, (List.cons_subset.mp hv).2⟩

theorem unary {operator : Token} {operand : Expr}
    (h : SeenExpr vs scene scopes (.unary id operator operand)) :
    SeenExpr vs scene scopes operand := by
  obtain ⟨init, before, w, hb, hw, hv⟩ := h
  exact ⟨init, before, w, hb, hw, (List.cons_subset.mp hv).2⟩

/-- Both operands were seen, the right one after the left one. -/
theorem binary {left right : Expr} {operator : Token}
    (h : SeenExpr vs scene scopes (.binary id left operator right)) :
    SeenExpr vs scene scopes left ∧ SeenExpr vs scene scopes right := by
  obtain ⟨init, before, w, hb, hw, hv⟩ := h
  obtain ⟨hl, hr⟩ := List.append_subset.mp (List.cons_subset.mp hv).2
  exact ⟨⟨init, before, w, hb, hw, hl⟩, init, before, _, hb, hw.expr left, hr⟩

/-- Both operands were seen, whether or not both are evaluated. -/
theorem logical {left right : Expr} {operator : Token}
    (h : SeenExpr vs scene scopes (.logical id left operator right)) :
    SeenExpr vs scene scopes left ∧ SeenExpr vs scene scopes right := by
  obtain ⟨init, before, w, hb, hw, hv⟩ := h
  obtain ⟨hl, hr⟩ := List.append_subset.mp (List.cons_subset.mp hv).2
  exact ⟨⟨init, before, w, hb, hw, hl⟩, init, before, _, hb, hw.expr left, hr⟩

/-- The value was seen. -/
theorem assign {name : Token} {value : Expr}
    (h : SeenExpr vs scene scopes (.assign id name value)) : SeenExpr vs scene scopes value := by
  obtain ⟨init, before, w, hb, hw, hv⟩ := h
  exact ⟨init, before, w, hb, hw, (List.cons_subset.mp hv).2⟩

/-- The callee and the arguments were seen. -/
theorem call {callee : Expr} {paren : Token} {arguments : List Expr}
    (h : SeenExpr vs scene scopes (.call id callee paren arguments)) :
    SeenExpr vs scene scopes callee ∧ SeenExprs vs scene scopes arguments := by
  obtain ⟨init, before, w, hb, hw, hv⟩ := h
  obtain ⟨hc, ha⟩ := List.append_subset.mp (List.cons_subset.mp hv).2
  exact ⟨⟨init, before, w, hb, hw, hc⟩, init, before, _, hb, hw.expr callee, ha⟩

end SeenExpr

/-- The first of some expressions, and the others. -/
theorem SeenExprs.cons {e : Expr} {es : List Expr} (h : SeenExprs vs scene scopes (e :: es)) :
    SeenExpr vs scene scopes e ∧ SeenExprs vs scene scopes es := by
  obtain ⟨init, before, w, hb, hw, hv⟩ := h
  obtain ⟨he, hes⟩ := List.append_subset.mp hv
  exact ⟨⟨init, before, w, hb, hw, he⟩, init, before, _, hb, hw.expr e, hes⟩

-- ==== Parts of statements

namespace SeenStmt

/-- The value was seen in the scene of the statement. -/
theorem expression {value : Expr} (h : SeenStmt vs scene (.expression id value)) :
    SeenExpr vs scene scene.scopes value := by
  obtain ⟨-, inFunction, w, hw, hv⟩ := h
  exact ⟨none, w, w, hw.scopes, hw, hv⟩

/-- The value was seen in the scene of the statement. -/
theorem print {value : Expr} (h : SeenStmt vs scene (.print id value)) :
    SeenExpr vs scene scene.scopes value := by
  obtain ⟨-, inFunction, w, hw, hv⟩ := h
  exact ⟨none, w, w, hw.scopes, hw, hv⟩

/-- In its initializer a variable is declared but not defined. -/
theorem var {name : Token} {initializer : Expr} (h : SeenStmt vs scene (.var id name initializer)) :
    SeenExpr vs scene (Scope.record name.lexeme false scene.scopes) initializer := by
  obtain ⟨-, inFunction, w, hw, hv⟩ := h
  refine ⟨_, w, w.declare name, hw.scopes, ⟨?_, ?_⟩, hv⟩
  · rw [Walk.declare_scopes, hw.scopes]
    rfl
  · rw [Walk.declare_globals, hw.globals]
    rfl

/-- The statements were seen in a scene with a new scope. -/
theorem block {body : List Stmt} (h : SeenStmt vs scene (.block id body)) :
    SeenBody vs scene.enter body := by
  obtain ⟨hf, inFunction, w, hw, hv⟩ := h
  exact ⟨hf, inFunction, w.enter, hw.enter, hv⟩

/-- The condition and both branches were seen in the scene of the statement, and neither branch
declares a name there. -/
theorem branch {condition : Expr} {positive negative : Stmt}
    (h : SeenStmt vs scene (.branch id condition positive negative)) :
    SeenExpr vs scene scene.scopes condition ∧
      (SeenStmt vs scene positive ∧ positive.declared? = none) ∧
      (SeenStmt vs scene negative ∧ negative.declared? = none) := by
  obtain ⟨⟨hp, hn, hdp, hdn⟩, inFunction, w, hw, hv⟩ := h
  obtain ⟨hc, hv⟩ := List.append_subset.mp hv
  obtain ⟨hvp, hvn⟩ := List.append_subset.mp hv
  have hafter : (Walk.stmt scene.known inFunction positive
      (Walk.expr scene.known none condition w)).At (scene.after positive) :=
    (hw.expr condition).stmt hp inFunction
  rw [Scene.after_eq_self hdp] at hafter
  exact ⟨⟨none, w, w, hw.scopes, hw, hc⟩, ⟨⟨hp, inFunction, _, hw.expr condition, hvp⟩, hdp⟩,
    ⟨⟨hn, inFunction, _, hafter, hvn⟩, hdn⟩⟩

/-- The condition and the body were seen in the scene of the statement. -/
theorem loop {condition : Expr} {body : Stmt} (h : SeenStmt vs scene (.loop id condition body)) :
    SeenExpr vs scene scene.scopes condition ∧ SeenStmt vs scene body ∧ body.declared? = none := by
  obtain ⟨⟨hb, hd⟩, inFunction, w, hw, hv⟩ := h
  obtain ⟨hc, hv⟩ := List.append_subset.mp hv
  exact ⟨⟨none, w, w, hw.scopes, hw, hc⟩, ⟨hb, inFunction, _, hw.expr condition, hv⟩, hd⟩

/-- The body was seen with the function defined and its parameters in a scope. -/
theorem function {name : Token} {params : List Token} {body : List Stmt}
    (h : SeenStmt vs scene (.function id name params body)) :
    SeenBody vs ((scene.after (.function id name params body)).enterFunction params) body := by
  obtain ⟨hf, inFunction, w, hw, hv⟩ := h
  exact ⟨hf, true, _, hw.enterFunction, hv⟩

/-- The value was seen in the scene of the statement. -/
theorem result {keyword : Token} {value : Expr} (h : SeenStmt vs scene (.result id keyword value)) :
    SeenExpr vs scene scene.scopes value := by
  obtain ⟨-, inFunction, w, hw, hv⟩ := h
  refine ⟨none, w, _, hw.scopes, ⟨?_, ?_⟩, hv⟩
  · cases inFunction <;> exact hw.scopes
  · cases inFunction <;> exact hw.globals

end SeenStmt

/-- The first of some statements, and the others in the scene after it. -/
theorem SeenBody.cons {s : Stmt} {ss : List Stmt} (h : SeenBody vs scene (s :: ss)) :
    SeenStmt vs scene s ∧ SeenBody vs (scene.after s) ss := by
  obtain ⟨⟨hs, hss⟩, inFunction, w, hw, hv⟩ := h
  obtain ⟨h₁, h₂⟩ := List.append_subset.mp hv
  refine ⟨⟨hs, inFunction, w, hw, h₁⟩, hss, inFunction, Walk.stmt scene.known inFunction s w,
    hw.stmt hs inFunction, ?_⟩
  rw [Scene.after_known]
  exact h₂

end Lox
