/-
The walk over two programs, one after the other.

# Side by side

The walk over the second program alone and the walk that has come over the first one before it find
the same distances, and the second one finds no misuse that the first does not. `Walk.Beside` says
this of two walks that are under way: `u` has started with the second program, and `w` has come over
it after all that `base` has come over. They have the same scopes, and `w` has in addition the
top-level names and the distances of `base`.

# What is known of the globals

The two differ in what they know of the globals: one is told which ones exist, the other has seen
the first program declare them. That matters at one place, the read of a global variable in its own
initializer, which is a misuse only if the variable is new. So it is enough that a global which the
first walk is told of was known to the second one, or declared (`Accounts`): what is new to `w` is
then new to `u` (`Beside.selfRead?`). The converse does not hold, and this is why only programs
without misuses are compared.

# The two programs

Each step of the walk keeps two walks side by side, and by induction over the tree so does each
expression and each statement (`Beside.expr`, `Beside.stmts`). The tokens of the second program
stand on other lines in the script that has both, which makes no difference to scopes
(`Stmt.moved`). At the end the two programs resolved as one have the distances that they have one
after the other (`resolve_join`).
-/
import Lox.Proofs.Scope.Located
import Lox.Proofs.Tree.Moved

namespace Lox

namespace Walk

variable {base u w : Walk} {known later : Bytes → Bool} {init : Option Bytes} {d : Int}
  {f : Nat → Int}

-- ==== Side by side

/-- The walk `w` has come over all that `base` has, and from there as far as `u`. Misuses are only
compared where there are none, since `u` may find more of them. -/
structure Beside (base u w : Walk) : Prop where
  scopes : w.scopes = u.scopes
  globals : w.globals = u.globals ++ base.globals
  entries : w.entries = u.entries ++ base.entries
  faults : u.faults = [] → w.faults = []

/-- Every global that `later` tells of was known before, or `base` has seen it declared. -/
def Accounts (base : Walk) (known later : Bytes → Bool) : Prop :=
  ∀ x, later x = true → known x = true ∨ x ∈ base.globals

namespace Beside

/-- A misuse that the first walk finds asks nothing of the second. -/
theorem note (h : Beside base u w) (t t' : Token) (p : ResolveProblem) :
    Beside base (u.note t p) (w.note t' p) :=
  ⟨h.scopes, h.globals, h.entries, fun hnone => absurd hnone (by simp [Walk.note])⟩

/-- Both walks open a scope. -/
theorem enter (h : Beside base u w) : Beside base u.enter w.enter :=
  ⟨congrArg ([] :: ·) h.scopes, h.globals, h.entries, h.faults⟩

/-- Both walks close a scope. -/
theorem leave (h : Beside base u w) : Beside base u.leave w.leave :=
  ⟨congrArg List.tail h.scopes, h.globals, h.entries, h.faults⟩

/-- Both walks declare a name. -/
theorem declare (h : Beside base u w) (name : Token) :
    Beside base (u.declare name) (w.declare (name.moved d)) := by
  unfold Walk.declare
  rw [h.scopes]
  cases u.scopes with
  | nil => exact h
  | cons scope outer => exact ⟨rfl, h.globals, h.entries, h.faults⟩

/-- Both walks define a name. At top level it stands in front of the names of `base`. -/
theorem define (h : Beside base u w) (name : Token) :
    Beside base (u.define name) (w.define (name.moved d)) := by
  unfold Walk.define
  rw [h.scopes]
  cases hs : u.scopes with
  | nil => exact ⟨rfl, congrArg (name.lexeme :: ·) h.globals, h.entries, h.faults⟩
  | cons scope outer => exact ⟨rfl, h.globals, h.entries, h.faults⟩

/-- Both walks find the same distance, since they have the same scopes. -/
theorem locate (h : Beside base u w) (id : Nat) (name : Token) :
    Beside base (u.locate id name) (w.locate id (name.moved d)) := by
  unfold Walk.locate
  rw [h.scopes, Token.moved_lexeme]
  cases Scope.distance? name.lexeme u.scopes with
  | none => exact h
  | some hops => exact ⟨rfl, h.globals, congrArg ((id, hops) :: ·) h.entries, h.faults⟩

/-- Both walks come to the body of a function. -/
theorem enterFunction (h : Beside base u w) (params : List Token) :
    Beside base (u.enterFunction params) (w.enterFunction (params.map (Token.moved d))) := by
  have key : ∀ (ps : List Token) {u w : Walk}, Beside base u w →
      Beside base (ps.foldl (fun u param => (u.declare param).define param) u)
        ((ps.map (Token.moved d)).foldl (fun w param => (w.declare param).define param) w) := by
    intro ps
    induction ps with
    | nil => exact id
    | cons p ps ih => exact fun h => ih ((h.declare p).define p)
  exact key params h.enter

/-- A variable that the walk finds in its own initializer is found there by the other walk. In a
scope both look at the same scope. At top level the variable has to be new, and what is new after
both programs is new after the first one. -/
theorem selfRead? (h : Beside base u w) (hknown : base.Accounts known later) {name : Bytes}
    (hnone : u.selfRead? later init name = none) : w.selfRead? known init name = none := by
  unfold Walk.selfRead? at hnone ⊢
  rw [h.scopes]
  cases hs : u.scopes with
  | cons scope outer => simpa only [hs] using hnone
  | nil =>
      simp only [hs] at hnone ⊢
      rw [if_neg]
      rintro ⟨hinit, hne, hmem, hnot⟩
      rw [h.globals, List.mem_append, not_or] at hmem
      have hlater : later name = false := by
        rw [Bool.eq_false_iff]
        intro hl
        rcases hknown name hl with hk | hk
        · rw [hk] at hnot
          cases hnot
        · exact hmem.2 hk
      rw [if_pos ⟨hinit, hne, hmem.1, hlater⟩] at hnone
      cases hnone

/-- Both walks come to a read. If it is a misuse for the second one, it is for the first. -/
theorem checkRead (h : Beside base u w) (hknown : base.Accounts known later) (name : Token) :
    Beside base (u.checkRead later init name) (w.checkRead known init (name.moved d)) := by
  unfold Walk.checkRead
  rw [Token.moved_lexeme]
  cases hu : u.selfRead? later init name.lexeme with
  | none =>
      rw [h.selfRead? hknown hu]
      exact h
  | some problem =>
      have hfault : (u.note name problem).faults ≠ [] := by simp [Walk.note]
      cases w.selfRead? known init name.lexeme with
      | none => exact ⟨h.scopes, h.globals, h.entries, fun hnone => absurd hnone hfault⟩
      | some _ => exact ⟨h.scopes, h.globals, h.entries, fun hnone => absurd hnone hfault⟩

-- ==== Over a tree

mutual

/-- An expression keeps two walks side by side. -/
theorem expr (hknown : base.Accounts known later) (e : Expr) {u w : Walk} (h : Beside base u w) :
    Beside base (Walk.expr later init e u) (Walk.expr known init (e.moved f) w) := by
  cases e with
  | absent => exact h
  | literal id value => exact h
  | grouping id inner => exact expr hknown inner h
  | unary id operator operand => exact expr hknown operand h
  | binary id left operator right => exact expr hknown right (expr hknown left h)
  | logical id left operator right => exact expr hknown right (expr hknown left h)
  | assign id name value => exact (expr hknown value h).locate id name
  | ident id name => exact (h.checkRead hknown name).locate id name
  | call id callee paren arguments => exact exprs hknown arguments (expr hknown callee h)

/-- The same for expressions in a row. -/
theorem exprs (hknown : base.Accounts known later) (es : List Expr) {u w : Walk}
    (h : Beside base u w) :
    Beside base (Walk.exprs later init es u) (Walk.exprs known init (Expr.movedAll f es) w) := by
  cases es with
  | nil => exact h
  | cons e rest => exact exprs hknown rest (expr hknown e h)

end

mutual

/-- A statement keeps two walks side by side, with one case for each kind of statement. Its tokens
may have moved, and a misuse is then noted at the moved token. -/
theorem stmt (hknown : base.Accounts known later) (s : Stmt) {inFunction : Bool} {u w : Walk}
    (h : Beside base u w) :
    Beside base (Walk.stmt later inFunction s u) (Walk.stmt known inFunction (s.moved f) w) := by
  cases s with
  | absent => exact h
  | expression id value => exact expr hknown value h
  | print id value => exact expr hknown value h
  | var id name initializer =>
      simp only [Walk.stmt, Stmt.moved, h.scopes]
      exact (expr hknown initializer (h.declare name)).define name
  | block id body => exact (stmts hknown body h.enter).leave
  | branch id condition positive negative =>
      exact stmt hknown negative (stmt hknown positive (expr hknown condition h))
  | loop id condition body => exact stmt hknown body (expr hknown condition h)
  | function id name params body =>
      exact (stmts hknown body (((h.declare name).define name).enterFunction params)).leave
  | result id keyword value =>
      refine expr hknown value ?_
      cases inFunction with
      | true => exact h
      | false => exact h.note keyword (keyword.moved (f id)) .topLevelReturn

/-- The same for statements in a row. -/
theorem stmts (hknown : base.Accounts known later) (ss : List Stmt) {inFunction : Bool} {u w : Walk}
    (h : Beside base u w) :
    Beside base (Walk.stmts later inFunction ss u)
      (Walk.stmts known inFunction (Stmt.movedAll f ss) w) := by
  cases ss with
  | nil => exact h
  | cons s rest => exact stmts hknown rest (stmt hknown s h)

end

end Beside

-- ==== Two programs

/-- The walk over statements goes on where it has come to. -/
theorem stmts_append (known : Bytes → Bool) (inFunction : Bool) (ss ts : List Stmt) (w : Walk) :
    stmts known inFunction (ss ++ ts) w = stmts known inFunction ts (stmts known inFunction ss w) := by
  induction ss generalizing w with
  | nil => rfl
  | cons s ss ih => exact ih (stmt known inFunction s w)

/-- At top level no scope stays open. -/
theorem stmts_outermost {ss : List Stmt} (hf : Stmt.FormedAll ss) {w : Walk} (hw : w.scopes = []) :
    (stmts known false ss w).scopes = [] := by
  induction ss generalizing w with
  | nil => exact hw
  | cons s ss ih =>
      refine ih hf.2 ?_
      rw [(stmt_after s hf.1 false w).1, Stmt.scopesAfter_eq_nil]
      exact hw

/-- The walk over the second program alone, and over it after the first. -/
theorem beside_start {pa : Program} (hf : Stmt.FormedAll pa)
    (hclean : (stmts known false pa start).faults = []) :
    Beside (stmts known false pa start) start (stmts known false pa start) :=
  ⟨stmts_outermost hf rfl, rfl, rfl, fun _ => hclean⟩

end Walk

variable {known later : Bytes → Bool} {f : Nat → Int} {pa pb : Program}

/-- Two programs, resolved as one, have the distances that they have one after the other. -/
theorem resolve_join (hf : Stmt.FormedAll pa)
    (hknown : (Walk.stmts known false pa Walk.start).Accounts known later)
    (ha : (resolve known pa).diagnostics = []) (hb : (resolve later pb).diagnostics = []) :
    (resolve known (pa ++ Stmt.movedAll f pb)).diagnostics = [] ∧
      ∀ (old : Resolution) (id : Nat),
        (old.merge (resolve known (pa ++ Stmt.movedAll f pb)).resolution)[id]? =
          ((old.merge (resolve known pa).resolution).merge (resolve later pb).resolution)[id]? := by
  have hstart := Walk.beside_start hf (List.map_eq_nil_iff.mp ha)
  have hend : Walk.Beside (Walk.stmts known false pa Walk.start)
      (Walk.stmts later false pb Walk.start)
      (Walk.stmts known false (pa ++ Stmt.movedAll f pb) Walk.start) := by
    rw [Walk.stmts_append]
    exact Walk.Beside.stmts hknown pb hstart
  refine ⟨List.map_eq_nil_iff.mpr (hend.faults (List.map_eq_nil_iff.mp hb)), fun old id => ?_⟩
  simp only [resolve, Resolution.getElem?_merge, Resolution.getElem?_ofEntries, hend.entries,
    List.lookup_append]
  cases (Walk.stmts later false pb Walk.start).entries.lookup id <;> rfl

end Lox
