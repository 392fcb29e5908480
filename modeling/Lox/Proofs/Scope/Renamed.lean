/-
Walks over trees with other identities.

The walk does not look at the identities of nodes, it only records distances by them. So the walk
over a tree that is renamed finds the same misuses, and the same distances at the new identities
(`resolve_renamed`).

Renaming the entries of a walk, `Walk.renamed`, commutes with everything the walk does: with each of
its steps (`declare_renamed` and those after it) and, by induction over the tree, with expressions
and statements (`stmts_renamed`). This holds for any map of identities. Only where the entries are
made into a resolution do identities have to stay distinct: then what is looked up by a new identity
is what is looked up by the old one (`Resolution.Renamed`, `ofEntries_renamed`), there are as many
distances (`size_ofEntries_renamed`), and merging keeps both (`Renamed.merge`).
-/
import Lox.Proofs.Scope.Located
import Lox.Proofs.Tree.Renamed

namespace Lox

variable {g : Nat → Nat} {known : Bytes → Bool} {init : Option Bytes} {inFunction : Bool}

namespace Walk

/-- The walk with its distances at other identities. -/
def renamed (g : Nat → Nat) (w : Walk) : Walk :=
  { w with entries := w.entries.map fun entry => (g entry.1, entry.2) }

/-- Declaring a name does not touch the entries. -/
theorem declare_renamed (w : Walk) (name : Token) :
    (w.renamed g).declare name = (w.declare name).renamed g := by
  obtain ⟨scopes, globals, entries, faults⟩ := w
  cases scopes <;> rfl

/-- Nor does defining it. -/
theorem define_renamed (w : Walk) (name : Token) :
    (w.renamed g).define name = (w.define name).renamed g := by
  obtain ⟨scopes, globals, entries, faults⟩ := w
  cases scopes <;> rfl

/-- A use of a variable gets the same distance, at its new identity. -/
theorem locate_renamed (w : Walk) (id : Nat) (name : Token) :
    (w.renamed g).locate (g id) name = (w.locate id name).renamed g := by
  unfold locate
  rw [show (w.renamed g).scopes = w.scopes from rfl]
  cases Scope.distance? name.lexeme w.scopes <;> rfl

/-- Whether a read is a misuse does not depend on the entries. -/
theorem checkRead_renamed (w : Walk) (name : Token) :
    (w.renamed g).checkRead known init name = (w.checkRead known init name).renamed g := by
  unfold checkRead
  have hself : (w.renamed g).selfRead? known init name.lexeme =
      w.selfRead? known init name.lexeme := rfl
  rw [hself]
  cases w.selfRead? known init name.lexeme <;> rfl

theorem enterFunction_renamed (w : Walk) (params : List Token) :
    (w.renamed g).enterFunction params = (w.enterFunction params).renamed g := by
  rw [enterFunction_eq, enterFunction_eq]
  rfl

mutual

/-- The walk over an expression that is renamed. -/
theorem expr_renamed : ∀ (e : Expr) (w : Walk),
    expr known init (e.renamed g) (w.renamed g) = (expr known init e w).renamed g
  | .absent, _ => rfl
  | .literal _ _, _ => rfl
  | .grouping _ inner, w => expr_renamed inner w
  | .unary _ _ operand, w => expr_renamed operand w
  | .binary _ left _ right, w => by
      simp only [Expr.renamed, expr, expr_renamed left w, expr_renamed right]
  | .logical _ left _ right, w => by
      simp only [Expr.renamed, expr, expr_renamed left w, expr_renamed right]
  | .assign id name value, w => by
      simp only [Expr.renamed, expr, expr_renamed value w, locate_renamed]
  | .ident id name, w => by simp only [Expr.renamed, expr, checkRead_renamed, locate_renamed]
  | .call _ callee _ arguments, w => by
      simp only [Expr.renamed, expr, expr_renamed callee w, exprs_renamed arguments]

/-- The same for expressions in a row. -/
theorem exprs_renamed : ∀ (es : List Expr) (w : Walk),
    exprs known init (Expr.renamedAll g es) (w.renamed g) = (exprs known init es w).renamed g
  | [], _ => rfl
  | e :: rest, w => by simp only [Expr.renamedAll, exprs, expr_renamed e w, exprs_renamed rest]

end

mutual

/-- The walk over a statement that is renamed. Scopes and misuses have names and tokens only, so the
distances alone are recorded at other identities. -/
theorem stmt_renamed : ∀ (s : Stmt) (inFunction : Bool) (w : Walk),
    stmt known inFunction (s.renamed g) (w.renamed g) = (stmt known inFunction s w).renamed g
  | .absent, _, _ => rfl
  | .expression _ value, _, w => expr_renamed value w
  | .print _ value, _, w => expr_renamed value w
  | .var _ name initializer, _, w => by
      simp only [Stmt.renamed, stmt, declare_renamed, expr_renamed, define_renamed]
      rfl
  | .block _ body, inFunction, w => congrArg leave (stmts_renamed body inFunction w.enter)
  | .branch _ condition positive negative, inFunction, w => by
      simp only [Stmt.renamed, stmt, expr_renamed, stmt_renamed positive inFunction,
        stmt_renamed negative inFunction]
  | .loop _ condition body, inFunction, w => by
      simp only [Stmt.renamed, stmt, expr_renamed, stmt_renamed body inFunction]
  | .function _ name params body, _, w => by
      simp only [Stmt.renamed, stmt, declare_renamed, define_renamed, enterFunction_renamed,
        stmts_renamed body true]
      rfl
  | .result _ keyword value, true, w => expr_renamed value w
  | .result _ keyword value, false, w => expr_renamed value (w.note keyword .topLevelReturn)

/-- The same for statements in a row. -/
theorem stmts_renamed : ∀ (ss : List Stmt) (inFunction : Bool) (w : Walk),
    stmts known inFunction (Stmt.renamedAll g ss) (w.renamed g) =
      (stmts known inFunction ss w).renamed g
  | [], _, _ => rfl
  | s :: rest, inFunction, w => by
      simp only [Stmt.renamedAll, stmts, stmt_renamed s inFunction w, stmts_renamed rest inFunction]

end

end Walk

-- ==== Resolutions

/-- The distances in `r'` are those in `r`, at other identities. -/
def Resolution.Renamed (g : Nat → Nat) (r r' : Resolution) : Prop := ∀ id : Nat, r'[g id]? = r[id]?

namespace Resolution

/-- Where identities stay distinct, each distance is found at its new identity. -/
theorem ofEntries_renamed (hg : Function.Injective g) (entries : List (Nat × Nat)) :
    (ofEntries entries).Renamed g (ofEntries (entries.map fun entry => (g entry.1, entry.2))) := by
  intro id
  rw [getElem?_ofEntries, getElem?_ofEntries]
  congr 1
  induction entries with
  | nil => rfl
  | cons entry rest ih =>
      obtain ⟨i, hops⟩ := entry
      rw [List.map_cons, List.lookup_cons, List.lookup_cons, ih]
      have hbeq : (g id == g i) = (id == i) := by
        rw [Bool.eq_iff_iff, beq_iff_eq, beq_iff_eq]
        exact ⟨fun h => hg h, congrArg g⟩
      rw [hbeq]

/-- Distinct identities stay distinct, so there are as many distances. -/
theorem size_ofEntries_renamed (hg : Function.Injective g) (entries : List (Nat × Nat)) :
    (ofEntries (entries.map fun entry => (g entry.1, entry.2))).size = (ofEntries entries).size := by
  induction entries with
  | nil => rfl
  | cons entry rest ih =>
      obtain ⟨i, hops⟩ := entry
      show (Std.TreeMap.insert (ofEntries (rest.map _)) (g i) (hops : Int)).size =
        (Std.TreeMap.insert (ofEntries rest) i (hops : Int)).size
      rw [Std.TreeMap.size_insert, Std.TreeMap.size_insert, ih]
      have hcontains : (ofEntries (rest.map fun entry => (g entry.1, entry.2))).contains (g i) =
          (ofEntries rest).contains i := by
        rw [Std.TreeMap.contains_eq_isSome_getElem?, Std.TreeMap.contains_eq_isSome_getElem?,
          ofEntries_renamed hg rest i]
      rw [hcontains]

/-- The distances of a further program join those before it. -/
theorem Renamed.merge {r r' new new' : Resolution} (h : r.Renamed g r') (hnew : new.Renamed g new') :
    (r.merge new).Renamed g (r'.merge new') := by
  intro id
  rw [getElem?_merge, getElem?_merge, h id, hnew id]

end Resolution

/-- A program that is renamed has the same misuses, and the same distances at its new identities. -/
theorem resolve_renamed (hg : Function.Injective g) (known : Bytes → Bool) (program : Program) :
    let resolved := resolve known program
    let resolved' := resolve known (Stmt.renamedAll g program)
    resolved.resolution.Renamed g resolved'.resolution ∧
      resolved'.resolution.size = resolved.resolution.size ∧
      resolved'.diagnostics = resolved.diagnostics := by
  intro resolved resolved'
  have hwalk : Walk.stmts known false (Stmt.renamedAll g program) .start = _ :=
    Walk.stmts_renamed (g := g) program false .start
  have hresolved : resolved' = ⟨Resolution.ofEntries
      (((Walk.stmts known false program .start).renamed g).entries), resolved.diagnostics⟩ := by
    simp only [resolved', resolved, resolve, hwalk]
    rfl
  rw [hresolved]
  exact ⟨Resolution.ofEntries_renamed hg _, Resolution.size_ofEntries_renamed hg _, rfl⟩

end Lox
