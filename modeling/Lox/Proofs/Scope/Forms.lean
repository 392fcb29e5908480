/-
Walks over trees with blocks added.

# Why a block changes nothing

A block around a statement opens a scope in which nothing is declared. The walk looks at the
innermost scope for two things: where a name is declared, and whether a variable that is read is the
one being initialized. Around a statement that declares nothing the first does not matter, and the
second cannot happen, since all names of all scopes are defined when a statement starts
(`Scope.Settled`). So the walk finds the same misuses in both trees (`resolve_padded`).

# Two walks abreast

`Walk.Abreast` says of two walks that they have found the same misuses and the same names at top
level; the distances may differ, and so may the scopes. How an expression keeps them abreast depends
on where it stands:

- in an initializer the walks need the same innermost scope, which alone tells whether a variable is
  read in its own initializer (`expr_like`);
- anywhere else no misuse is found at all in settled scopes (`expr_settled`), whatever the scopes
  and whatever the expressions (`Abreast.expr`).

A statement is then walked over abreast if the innermost scopes are the same or if it declares
nothing (`stmt_padded`). The second is the case of a statement with a block around it, and of
branches and the bodies of loops, where a tree that was read declares nothing.
-/
import Lox.Proofs.Scope.Walk
import Lox.Proofs.Tree.Padded

namespace Lox

-- ==== Scopes in which all is defined

/-- No name is declared and not yet defined. -/
def Scope.Settled (scopes : List Scope) : Prop := ∀ scope ∈ scopes, ∀ x, scope.lookup x ≠ some false

namespace Scope.Settled

variable {scopes : List Scope}

theorem nil : Scope.Settled [] := fun _ h => nomatch h

/-- A further scope in which all is defined. -/
theorem cons {scope : Scope} (h : Scope.Settled scopes) (hs : ∀ x, scope.lookup x ≠ some false) :
    Scope.Settled (scope :: scopes) :=
  List.forall_mem_cons.mpr ⟨hs, h⟩

/-- A new scope declares nothing. -/
theorem enter (h : Scope.Settled scopes) : Scope.Settled ([] :: scopes) := h.cons fun x => by simp

/-- A name that is declared and then defined is defined. -/
theorem record (h : Scope.Settled scopes) (name : Bytes) :
    Scope.Settled (Scope.record name true (Scope.record name false scopes)) := by
  cases scopes with
  | nil => exact nil
  | cons scope outer =>
      rw [Scope.Settled, List.forall_mem_cons] at h
      refine Scope.Settled.cons h.2 fun x => ?_
      rw [Table.lookup_set, Table.lookup_set]
      by_cases hx : x = name
      · simp [hx]
      · simpa [hx] using h.1 x

/-- After a statement all is defined again. -/
theorem scopesAfter (h : Scope.Settled scopes) (s : Stmt) : Scope.Settled (s.scopesAfter scopes) := by
  unfold Stmt.scopesAfter
  split
  · exact h.record _
  · exact h

/-- All parameters of a function are defined. -/
theorem paramScope (h : Scope.Settled scopes) (params : List Token) :
    Scope.Settled (Walk.paramScope params [] :: scopes) := by
  have key : ∀ scope : Scope, (∀ x, scope.lookup x ≠ some false) →
      ∀ x, (Walk.paramScope params scope).lookup x ≠ some false := by
    induction params with
    | nil => exact fun _ hs => hs
    | cons param params ih =>
        intro scope hs
        refine ih _ fun x => ?_
        rw [Table.lookup_set, Table.lookup_set]
        by_cases hx : x = param.lexeme
        · simp [hx]
        · simpa [hx] using hs x
  exact h.cons (key [] fun x => by simp)

end Scope.Settled

namespace Walk

variable {known : Bytes → Bool} {init : Option Bytes} {inFunction : Bool} {w w' : Walk}

-- ==== Expressions

/-- The walks have found the same misuses, and the same names at top level. -/
structure Abreast (w w' : Walk) : Prop where
  globals : w'.globals = w.globals
  faults : w'.faults = w.faults

/-- Both walks declare a name. -/
theorem Abreast.declare (h : w.Abreast w') (name : Token) :
    (w.declare name).Abreast (w'.declare name) := by
  refine ⟨?_, ?_⟩
  · rw [declare_globals, declare_globals, h.globals]
  · unfold Walk.declare
    split <;> split <;> exact h.faults

/-- Both walks define a name, at top level or both in a scope. -/
theorem Abreast.define (h : w.Abreast w') (hs : w'.scopes.head? = w.scopes.head?) (name : Token) :
    (w.define name).Abreast (w'.define name) := by
  have hnil : w'.scopes = [] ↔ w.scopes = [] := by
    rw [← List.head?_eq_none_iff, ← List.head?_eq_none_iff, hs]
  refine ⟨?_, ?_⟩
  · simp only [define_globals, hnil, h.globals]
  · unfold Walk.define
    split <;> split <;> exact h.faults

/-- Both walks find a misuse. -/
theorem Abreast.note (h : w.Abreast w') (t : Token) (problem : ResolveProblem) :
    (w.note t problem).Abreast (w'.note t problem) := by
  refine ⟨h.globals, ?_⟩
  simp only [Walk.note, h.faults]

/-- Both walks come to a use of a name. The distances they find may differ. -/
theorem Abreast.locate (h : w.Abreast w') (id id' : Nat) (name : Token) :
    (w.locate id name).Abreast (w'.locate id' name) := by
  unfold Walk.locate
  split <;> split <;> exact ⟨h.globals, h.faults⟩

/-- Whether a variable is read in its own initializer is told by the innermost scope. -/
theorem selfRead?_eq (hs : w'.scopes.head? = w.scopes.head?) (hg : w'.globals = w.globals)
    (name : Bytes) : w'.selfRead? known init name = w.selfRead? known init name := by
  unfold selfRead?
  cases h : w.scopes <;> cases h' : w'.scopes <;> simp_all

/-- Both walks come to a read of a name, with the same innermost scope. -/
theorem Abreast.checkRead (h : w.Abreast w') (hs : w'.scopes.head? = w.scopes.head?) (name : Token) :
    (w.checkRead known init name).Abreast (w'.checkRead known init name) := by
  unfold Walk.checkRead
  rw [selfRead?_eq hs h.globals]
  split
  · exact h.note _ _
  · exact h

mutual

/-- With the same innermost scope the same misuses are found in an expression. -/
theorem expr_like : ∀ {e e' : Expr}, e.Like e' → ∀ {w w' : Walk}, w.Abreast w' →
    w'.scopes.head? = w.scopes.head? → (expr known init e w).Abreast (expr known init e' w')
  | _, _, .absent, _, _, h, _ => h
  | _, _, .literal _ _ _, _, _, h, _ => h
  | _, _, .grouping _ _ inner, _, _, h, hs => expr_like inner h hs
  | _, _, .unary _ _ _ operand, _, _, h, hs => expr_like operand h hs
  | _, _, .binary _ _ _ left right, _, _, h, hs =>
      expr_like right (expr_like left h hs) (by rw [expr_scopes, expr_scopes, hs])
  | _, _, .logical _ _ _ left right, _, _, h, hs =>
      expr_like right (expr_like left h hs) (by rw [expr_scopes, expr_scopes, hs])
  | _, _, .assign _ _ name value, _, _, h, hs => (expr_like value h hs).locate _ _ name
  | _, _, .ident _ _ name, _, _, h, hs => (h.checkRead hs name).locate _ _ name
  | _, _, .call _ _ _ callee arguments, _, _, h, hs =>
      exprs_like arguments (expr_like callee h hs) (by rw [expr_scopes, expr_scopes, hs])

/-- The same for expressions in a row. -/
theorem exprs_like : ∀ {es es' : List Expr}, Expr.LikeAll es es' → ∀ {w w' : Walk}, w.Abreast w' →
    w'.scopes.head? = w.scopes.head? → (exprs known init es w).Abreast (exprs known init es' w')
  | _, _, .nil, _, _, h, _ => h
  | _, _, .cons first rest, _, _, h, hs =>
      exprs_like rest (expr_like first h hs) (by rw [expr_scopes, expr_scopes, hs])

end

/-- A use of a name is no misuse by itself. -/
theorem locate_faults (w : Walk) (id : Nat) (name : Token) :
    (w.locate id name).faults = w.faults := by
  unfold locate
  split <;> rfl

/-- Outside initializers nothing is read that is not defined. -/
theorem checkRead_settled (hs : Scope.Settled w.scopes) (name : Token) :
    w.checkRead known none name = w := by
  have hself : w.selfRead? known none name.lexeme = none := by
    unfold selfRead?
    split
    next scope outer hscopes =>
      rw [hscopes, Scope.Settled, List.forall_mem_cons] at hs
      exact if_neg (hs.1 _)
    next => exact if_neg fun h => nomatch h.1
  unfold checkRead
  rw [hself]

mutual

/-- Where all is defined, no misuse is found in an expression outside initializers. -/
theorem expr_settled : ∀ (e : Expr) (w : Walk), Scope.Settled w.scopes →
    (expr known none e w).faults = w.faults
  | .absent, _, _ => rfl
  | .literal _ _, _, _ => rfl
  | .grouping _ inner, w, hs => expr_settled inner w hs
  | .unary _ _ operand, w, hs => expr_settled operand w hs
  | .binary _ left _ right, w, hs => by
      rw [expr, expr_settled right _ (by rw [expr_scopes]; exact hs), expr_settled left w hs]
  | .logical _ left _ right, w, hs => by
      rw [expr, expr_settled right _ (by rw [expr_scopes]; exact hs), expr_settled left w hs]
  | .assign _ name value, w, hs => by rw [expr, locate_faults, expr_settled value w hs]
  | .ident _ name, w, hs => by rw [expr, checkRead_settled hs, locate_faults]
  | .call _ callee _ arguments, w, hs => by
      rw [expr, exprs_settled arguments _ (by rw [expr_scopes]; exact hs),
        expr_settled callee w hs]

/-- The same for expressions in a row. -/
theorem exprs_settled : ∀ (es : List Expr) (w : Walk), Scope.Settled w.scopes →
    (exprs known none es w).faults = w.faults
  | [], _, _ => rfl
  | e :: rest, w, hs => by
      rw [exprs, exprs_settled rest _ (by rw [expr_scopes]; exact hs), expr_settled e w hs]

end

/-- So any two expressions outside initializers are as good as each other. -/
theorem Abreast.expr (h : w.Abreast w') (hs : Scope.Settled w.scopes) (hs' : Scope.Settled w'.scopes)
    (e e' : Expr) : (expr known none e w).Abreast (expr known none e' w') := by
  refine ⟨?_, ?_⟩
  · rw [expr_globals, expr_globals, h.globals]
  · rw [expr_settled e w hs, expr_settled e' w' hs', h.faults]

-- ==== Statements

/-- The innermost scopes stay the same if the same name is recorded. -/
theorem record_head? {scopes scopes' : List Scope} (h : scopes'.head? = scopes.head?) (name : Bytes)
    (d : Bool) : (Scope.record name d scopes').head? = (Scope.record name d scopes).head? := by
  cases scopes <;> cases scopes' <;> simp_all

/-- The innermost scopes are the same after statements that declare the same name. -/
theorem scopesAfter_head? {s s' : Stmt} {scopes scopes' : List Scope}
    (hd : s'.declared? = s.declared?) (h : scopes'.head? = scopes.head?) :
    (s'.scopesAfter scopes').head? = (s.scopesAfter scopes).head? := by
  unfold Stmt.scopesAfter
  rw [hd]
  split
  · exact record_head? (record_head? h _ _) _ _
  · exact h

mutual

/-- The same misuses are found, if the innermost scopes are the same or nothing is declared. An
added block has a scope of its own that stays empty: a misuse is found in the innermost scope only,
and a statement that declares nothing does not use it. -/
theorem stmt_padded : ∀ {s s' : Stmt}, s.Padded s' → s.Formed → s'.Formed →
    ∀ (inFunction : Bool) {w w' : Walk}, w.Abreast w' → Scope.Settled w.scopes →
    Scope.Settled w'.scopes → w'.scopes.head? = w.scopes.head? ∨ s.declared? = none →
    (stmt known inFunction s w).Abreast (stmt known inFunction s' w')
  | _, _, .absent, _, _, _, _, _, h, _, _, _ => h
  | _, _, .expression _ _ _, _, _, _, _, _, h, hs, hs', _ => h.expr hs hs' _ _
  | _, _, .print _ _ _, _, _, _, _, _, h, hs, hs', _ => h.expr hs hs' _ _
  | _, _, .var _ _ name initializer, _, _, _, w, w', h, _, _, hlevel => by
      have hhead : w'.scopes.head? = w.scopes.head? := hlevel.resolve_right nofun
      have hempty : w'.scopes.isEmpty = w.scopes.isEmpty := by
        cases hw : w.scopes <;> cases hw' : w'.scopes <;> simp_all
      have hdeclared : (w'.declare name).scopes.head? = (w.declare name).scopes.head? := by
        rw [declare_scopes, declare_scopes]
        exact record_head? hhead _ _
      simp only [stmt, hempty]
      refine (expr_like initializer (h.declare name) hdeclared).define ?_ name
      rw [expr_scopes, expr_scopes, hdeclared]
  | _, _, .block _ _ body, hf, hf', inFunction, w, w', h, hs, hs', _ => by
      have henter : w.enter.Abreast w'.enter := ⟨h.globals, h.faults⟩
      have hbody := stmts_padded body hf hf' inFunction henter hs.enter hs'.enter rfl
      exact ⟨hbody.globals, hbody.faults⟩
  | .branch _ c p n, .branch _ c' p' n', .branch _ _ _ positive negative, hf, hf', inFunction, w, w',
      h, hs, hs', _ => by
      have hcond : (expr known none c w).Abreast (expr known none c' w') := h.expr hs hs' c c'
      have hsc : Scope.Settled (expr known none c w).scopes := by rwa [expr_scopes]
      have hsc' : Scope.Settled (expr known none c' w').scopes := by rwa [expr_scopes]
      have hp := stmt_padded positive hf.1 hf'.1 inFunction hcond hsc hsc' (.inr hf.2.2.1)
      refine stmt_padded negative hf.2.1 hf'.2.1 inFunction hp ?_ ?_ (.inr hf.2.2.2)
      · rw [(stmt_after p hf.1 inFunction _).1]
        exact hsc.scopesAfter p
      · rw [(stmt_after p' hf'.1 inFunction _).1]
        exact hsc'.scopesAfter p'
  | _, _, .loop _ _ _ body, hf, hf', inFunction, w, w', h, hs, hs', _ => by
      refine stmt_padded body hf.1 hf'.1 inFunction (h.expr hs hs' _ _) ?_ ?_ (.inr hf.2)
      · rw [expr_scopes]
        exact hs
      · rw [expr_scopes]
        exact hs'
  | _, _, .function _ _ name params body, hf, hf', _, w, w', h, hs, hs', hlevel => by
      have hhead : w'.scopes.head? = w.scopes.head? := hlevel.resolve_right nofun
      have hdeclared : (w'.declare name).scopes.head? = (w.declare name).scopes.head? := by
        rw [declare_scopes, declare_scopes]
        exact record_head? hhead _ _
      have hdefined := (h.declare name).define hdeclared name
      have hin : (((w.declare name).define name).enterFunction params).Abreast
          (((w'.declare name).define name).enterFunction params) := by
        rw [enterFunction_eq, enterFunction_eq]
        exact ⟨hdefined.globals, hdefined.faults⟩
      have hbody := stmts_padded body hf hf' true hin ?_ ?_ ?_
      · exact ⟨hbody.globals, hbody.faults⟩
      · rw [enterFunction_scopes, define_scopes, declare_scopes]
        exact (hs.record _).paramScope params
      · rw [enterFunction_scopes, define_scopes, declare_scopes]
        exact (hs'.record _).paramScope params
      · rw [enterFunction_scopes, enterFunction_scopes]
        rfl
  | .result _ keyword e, .result _ _ e', .result _ _ _ _, _, _, inFunction, w, w', h, hs, hs', _ => by
      have hvalue : ∀ w₁ w₁' : Walk, w₁.Abreast w₁' → w₁.scopes = w.scopes → w₁'.scopes = w'.scopes →
          (expr known none e w₁).Abreast (expr known none e' w₁') :=
        fun w₁ w₁' h₁ hw hw' => h₁.expr (hw ▸ hs) (hw' ▸ hs') e e'
      cases inFunction with
      | true => exact hvalue w w' h rfl rfl
      | false => exact hvalue _ _ (h.note keyword .topLevelReturn) rfl rfl
  -- only one walk opens a scope, and the statement inside declares nothing
  | _, _, .wrap _ plain inner, hf, hf', inFunction, w, w', h, hs, hs', _ => by
      have henter : w.Abreast w'.enter := ⟨h.globals, h.faults⟩
      have hinner := stmt_padded inner hf hf'.1 inFunction henter hs hs'.enter (.inr plain.declared?)
      exact ⟨hinner.globals, hinner.faults⟩

/-- The same for statements in a row, which stand in scopes with the same innermost one. -/
theorem stmts_padded : ∀ {ss ss' : List Stmt}, Stmt.PaddedAll ss ss' → Stmt.FormedAll ss →
    Stmt.FormedAll ss' → ∀ (inFunction : Bool) {w w' : Walk}, w.Abreast w' → Scope.Settled w.scopes →
    Scope.Settled w'.scopes → w'.scopes.head? = w.scopes.head? →
    (stmts known inFunction ss w).Abreast (stmts known inFunction ss' w')
  | _, _, .nil, _, _, _, _, _, h, _, _, _ => h
  | s :: _, s' :: _, .cons first rest, hf, hf', inFunction, w, w', h, hs, hs', hhead => by
      have hafter : (stmt known inFunction s w).scopes = s.scopesAfter w.scopes :=
        (stmt_after s hf.1 inFunction w).1
      have hafter' : (stmt known inFunction s' w').scopes = s'.scopesAfter w'.scopes :=
        (stmt_after s' hf'.1 inFunction w').1
      refine stmts_padded rest hf.2 hf'.2 inFunction
        (stmt_padded first hf.1 hf'.1 inFunction h hs hs' (.inl hhead)) ?_ ?_ ?_
      · rw [hafter]
        exact hs.scopesAfter s
      · rw [hafter']
        exact hs'.scopesAfter s'
      · rw [hafter, hafter']
        exact scopesAfter_head? first.declared?_eq hhead

end

end Walk

/-- The walk over a program with blocks added finds the same misuses. -/
theorem resolve_padded {program program' : Program} (h : Stmt.PaddedAll program program')
    (hf : Stmt.FormedAll program) (hf' : Stmt.FormedAll program') (known : Bytes → Bool) :
    (resolve known program').diagnostics = (resolve known program).diagnostics := by
  have hstart : Walk.start.Abreast Walk.start := ⟨rfl, rfl⟩
  have hwalk : (Walk.stmts known false program .start).Abreast
      (Walk.stmts known false program' .start) :=
    Walk.stmts_padded h hf hf' false hstart .nil .nil rfl
  unfold resolve
  dsimp only
  rw [hwalk.faults]

end Lox
