/-
What the walk over a program does to its scopes.

# Expressions

An expression leaves scopes and top-level names as they are: it only adds distances and misuses
(`Adds`, `expr_adds`). Distances are added in front and misuses at the end, and nothing that was
found is lost (`Grows`). By `expr_scopes` and `expr_globals`, both for simp, no later proof has to
look into an expression to know what is in scope after it.

# Declarations

Declaring and defining a name both record it in the innermost scope, if there is one
(`Scope.record`); at top level, defining adds it to the top-level names instead (`define_globals`).
The parameters of a function all come into one new scope (`enterFunction_eq`).

# Statements

A statement of a tree that was read changes the innermost scope by the name it declares, if it
declares one, and nothing else; a block or a function puts back what it found (`stmt_after`,
`stmts_inside`). The two are proved together, by induction over the tree: inside a block the
statements may change the scope of the block, and only what lies around it has to come out the same.
That the tree was read matters for branches and loops, whose bodies declare nothing then
(`Stmt.Formed`).
-/
import Lox.Proofs.Tree.Identity
import Lox.Resolution

namespace Lox

-- ==== Scopes

namespace Scope

variable {name x : Bytes} {d : Bool}

/-- A name that is recorded is declared, with those that were. -/
theorem declares_set (scope : Scope) :
    Scope.declares (scope.set name d) x = (decide (x = name) || scope.declares x) := by
  unfold declares
  rw [Table.lookup_set]
  by_cases h : x = name <;> simp [h]

/-- A new scope declares nothing. -/
@[simp] theorem declares_nil : Scope.declares [] x = false := rfl

end Scope

namespace Walk

variable {known : Bytes → Bool} {init : Option Bytes} {inFunction : Bool}

-- ==== Expressions

/-- From `w` to `w'` the walk found distances and misuses, and lost none. -/
structure Grows (w w' : Walk) : Prop where
  entries : w.entries <:+ w'.entries
  faults : w.faults <+: w'.faults

/-- From `w` to `w'` the walk did nothing else than finding distances and misuses. -/
structure Adds (w w' : Walk) : Prop extends Grows w w' where
  scopes : w'.scopes = w.scopes
  globals : w'.globals = w.globals

variable {w w₁ w₂ : Walk}

theorem Grows.refl (w : Walk) : Grows w w := ⟨List.suffix_refl _, List.prefix_refl _⟩

/-- What was found on one stretch of the walk stays found on the next. -/
theorem Grows.trans (h₁ : Grows w w₁) (h₂ : Grows w₁ w₂) : Grows w w₂ :=
  ⟨h₁.entries.trans h₂.entries, h₁.faults.trans h₂.faults⟩

theorem Adds.refl (w : Walk) : Adds w w := ⟨.refl w, rfl, rfl⟩

/-- Two stretches that open and declare nothing, one after the other. -/
theorem Adds.trans (h₁ : Adds w w₁) (h₂ : Adds w₁ w₂) : Adds w w₂ :=
  ⟨h₁.toGrows.trans h₂.toGrows, h₂.scopes.trans h₁.scopes, h₂.globals.trans h₁.globals⟩

theorem note_adds (w : Walk) (t : Token) (p : ResolveProblem) : Adds w (w.note t p) :=
  ⟨⟨List.suffix_refl _, List.prefix_append _ _⟩, rfl, rfl⟩

/-- A use of a variable adds its distance, if it has one. -/
theorem locate_adds (w : Walk) (id : Nat) (name : Token) : Adds w (w.locate id name) := by
  unfold locate
  split
  · exact ⟨⟨List.suffix_cons _ _, List.prefix_refl _⟩, rfl, rfl⟩
  · exact .refl w

/-- A read adds a misuse, if it is one. -/
theorem checkRead_adds (w : Walk) (name : Token) : Adds w (w.checkRead known init name) := by
  unfold checkRead
  split
  · exact note_adds ..
  · exact .refl w

mutual

/-- An expression leaves the scopes and the top-level names as they are. -/
theorem expr_adds : ∀ (e : Expr) (w : Walk), Adds w (expr known init e w)
  | .absent, w => .refl w
  | .literal _ _, w => .refl w
  | .grouping _ inner, w => expr_adds inner w
  | .unary _ _ operand, w => expr_adds operand w
  | .binary _ left _ right, w => (expr_adds left w).trans (expr_adds right _)
  | .logical _ left _ right, w => (expr_adds left w).trans (expr_adds right _)
  | .assign _ _ value, w => (expr_adds value w).trans (locate_adds ..)
  | .ident _ name, w => (checkRead_adds w name).trans (locate_adds ..)
  | .call _ callee _ arguments, w => (expr_adds callee w).trans (exprs_adds arguments _)

/-- The same for expressions in a row. -/
theorem exprs_adds : ∀ (es : List Expr) (w : Walk), Adds w (exprs known init es w)
  | [], w => .refl w
  | e :: rest, w => (expr_adds e w).trans (exprs_adds rest _)

end

/-- After an expression the same scopes are open. -/
@[simp] theorem expr_scopes (e : Expr) (w : Walk) : (expr known init e w).scopes = w.scopes :=
  (expr_adds e w).scopes

/-- After an expression the same names are defined at top level. -/
@[simp] theorem expr_globals (e : Expr) (w : Walk) : (expr known init e w).globals = w.globals :=
  (expr_adds e w).globals

-- ==== Declarations

end Walk

namespace Scope

/-- Record a name in the innermost of the scopes; at top level there is none. -/
def record (name : Bytes) (d : Bool) : List Scope → List Scope
  | [] => []
  | scope :: outer => scope.set name d :: outer

@[simp] theorem record_nil (name : Bytes) (d : Bool) : record name d [] = [] := rfl

@[simp] theorem record_cons (name : Bytes) (d : Bool) (scope : Scope) (outer : List Scope) :
    record name d (scope :: outer) = scope.set name d :: outer := rfl

/-- Only the innermost scope changes. -/
@[simp] theorem record_tail (name : Bytes) (d : Bool) (scopes : List Scope) :
    (record name d scopes).tail = scopes.tail := by
  cases scopes <;> rfl

@[simp] theorem record_eq_nil {name : Bytes} {d : Bool} {scopes : List Scope} :
    record name d scopes = [] ↔ scopes = [] := by
  cases scopes <;> simp

end Scope

namespace Walk

variable {known : Bytes → Bool} {init : Option Bytes} {inFunction : Bool}

/-- A name that is declared is recorded as not yet defined. -/
@[simp] theorem declare_scopes (w : Walk) (name : Token) :
    (w.declare name).scopes = Scope.record name.lexeme false w.scopes := by
  unfold declare
  split <;> simp_all

@[simp] theorem declare_globals (w : Walk) (name : Token) : (w.declare name).globals = w.globals := by
  unfold declare
  split <;> rfl

/-- A name that is defined is recorded as such. -/
@[simp] theorem define_scopes (w : Walk) (name : Token) :
    (w.define name).scopes = Scope.record name.lexeme true w.scopes := by
  unfold define
  split <;> simp_all

/-- Outside of all scopes, a name that is defined joins the top-level names. -/
theorem define_globals (w : Walk) (name : Token) :
    (w.define name).globals = if w.scopes = [] then name.lexeme :: w.globals else w.globals := by
  unfold define
  split <;> simp_all

/-- A declaration loses nothing that was found. -/
theorem declare_grows (w : Walk) (name : Token) : Grows w (w.declare name) := by
  unfold declare
  split <;> exact ⟨List.suffix_refl _, List.prefix_refl _⟩

/-- Nor does a definition. -/
theorem define_grows (w : Walk) (name : Token) : Grows w (w.define name) := by
  unfold define
  split <;> exact ⟨List.suffix_refl _, List.prefix_refl _⟩

@[simp] theorem enter_scopes (w : Walk) : w.enter.scopes = [] :: w.scopes := rfl

@[simp] theorem leave_scopes (w : Walk) : w.leave.scopes = w.scopes.tail := rfl

/-- The scope of a function's parameters, all of them defined. -/
def paramScope (params : List Token) (scope : Scope) : Scope :=
  params.foldl (fun scope param => (scope.set param.lexeme false).set param.lexeme true) scope

/-- The walk with a new innermost scope for the parameters of a function. -/
theorem enterFunction_eq (w : Walk) (params : List Token) :
    w.enterFunction params = { w with scopes := paramScope params [] :: w.scopes } := by
  have key : ∀ (ps : List Token) (scope : Scope) (w' : Walk),
      ps.foldl (fun w param => (w.declare param).define param)
        { w' with scopes := scope :: w'.scopes }
        = { w' with scopes := paramScope ps scope :: w'.scopes } := by
    intro ps
    induction ps with
    | nil => intro scope w'; rfl
    | cons p ps ih => intro scope w'; exact ih _ w'
  exact key params [] w

/-- In a function, its parameters are in the innermost scope. -/
@[simp] theorem enterFunction_scopes (w : Walk) (params : List Token) :
    (w.enterFunction params).scopes = paramScope params [] :: w.scopes := by
  rw [enterFunction_eq]

@[simp] theorem enterFunction_globals (w : Walk) (params : List Token) :
    (w.enterFunction params).globals = w.globals := by
  rw [enterFunction_eq]

end Walk

-- ==== Statements

namespace Stmt

/-- The scopes after a statement: the name it declares is defined in the innermost one. -/
def scopesAfter (s : Stmt) (scopes : List Scope) : List Scope :=
  match s.declared? with
  | some name => Scope.record name.lexeme true (Scope.record name.lexeme false scopes)
  | none => scopes

/-- A statement that declares nothing changes no scope. -/
theorem scopesAfter_eq_self {s : Stmt} (h : s.declared? = none) (scopes : List Scope) :
    s.scopesAfter scopes = scopes := by
  unfold scopesAfter
  rw [h]

/-- Whatever a statement declares, the scopes around the innermost one stay. -/
@[simp] theorem scopesAfter_tail (s : Stmt) (scopes : List Scope) :
    (s.scopesAfter scopes).tail = scopes.tail := by
  unfold scopesAfter
  split <;> simp

@[simp] theorem scopesAfter_eq_nil {s : Stmt} {scopes : List Scope} :
    s.scopesAfter scopes = [] ↔ scopes = [] := by
  unfold scopesAfter
  split <;> simp

/-- The top-level names after a statement that starts with these scopes. -/
def globalsAfter (s : Stmt) (scopes : List Scope) (globals : List Bytes) : List Bytes :=
  match s.declared?, scopes with
  | some name, [] => name.lexeme :: globals
  | _, _ => globals

end Stmt

namespace Walk

variable {known : Bytes → Bool} {init : Option Bytes} {inFunction : Bool}

mutual

/-- A statement adds to the distances and misuses found, and takes none away. Scopes may have been
entered and left; of them nothing is said here. -/
theorem stmt_grows : ∀ (s : Stmt) (inFunction : Bool) (w : Walk),
    Grows w (stmt known inFunction s w)
  | .absent, _, w => .refl w
  | .expression _ value, _, w => (expr_adds value w).toGrows
  | .print _ value, _, w => (expr_adds value w).toGrows
  | .var _ name initializer, _, w =>
      ((declare_grows w name).trans (expr_adds initializer _).toGrows).trans (define_grows _ name)
  | .block _ body, inFunction, w =>
      have h := stmts_grows body inFunction w.enter
      ⟨h.entries, h.faults⟩
  | .branch _ condition positive negative, inFunction, w =>
      ((expr_adds condition w).toGrows.trans (stmt_grows positive inFunction _)).trans
        (stmt_grows negative inFunction _)
  | .loop _ condition body, inFunction, w =>
      (expr_adds condition w).toGrows.trans (stmt_grows body inFunction _)
  | .function _ name params body, _, w => by
      have h := stmts_grows body true (((w.declare name).define name).enterFunction params)
      rw [enterFunction_eq] at h
      have hdecl := (declare_grows w name).trans (define_grows _ name)
      rw [stmt, enterFunction_eq]
      exact ⟨hdecl.entries.trans h.entries, hdecl.faults.trans h.faults⟩
  | .result _ keyword value, true, w => (expr_adds value w).toGrows
  | .result _ keyword value, false, w =>
      (note_adds w keyword _).toGrows.trans (expr_adds value _).toGrows

/-- The same for statements in a row. -/
theorem stmts_grows : ∀ (ss : List Stmt) (inFunction : Bool) (w : Walk),
    Grows w (stmts known inFunction ss w)
  | [], _, w => .refl w
  | s :: rest, inFunction, w =>
      (stmt_grows s inFunction w).trans (stmts_grows rest inFunction _)

end

mutual

/-- What a statement of a tree that was read does to the scopes and the top-level names: a
declaration adds its name, and nothing else changes either. Scopes that are entered are left
again. -/
theorem stmt_after : ∀ (s : Stmt), s.Formed → ∀ (inFunction : Bool) (w : Walk),
    (stmt known inFunction s w).scopes = s.scopesAfter w.scopes ∧
      (stmt known inFunction s w).globals = s.globalsAfter w.scopes w.globals
  | .absent, _, _, w => ⟨rfl, rfl⟩
  | .expression _ value, _, _, w => ⟨expr_scopes value w, expr_globals value w⟩
  | .print _ value, _, _, w => ⟨expr_scopes value w, expr_globals value w⟩
  | .var _ name initializer, _, _, w => by
      simp only [stmt, define_scopes, expr_scopes, declare_scopes, define_globals, expr_globals,
        declare_globals, Stmt.scopesAfter, Stmt.globalsAfter, Stmt.declared?]
      cases w.scopes <;> simp
  | .block _ body, hf, inFunction, w => by
      have h := stmts_inside body hf inFunction w.enter (by simp)
      exact ⟨by simp [stmt, h.1, Stmt.scopesAfter, Stmt.declared?], h.2⟩
  -- neither branch declares a name, so each leaves what it found
  | .branch _ condition positive negative, hf, inFunction, w => by
      obtain ⟨hp, hn, hdp, hdn⟩ := hf
      have h₁ := stmt_after positive hp inFunction (expr known none condition w)
      have h₂ := stmt_after negative hn inFunction
        (stmt known inFunction positive (expr known none condition w))
      simp only [Stmt.scopesAfter, Stmt.globalsAfter, hdp, hdn, expr_scopes, expr_globals] at h₁ h₂
      exact ⟨h₂.1.trans h₁.1, h₂.2.trans h₁.2⟩
  | .loop _ condition body, hf, inFunction, w => by
      have h := stmt_after body hf.1 inFunction (expr known none condition w)
      simp only [Stmt.scopesAfter, Stmt.globalsAfter, hf.2, expr_scopes, expr_globals] at h
      exact h
  | .function _ name params body, hf, inFunction, w => by
      have h := stmts_inside body hf true (((w.declare name).define name).enterFunction params)
        (by simp)
      simp only [enterFunction_scopes, List.tail_cons, enterFunction_globals, define_scopes,
        declare_scopes, define_globals, declare_globals] at h
      refine ⟨h.1, h.2.trans ?_⟩
      unfold Stmt.globalsAfter
      cases w.scopes <;> simp [Stmt.declared?]
  | .result id keyword value, _, inFunction, w => by
      have h : Adds _ (stmt known inFunction (.result id keyword value) w) := expr_adds value _
      cases inFunction with
      | true => exact ⟨h.scopes, h.globals⟩
      | false => exact ⟨h.scopes, h.globals⟩

/-- Statements inside a scope leave the scopes around it and the top-level names as they are. -/
theorem stmts_inside : ∀ (ss : List Stmt), Stmt.FormedAll ss → ∀ (inFunction : Bool) (w : Walk),
    w.scopes ≠ [] →
    (stmts known inFunction ss w).scopes.tail = w.scopes.tail ∧
      (stmts known inFunction ss w).globals = w.globals
  | [], _, _, _, _ => ⟨rfl, rfl⟩
  | s :: rest, hf, inFunction, w, hw => by
      have h₁ := stmt_after s hf.1 inFunction w
      have hne : (stmt known inFunction s w).scopes ≠ [] := by simpa [h₁.1] using hw
      have h₂ := stmts_inside rest hf.2 inFunction (stmt known inFunction s w) hne
      refine ⟨?_, ?_⟩
      · rw [stmts, h₂.1, h₁.1, Stmt.scopesAfter_tail]
      · rw [stmts, h₂.2, h₁.2]
        unfold Stmt.globalsAfter
        -- a name would join the top-level ones only outside of all scopes
        split
        next hs => exact absurd hs hw
        next => rfl

end

end Walk

end Lox
