/-
The misuses of a program are those that can be read off the tree.

# Reports

There is one report for each return outside of functions, for each read of a local variable in its
own initializer, and for each read of a new global variable in its own initializer; they come in the
order of the walk, and nothing else is reported (`reports_misuses`). What is reported at a place is
said by `Site.report?`, of what lies around the place in the tree and without a walk: a global
variable is new if no earlier declaration of the program defines it and if it was not known before.

The walk does not report a variable that has no name. The trees that were read have no such
variable, and `Stmt.Named` says so of any tree (`Stmt.named_sites` passes it on to the sites).

# Marks

The walk is told at each statement whether a function encloses it, and at each expression whose
initializer it belongs to. `Marked` is a walk that keeps the two as marks of its own, which it sets
and puts back as it goes: entering a function sets one and clears the other, and leaving it puts
both back; an initializer at top level is marked while the walk is in it. Between statements no
initializer is marked, so it does the same as the walk, and the marks are left as they were
(`marked_stmts`, by induction over the tree). At the end of a program no scope is open and nothing
is marked.
-/
import Lox.Proofs.Scope.Site

namespace Lox

-- ==== A walk with marks

/-- A walk, and what it has marked. -/
structure Marked where
  walk : Walk
  /-- Is the walk in a function? -/
  inFunction : Bool
  /-- The top-level variable whose initializer the walk is in. -/
  initializing : Option Bytes

namespace Marked

/-- Nothing walked over yet, and nothing marked. -/
def start : Marked := ⟨.start, false, none⟩

/-- Walk over an expression, which belongs to the initializer that is marked. -/
def expr (known : Bytes → Bool) (m : Marked) (e : Expr) : Marked :=
  { m with walk := Walk.expr known m.initializing e m.walk }

/-- Walk over an initializer. At top level its variable is marked for so long. -/
def overInitializer (known : Bytes → Bool) (m : Marked) (name : Token) (e : Expr) : Marked :=
  let m := if m.walk.scopes.isEmpty then { m with initializing := some name.lexeme } else m
  { m.expr known e with initializing := none }

mutual

/-- Walk over a statement. The two marks say whether the walk is in a function and in which
initializer it is; both are changed where the walk goes in, and put back where it comes out. -/
def stmt (known : Bytes → Bool) : Stmt → Marked → Marked
  | .absent, m => m
  | .expression _ value, m => m.expr known value
  | .print _ value, m => m.expr known value
  | .var _ name initializer, m =>
    let m := { m with walk := m.walk.declare name }
    let m := if initializer.isAbsent then m else m.overInitializer known name initializer
    { m with walk := m.walk.define name }
  | .block _ body, m =>
    let m := stmts known body { m with walk := m.walk.enter }
    { m with walk := m.walk.leave }
  | .branch _ condition positive negative, m =>
    stmt known negative (stmt known positive (m.expr known condition))
  | .loop _ condition body, m => stmt known body (m.expr known condition)
  | .function _ name params body, m =>
    let walk := ((m.walk.declare name).define name).enterFunction params
    -- the marks around the function are kept aside, and put back after its body
    let inner := stmts known body ⟨walk, true, none⟩
    ⟨inner.walk.leave, m.inFunction, m.initializing⟩
  | .result _ keyword value, m =>
    let walk := if m.inFunction then m.walk else m.walk.note keyword .topLevelReturn
    expr known { m with walk := walk } value

/-- Walk over statements in order. -/
def stmts (known : Bytes → Bool) : List Stmt → Marked → Marked
  | [], m => m
  | s :: rest, m => stmts known rest (stmt known s m)

end

variable {known : Bytes → Bool}

/-- The walk over an initializer, or over none. -/
theorem overInitializer_eq (w : Walk) (inFunction : Bool) (name : Token) (e : Expr) :
    overInitializer known ⟨w, inFunction, none⟩ name e =
      ⟨Walk.expr known (if w.scopes.isEmpty then some name.lexeme else none) e w, inFunction,
        none⟩ := by
  unfold overInitializer expr
  dsimp only
  split <;> rfl

mutual

/-- Where no initializer is marked, a statement leaves the marks as they are, and is walked over as
without them. -/
theorem marked_stmt : ∀ (s : Stmt) (w : Walk) (inFunction : Bool),
    stmt known s ⟨w, inFunction, none⟩ = ⟨Walk.stmt known inFunction s w, inFunction, none⟩
  | .absent, _, _ => rfl
  | .expression _ _, _, _ => rfl
  | .print _ _, _, _ => rfl
  | .var _ name initializer, w, inFunction => by
      have hempty : (w.declare name).scopes.isEmpty = w.scopes.isEmpty := by
        rw [Walk.declare_scopes]
        cases w.scopes <;> rfl
      rw [stmt, Walk.stmt]
      dsimp only
      cases initializer with
      | absent => rfl
      | _ =>
          rw [if_neg (by simp [Expr.isAbsent]), overInitializer_eq, hempty]
  | .block _ body, w, inFunction => by
      rw [stmt, marked_stmts body, Walk.stmt]
  | .branch _ condition positive negative, w, inFunction => by
      rw [stmt, expr, marked_stmt positive, marked_stmt negative, Walk.stmt]
  | .loop _ condition body, w, inFunction => by
      rw [stmt, expr, marked_stmt body, Walk.stmt]
  | .function _ name params body, w, inFunction => by
      rw [stmt, marked_stmts body, Walk.stmt]
  | .result _ keyword value, w, inFunction => by
      rw [stmt, expr, Walk.stmt]

/-- The same for statements, one after the other. -/
theorem marked_stmts : ∀ (ss : List Stmt) (w : Walk) (inFunction : Bool),
    stmts known ss ⟨w, inFunction, none⟩ = ⟨Walk.stmts known inFunction ss w, inFunction, none⟩
  | [], _, _ => rfl
  | s :: rest, w, inFunction => by
      rw [stmts, marked_stmt s, marked_stmts rest, Walk.stmts]

end

end Marked

-- ==== Names

mutual

/-- Every variable that is declared has a name. -/
def Stmt.Named : Stmt → Prop
  | .var _ name _ => name.lexeme ≠ []
  | .block _ body => Stmt.NamedAll body
  | .branch _ _ positive negative => positive.Named ∧ negative.Named
  | .loop _ _ body => body.Named
  | .function _ _ _ body => Stmt.NamedAll body
  | _ => True

/-- All of the statements are named. -/
def Stmt.NamedAll : List Stmt → Prop
  | [] => True
  | s :: rest => s.Named ∧ Stmt.NamedAll rest

end

/-- The site stands in no initializer of a variable without a name. -/
def Site.Named (t : Site) : Prop := ∀ x, t.initializes = some x → x ≠ []

/-- The sites of an expression stand in one initializer, or in none. -/
theorem Site.named_ofExpr {a : Surroundings} {init : Option Bytes} (h : ∀ x, init = some x → x ≠ [])
    (e : Expr) : ∀ t ∈ Site.ofExpr a init e, t.Named := by
  intro t ht
  obtain ⟨u, -, rfl⟩ := List.mem_map.mp ht
  exact h

mutual

/-- In a tree whose variables have names, so have those whose initializers the sites stand in. A
mark is a name, and the empty one would be taken for none. -/
theorem Stmt.named_sites : ∀ (s : Stmt), s.Named → ∀ a, ∀ t ∈ s.sites a, t.Named
  | .absent, _, _, _, ht => by simp [Stmt.sites] at ht
  | .expression _ value, _, _, t, ht => Site.named_ofExpr (by simp) value t ht
  | .print _ value, _, _, t, ht => Site.named_ofExpr (by simp) value t ht
  | .var _ name initializer, hs, _, t, ht => by
      refine Site.named_ofExpr (fun x hx => ?_) initializer t ht
      obtain rfl := Option.some.inj hx
      exact hs
  | .block _ body, hs, _, t, ht => Stmt.named_sitesAll body hs _ t ht
  | .branch _ condition positive negative, hs, a, t, ht => by
      rcases List.mem_append.mp ht with ht | ht
      · exact Site.named_ofExpr (by simp) condition t ht
      · rcases List.mem_append.mp ht with ht | ht
        · exact Stmt.named_sites positive hs.1 _ t ht
        · exact Stmt.named_sites negative hs.2 _ t ht
  | .loop _ condition body, hs, a, t, ht => by
      rcases List.mem_append.mp ht with ht | ht
      · exact Site.named_ofExpr (by simp) condition t ht
      · exact Stmt.named_sites body hs _ t ht
  | .function _ _ _ body, hs, _, t, ht => Stmt.named_sitesAll body hs _ t ht
  | .result _ keyword value, _, a, t, ht => by
      rcases List.mem_cons.mp ht with rfl | ht
      · intro x hx
        cases hx
      · exact Site.named_ofExpr (by simp) value t ht

/-- The same for statements in a row. -/
theorem Stmt.named_sitesAll : ∀ (ss : List Stmt), Stmt.NamedAll ss →
    ∀ a, ∀ t ∈ Stmt.sitesAll a ss, t.Named
  | [], _, _, _, ht => by simp [Stmt.sitesAll] at ht
  | s :: rest, hs, a, t, ht => by
      rcases List.mem_append.mp ht with ht | ht
      · exact Stmt.named_sites s hs.1 _ t ht
      · exact Stmt.named_sitesAll rest hs.2 _ t ht

end

-- ==== Reports

/-- What is reported at a site: a return that no function encloses; a variable that is read in its
own initializer, if that is a local variable, or if it is a global one that no earlier declaration of
the program defines and that is not known. -/
def Site.report? (known : Bytes → Bool) (t : Site) : Option Diagnostic :=
  match t.mark with
  | .returned keyword =>
    if t.around.inFunction then none
    else some (.atToken .resolve keyword (utf8 "Can't return from top-level code."))
  | .use u =>
    let x := u.name.lexeme
    if u.reads ∧ t.initializes = some x then
      if t.around.scopes ≠ [] then
        some (.atToken .resolve u.name
          (utf8 "Can't read local variable in its own initializer."))
      else if x ∉ t.around.globals ∧ known x = false then
        some (.atToken .resolve u.name
          (utf8 "Can't read global variable in its own initializer."))
      else none
    else none

/-- What is reported at a site is the message of the misuse that the walk finds there. -/
theorem Site.Named.report?_eq {t : Site} (h : t.Named) (known : Bytes → Bool) :
    t.report? known = (t.misuse? known).map ResolveFault.diagnostic := by
  obtain ⟨mark, around, initializes⟩ := t
  cases mark with
  | returned keyword =>
      unfold report? misuse?
      dsimp only
      split <;> rfl
  | use u =>
      unfold report? misuse?
      dsimp only
      split
      next hread =>
        have hne : u.name.lexeme ≠ [] := h _ hread.2
        simp only [ne_eq, hne, not_false_eq_true, true_and]
        split
        · rfl
        · split <;> rfl
      next => rfl

/-- For every tree whose variables have names, what is reported are the misuses at its sites, in the
order of the walk. After the walk no scope is open, and neither a function nor an initializer is
marked. -/
theorem reports_misuses (known : Bytes → Bool) (program : Program)
    (hn : Stmt.NamedAll program) :
    (resolve known program).diagnostics =
        (Program.sites program).filterMap (Site.report? known) ∧
      Marked.stmts known program .start =
        ⟨Walk.stmts known false program .start, false, none⟩ ∧
      (Walk.stmts known false program .start).scopes = [] := by
  have htells := Walk.tells_program known program
  refine ⟨?_, Marked.marked_stmts program .start false, ?_⟩
  · unfold resolve
    dsimp only
    rw [htells.faults, Walk.start, List.nil_append, List.map_filterMap]
    refine List.filterMap_congr fun t ht => ?_
    exact ((Stmt.named_sitesAll program hn _ t ht).report?_eq known).symm
  · exact List.forall₂_nil_right_iff.mp htells.stands.scopes

/-- A global variable is read in its initializer while it is new, and then when it is not. A local
one is read twice in its initializer, and a return stands in a block. -/
theorem reports_misuses_in_order :
    let name (x : String) : Token := ⟨.identifier, utf8 x, .nil, 1⟩
    let plus : Token := ⟨.plus, utf8 "+", .nil, 1⟩
    let keyword : Token := ⟨.return, utf8 "return", .nil, 2⟩
    let program : Program :=
      [.var 1 (name "x") (.ident 2 (name "x")), .var 3 (name "x") (.ident 4 (name "x")),
        .block 5 [.var 6 (name "y") (.binary 7 (.ident 8 (name "y")) plus (.ident 9 (name "y"))),
          .result 10 keyword .absent],
        .function 11 (name "f") [] [.result 12 keyword (.ident 13 (name "f"))]]
    Stmt.NamedAll program ∧
      (resolve (fun _ => false) program).diagnostics =
        [.atToken .resolve (name "x") (utf8 "Can't read global variable in its own initializer."),
          .atToken .resolve (name "y") (utf8 "Can't read local variable in its own initializer."),
          .atToken .resolve (name "y") (utf8 "Can't read local variable in its own initializer."),
          .atToken .resolve keyword (utf8 "Can't return from top-level code.")] := by
  intro name plus keyword program
  have hx : utf8 "x" ≠ [] := by decide
  have hy : utf8 "y" ≠ [] := by decide
  have hn : Stmt.NamedAll program := ⟨hx, hx, ⟨hy, trivial, trivial⟩, ⟨trivial, trivial⟩, trivial⟩
  exact ⟨hn, (reports_misuses (fun _ => false) program hn).1.trans (by decide)⟩

end Lox
