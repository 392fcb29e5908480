/-
The places in a program that the walk has something to say about.

# Sites

A site is a use of a variable or a return, together with what lies around it in the tree: the names
that the scopes around it declare before it, the names defined before it at top level, the variable
whose initializer it stands in, and whether a function encloses it. The sites of a program are
listed in the order of the walk. Nothing is opened, closed or flagged on the way: where a name
counts is read off the tree, by `Stmt.names`, which says what a statement declares in the scope it
belongs to. A bare branch or loop body belongs to the scope around it, so what is said here holds
also of trees that were not read.

What is found at a site is said by `Site.entry?`, the distance, and by `Site.misuse?`.

# The walk at a place

A walk stands at a place if its scopes define the names that the surroundings have, no more and no
less (`Walk.Stands`). In an expression it stays there and finds what there is at each use
(`finds_expr`). In an initializer one more name is declared and not yet defined, and this is the one
that may not be read (`Stands.faultAt?`).

# The induction

`tells_stmts` is the one induction over the tree: a walk that starts in given surroundings finds the
distances and the misuses of the sites in them, in order, and has come to the surroundings after the
statements. Two stretches of a walk are put together by `Tells.append`, where the second one is
surrounded by what the first one declares.
-/
import Lox.Proofs.Scope.Visit
import Mathlib.Data.List.Forall2

namespace Lox

-- ==== Uses of variables

/-- A node at which a variable is read or assigned. -/
structure Use where
  id : Nat
  name : Token
  /-- Is the variable read? If not, it is assigned. -/
  reads : Bool

mutual

/-- The uses of variables in an expression, in the order of the walk: an assignment comes after its
value. -/
def Expr.uses : Expr → List Use
  | .absent => []
  | .literal _ _ => []
  | .grouping _ inner => inner.uses
  | .unary _ _ operand => operand.uses
  | .binary _ left _ right => left.uses ++ right.uses
  | .logical _ left _ right => left.uses ++ right.uses
  | .assign id name value => value.uses ++ [⟨id, name, false⟩]
  | .ident id name => [⟨id, name, true⟩]
  | .call _ callee _ arguments => callee.uses ++ Expr.usesAll arguments

/-- The uses of variables in expressions, in order. -/
def Expr.usesAll : List Expr → List Use
  | [] => []
  | e :: rest => e.uses ++ Expr.usesAll rest

end

-- ==== Surroundings

/-- What lies around a place: the names that are declared before it, scope by scope, and whether it
is in a function. It is read off the program, without a walk. -/
structure Surroundings where
  /-- The names that each scope around the place declares before it, the innermost scope first. -/
  scopes : List (List Bytes)
  /-- The names defined before the place at top level. -/
  globals : List Bytes
  inFunction : Bool

namespace Surroundings

/-- Around a whole program. -/
def outermost : Surroundings := ⟨[], [], false⟩

/-- After declarations of names in the innermost scope, or at top level. -/
def declaring (a : Surroundings) (names : List Bytes) : Surroundings :=
  match a.scopes with
  | [] => { a with globals := a.globals ++ names }
  | inner :: outer => { a with scopes := (inner ++ names) :: outer }

/-- At the start of a new scope, which declares these names. -/
def inside (a : Surroundings) (names : List Bytes) : Surroundings :=
  { a with scopes := names :: a.scopes }

/-- At the start of the body of a function. -/
def inBody (a : Surroundings) (params : List Token) : Surroundings :=
  { a.inside (params.map (·.lexeme)) with inFunction := true }

@[simp] theorem declaring_nil (a : Surroundings) : a.declaring [] = a := by
  obtain ⟨scopes, globals, inFunction⟩ := a
  cases scopes <;> simp [declaring]

/-- Names are declared one after the other. -/
theorem declaring_append (a : Surroundings) (xs ys : List Bytes) :
    a.declaring (xs ++ ys) = (a.declaring xs).declaring ys := by
  obtain ⟨scopes, globals, inFunction⟩ := a
  cases scopes <;> simp [declaring]

@[simp] theorem declaring_inFunction (a : Surroundings) (names : List Bytes) :
    (a.declaring names).inFunction = a.inFunction := by
  unfold declaring
  split <;> rfl

end Surroundings

-- ==== Sites

/-- The names that a statement declares in the scope it belongs to. A bare branch or loop body
belongs to that scope as well. -/
def Stmt.names : Stmt → List Bytes
  | .var _ name _ => [name.lexeme]
  | .function _ name _ _ => [name.lexeme]
  | .branch _ _ positive negative => positive.names ++ negative.names
  | .loop _ _ body => body.names
  | _ => []

/-- What stands at a place: a use of a variable, or a return. -/
inductive Mark where
  | use (u : Use)
  | returned (keyword : Token)

/-- A place in a program where the walk could find something: a use of a variable, or a `return`. -/
structure Site where
  mark : Mark
  around : Surroundings
  /-- The variable whose initializer the place stands in. -/
  initializes : Option Bytes

namespace Site

/-- The names that each scope around the site declares at or before it, the innermost first. The
variable whose initializer it stands in is one of them. -/
def declared (t : Site) : List (List Bytes) := (t.around.declaring t.initializes.toList).scopes

/-- The sites of an expression. -/
def ofExpr (a : Surroundings) (initializes : Option Bytes) (e : Expr) : List Site :=
  e.uses.map fun u => ⟨.use u, a, initializes⟩

end Site

mutual

/-- The sites of a statement, in the order of the walk. Each has its own surroundings, which are
known from the statement and what lies around it. -/
def Stmt.sites (a : Surroundings) : Stmt → List Site
  | .absent => []
  | .expression _ value => Site.ofExpr a none value
  | .print _ value => Site.ofExpr a none value
  | .var _ name initializer => Site.ofExpr a (some name.lexeme) initializer
  | .block _ body => Stmt.sitesAll (a.inside []) body
  | .branch _ condition positive negative =>
    Site.ofExpr a none condition ++
      (positive.sites a ++ negative.sites (a.declaring positive.names))
  | .loop _ condition body => Site.ofExpr a none condition ++ body.sites a
  | .function _ name params body => Stmt.sitesAll ((a.declaring [name.lexeme]).inBody params) body
  | .result _ keyword value => ⟨.returned keyword, a, none⟩ :: Site.ofExpr a none value

/-- The sites of statements that stand one after the other in a scope. -/
def Stmt.sitesAll (a : Surroundings) : List Stmt → List Site
  | [] => []
  | s :: rest => s.sites a ++ Stmt.sitesAll (a.declaring s.names) rest

end

/-- The names that statements declare in the scope they belong to. -/
def Stmt.namesAll : List Stmt → List Bytes
  | [] => []
  | s :: rest => s.names ++ namesAll rest

/-- The sites of a program. -/
def Program.sites (program : Program) : List Site := Stmt.sitesAll .outermost program

-- ==== What is found at a site

namespace Site

/-- The distance of a use: how many scopes lie inside the nearest one that declares the name. -/
def entry? (t : Site) : Option (Nat × Nat) :=
  match t.mark with
  | .use u =>
    (t.declared.findIdx? fun names => u.name.lexeme ∈ names).map fun hops => (u.id, hops)
  | .returned _ => none

/-- The misuse at a site. A variable that is read in its own initializer is local if a scope lies
around it; if not, it must be new and have a name. -/
def misuse? (known : Bytes → Bool) (t : Site) : Option ResolveFault :=
  match t.mark with
  | .returned keyword => if t.around.inFunction then none else some ⟨keyword, .topLevelReturn⟩
  | .use u =>
    let x := u.name.lexeme
    if u.reads ∧ t.initializes = some x then
      if t.around.scopes ≠ [] then some ⟨u.name, .localInitializer⟩
      else if x ≠ [] ∧ x ∉ t.around.globals ∧ known x = false then
        some ⟨u.name, .globalInitializer⟩
      else none
    else none

end Site

-- ==== Scopes by their names

namespace Scope

variable {scope : Scope} {names : List Bytes} {x name : Bytes}

/-- The scope declares these names and no others. -/
def Declares (scope : Scope) (names : List Bytes) : Prop :=
  ∀ x, scope.declares x = decide (x ∈ names)

/-- The scope declares these names and no others, and all of them are defined. -/
def Defines (scope : Scope) (names : List Bytes) : Prop :=
  ∀ x, scope.lookup x = if x ∈ names then some true else none

/-- What is defined is declared. -/
theorem Defines.toDeclares (h : scope.Defines names) : scope.Declares names := by
  intro x
  show (scope.lookup x).isSome = _
  rw [h x]
  split <;> simp_all

/-- A name that is declared joins the others, defined or not. -/
theorem Declares.set (h : scope.Declares names) (name : Bytes) (d : Bool) :
    Declares (scope.set name d) (names ++ [name]) := by
  intro x
  rw [declares_set, h x]
  simp [Bool.or_comm]

/-- A name that is declared and then defined joins the others. -/
theorem Defines.set (h : scope.Defines names) (name : Bytes) (d : Bool) :
    Defines ((scope.set name d).set name true) (names ++ [name]) := by
  intro x
  rw [Table.lookup_set, Table.lookup_set, h x]
  by_cases hx : x = name <;> simp [hx]

/-- Recording a name in the innermost scope. -/
theorem declares_record {scopes : List Scope} {a : Surroundings}
    (h : List.Forall₂ Declares scopes a.scopes) (name : Bytes) (d : Bool) :
    List.Forall₂ Declares (record name d scopes) (a.declaring [name]).scopes := by
  obtain ⟨declared, globals, inFunction⟩ := a
  dsimp only at h
  cases h with
  | nil => exact .nil
  | cons hscope houter => exact .cons (hscope.set name d) houter

/-- In scopes that declare these names, the distance is to the first that has the name. -/
theorem distance?_eq {scopes : List Scope} {declared : List (List Bytes)}
    (h : List.Forall₂ Declares scopes declared) (x : Bytes) :
    distance? x scopes = declared.findIdx? fun names => x ∈ names := by
  induction h with
  | nil => rfl
  | @cons scope names outer declared hscope _ ih =>
      rw [distance?, List.findIdx?_cons, hscope x, ih]

end Scope

-- ==== Where the walk stands

namespace Walk

variable {known : Bytes → Bool} {init : Option Bytes} {inFunction : Bool}
variable {a : Surroundings} {w w₁ w₂ : Walk}

/-- The walk has come to a place with these surroundings. -/
structure Stands (w : Walk) (a : Surroundings) : Prop where
  scopes : List.Forall₂ Scope.Defines w.scopes a.scopes
  globals : ∀ x, x ∈ w.globals ↔ x ∈ a.globals

theorem Stands.start : Walk.start.Stands .outermost := ⟨.nil, fun _ => Iff.rfl⟩

/-- Only the scopes and the top-level names matter. -/
theorem Stands.congr (h : w.Stands a) (hscopes : w₁.scopes = w.scopes)
    (hglobals : w₁.globals = w.globals) : w₁.Stands a :=
  ⟨hscopes ▸ h.scopes, hglobals ▸ h.globals⟩

/-- An expression declares nothing. -/
theorem Stands.expr (h : w.Stands a) (e : Expr) : (expr known init e w).Stands a :=
  h.congr (expr_scopes e w) (expr_globals e w)

/-- A declaration that is complete. -/
theorem Stands.declared (h : w.Stands a) (name : Token) :
    ((w.declare name).define name).Stands (a.declaring [name.lexeme]) := by
  obtain ⟨scopes, globals, entries, faults⟩ := w
  obtain ⟨scopes', globals', inFunction⟩ := a
  obtain ⟨hscopes, hglobals⟩ := h
  cases hscopes with
  | nil =>
      refine ⟨.nil, fun x => ?_⟩
      have := hglobals x
      simp_all [declare, define, Surroundings.declaring, or_comm]
  | cons hscope houter => exact ⟨.cons (hscope.set name.lexeme false) houter, hglobals⟩

/-- In a block nothing is declared yet. -/
theorem Stands.inside (h : w.Stands a) : w.enter.Stands (a.inside []) :=
  ⟨.cons (fun _ => rfl) h.scopes, h.globals⟩

/-- At the start of a function, all parameters are declared. -/
theorem Stands.inBody (h : w.Stands a) (params : List Token) :
    (w.enterFunction params).Stands (a.inBody params) := by
  have key : ∀ (ps : List Token) (scope : Scope) (names : List Bytes), scope.Defines names →
      (paramScope ps scope).Defines (names ++ ps.map (·.lexeme)) := by
    intro ps
    induction ps with
    | nil => intro scope names hscope; simpa [paramScope] using hscope
    | cons p ps ih =>
        intro scope names hscope
        have := ih _ _ (hscope.set p.lexeme false)
        simpa [paramScope] using this
  refine ⟨?_, ?_⟩
  · rw [enterFunction_scopes]
    refine .cons ?_ h.scopes
    simpa using key params [] [] fun _ => rfl
  · rw [enterFunction_globals]
    exact h.globals

-- ==== What the walk over an expression finds

/-- The distance that the walk finds at a use. -/
def entryAt? (w : Walk) (u : Use) : Option (Nat × Nat) :=
  (Scope.distance? u.name.lexeme w.scopes).map fun hops => (u.id, hops)

/-- The misuse that the walk finds at a use. -/
def faultAt? (w : Walk) (known : Bytes → Bool) (init : Option Bytes) (u : Use) :
    Option ResolveFault :=
  if u.reads then (w.selfRead? known init u.name.lexeme).map fun problem => ⟨u.name, problem⟩
  else none

/-- From `w` to `w'` the walk found what there is at these uses, in order. The scopes do not change
in an expression, so all uses in it are looked up in the same ones. -/
structure Finds (known : Bytes → Bool) (init : Option Bytes) (uses : List Use) (w w' : Walk) :
    Prop where
  scopes : w'.scopes = w.scopes
  globals : w'.globals = w.globals
  entries : w'.entries = (uses.filterMap w.entryAt?).reverse ++ w.entries
  faults : w'.faults = w.faults ++ uses.filterMap (w.faultAt? known init)

theorem Finds.nil (w : Walk) : Finds known init [] w w := ⟨rfl, rfl, rfl, by simp⟩

/-- Uses are come to one after the other, with the same scopes. -/
theorem Finds.append {us vs : List Use} (h₁ : Finds known init us w w₁)
    (h₂ : Finds known init vs w₁ w₂) : Finds known init (us ++ vs) w w₂ := by
  have hentry : w₁.entryAt? = w.entryAt? := by
    funext u
    unfold entryAt?
    rw [h₁.scopes]
  have hfault : w₁.faultAt? known init = w.faultAt? known init := by
    funext u
    unfold faultAt? selfRead?
    rw [h₁.scopes, h₁.globals]
  refine ⟨h₂.scopes.trans h₁.scopes, h₂.globals.trans h₁.globals, ?_, ?_⟩
  · rw [h₂.entries, h₁.entries, hentry, List.filterMap_append, List.reverse_append,
      List.append_assoc]
  · rw [h₂.faults, h₁.faults, hfault, List.filterMap_append, List.append_assoc]

/-- At a read the walk finds a distance, and a misuse if there is one. -/
theorem finds_read (w : Walk) (id : Nat) (name : Token) :
    Finds known init [⟨id, name, true⟩] w ((w.checkRead known init name).locate id name) := by
  unfold locate checkRead
  cases hs : w.selfRead? known init name.lexeme <;>
    cases hd : Scope.distance? name.lexeme w.scopes <;>
      constructor <;> simp [note, hd, hs, entryAt?, faultAt?]

/-- At an assignment the walk finds a distance. -/
theorem finds_assigned (w : Walk) (id : Nat) (name : Token) :
    Finds known init [⟨id, name, false⟩] w (w.locate id name) := by
  unfold locate
  cases hd : Scope.distance? name.lexeme w.scopes <;>
    constructor <;> simp [hd, entryAt?, faultAt?]

mutual

/-- An expression is walked over use by use. -/
theorem finds_expr : ∀ (e : Expr) (w : Walk), Finds known init e.uses w (expr known init e w)
  | .absent, w => .nil w
  | .literal _ _, w => .nil w
  | .grouping _ inner, w => finds_expr inner w
  | .unary _ _ operand, w => finds_expr operand w
  | .binary _ left _ right, w => (finds_expr left w).append (finds_expr right _)
  | .logical _ left _ right, w => (finds_expr left w).append (finds_expr right _)
  | .assign id name value, w => (finds_expr value w).append (finds_assigned _ id name)
  | .ident id name, w => finds_read w id name
  | .call _ callee _ arguments, w => (finds_expr callee w).append (finds_exprs arguments _)

/-- The same for expressions in a row. -/
theorem finds_exprs : ∀ (es : List Expr) (w : Walk),
    Finds known init (Expr.usesAll es) w (exprs known init es w)
  | [], w => .nil w
  | e :: rest, w => (finds_expr e w).append (finds_exprs rest _)

end

-- ==== What the walk over statements finds

/-- From `w` to `w'` the walk found what there is at these sites, in order, and passed declarations
of these names in the scope around them. -/
structure Tells (known : Bytes → Bool) (a : Surroundings) (sites : List Site) (names : List Bytes)
    (w w' : Walk) : Prop where
  stands : w'.Stands (a.declaring names)
  entries : w'.entries = (sites.filterMap Site.entry?).reverse ++ w.entries
  faults : w'.faults = w.faults ++ sites.filterMap (Site.misuse? known)

/-- Where nothing is walked over, nothing is found. -/
theorem Tells.nil (h : w.Stands a) : Tells known a [] [] w w :=
  ⟨by rwa [Surroundings.declaring_nil], rfl, by simp⟩

/-- What stands after declarations of names is surrounded by them. -/
theorem Tells.append {sites more : List Site} {names others : List Bytes}
    (h₁ : Tells known a sites names w w₁)
    (h₂ : Tells known (a.declaring names) more others w₁ w₂) :
    Tells known a (sites ++ more) (names ++ others) w w₂ := by
  refine ⟨?_, ?_, ?_⟩
  · rw [Surroundings.declaring_append]
    exact h₂.stands
  · rw [h₂.entries, h₁.entries, List.filterMap_append, List.reverse_append, List.append_assoc]
  · rw [h₂.faults, h₁.faults, List.filterMap_append, List.append_assoc]

/-- Outside of initializers no variable is declared and not yet defined. -/
theorem Stands.selfRead? (h : w.Stands a) (x : Bytes) : w.selfRead? known none x = none := by
  unfold Walk.selfRead?
  cases hs : w.scopes with
  | nil => simp
  | cons scope outer =>
      have hscopes := h.scopes
      rw [hs, List.forall₂_cons_left_iff] at hscopes
      obtain ⟨names, outer', hscope, -, -⟩ := hscopes
      simp [hscope x]

/-- The distances at uses, where the scopes declare what is declared at or before them. -/
theorem entryAt?_eq {init : Option Bytes}
    (h : List.Forall₂ Scope.Declares w.scopes (a.declaring init.toList).scopes) :
    w.entryAt? = Site.entry? ∘ fun u => ⟨.use u, a, init⟩ := by
  funext u
  simp only [entryAt?, Function.comp, Site.entry?, Site.declared, Scope.distance?_eq h]

/-- An expression that initializes no variable. -/
theorem tells_expr (h : w.Stands a) (e : Expr) :
    Tells known a (Site.ofExpr a none e) [] w (expr known none e w) := by
  have hfinds : Finds known none e.uses w (expr known none e w) := finds_expr e w
  have hdeclares : List.Forall₂ Scope.Declares w.scopes
      (a.declaring (none : Option Bytes).toList).scopes := by
    rw [Option.toList_none, Surroundings.declaring_nil]
    exact h.scopes.imp fun _ _ => Scope.Defines.toDeclares
  have hfault : w.faultAt? known none = Site.misuse? known ∘ fun u => ⟨.use u, a, none⟩ := by
    funext u
    simp [faultAt?, Site.misuse?, h.selfRead?]
  refine ⟨?_, ?_, ?_⟩
  · rw [Surroundings.declaring_nil]
    exact h.expr e
  · rw [hfinds.entries, entryAt?_eq hdeclares, Site.ofExpr, List.filterMap_map]
  · rw [hfinds.faults, hfault, Site.ofExpr, List.filterMap_map]

/-- What comes after such an expression. -/
theorem tells_after (h : w.Stands a) (e : Expr) {sites : List Site} {names : List Bytes}
    (hrest : Tells known a sites names (expr known none e w) w₁) :
    Tells known a (Site.ofExpr a none e ++ sites) names w w₁ := by
  have hexpr : Tells known a (Site.ofExpr a none e) [] w (expr known none e w) := tells_expr h e
  rw [← a.declaring_nil] at hrest
  exact hexpr.append hrest

theorem declare_faults (w : Walk) (name : Token) : (w.declare name).faults = w.faults := by
  unfold declare
  split <;> rfl

theorem define_faults (w : Walk) (name : Token) : (w.define name).faults = w.faults := by
  unfold define
  split <;> rfl

/-- In the initializer of a variable only that variable is declared and not yet defined. So a read
there is a misuse just if it is of this variable: in a scope always, and at top level if it was not
global before. -/
theorem Stands.faultAt? (h : w.Stands a) (name : Token) :
    (w.declare name).faultAt? known (if w.scopes.isEmpty then some name.lexeme else none) =
      Site.misuse? known ∘ fun u => ⟨.use u, a, some name.lexeme⟩ := by
  funext u
  obtain ⟨scopes, globals, entries, faults⟩ := w
  obtain ⟨scopes', globals', inFunction⟩ := a
  obtain ⟨hscopes, hglobals⟩ := h
  dsimp only at hscopes hglobals
  cases hscopes with
  | nil =>
      by_cases hx : name.lexeme = u.name.lexeme <;> cases hr : u.reads <;>
        simp [Walk.faultAt?, Walk.selfRead?, declare, Site.misuse?, hr, hx, hglobals, apply_ite]
  | @cons scope names outer outer' hscope houter =>
      have hlookup : (Table.set name.lexeme false scope).lookup u.name.lexeme = some false ↔
          name.lexeme = u.name.lexeme := by
        rw [Table.lookup_set, hscope]
        by_cases hx : u.name.lexeme = name.lexeme
        · simp [hx]
        · simp [hx, Ne.symm hx]
      cases hr : u.reads <;>
        simp [Walk.faultAt?, Walk.selfRead?, declare, Site.misuse?, hr, hlookup, apply_ite]

/-- A variable is declared before its initializer and defined after it. -/
theorem tells_var (h : w.Stands a) (id : Nat) (name : Token) (initializer : Expr) :
    Tells known a (Site.ofExpr a (some name.lexeme) initializer) [name.lexeme] w
      (stmt known inFunction (.var id name initializer) w) := by
  have hdeclares : List.Forall₂ Scope.Declares (w.declare name).scopes
      (a.declaring (some name.lexeme).toList).scopes := by
    rw [declare_scopes]
    exact Scope.declares_record (h.scopes.imp fun _ _ => Scope.Defines.toDeclares) _ _
  have hfinds : Finds known (if w.scopes.isEmpty then some name.lexeme else none) initializer.uses
      (w.declare name) _ := finds_expr initializer (w.declare name)
  rw [stmt]
  refine ⟨?_, ?_, ?_⟩
  · refine (h.declared name).congr ?_ ?_
    · rw [define_scopes, define_scopes, hfinds.scopes]
    · rw [define_globals, define_globals, hfinds.scopes, hfinds.globals]
  · rw [define_entries, hfinds.entries, entryAt?_eq hdeclares, declare_entries, Site.ofExpr,
      List.filterMap_map]
  · rw [define_faults, hfinds.faults, h.faultAt? name, declare_faults, Site.ofExpr,
      List.filterMap_map]

/-- When a scope is closed, the surroundings are those around it. -/
theorem Stands.leave {b : Surroundings} {names : List Bytes} (h : w.Stands b)
    (hscopes : b.scopes = names :: a.scopes) (hglobals : b.globals = a.globals) :
    w.leave.Stands a := by
  have hall := h.scopes
  rw [hscopes, List.forall₂_cons_right_iff] at hall
  obtain ⟨scope, outer, -, houter, hw⟩ := hall
  refine ⟨?_, hglobals ▸ h.globals⟩
  rw [leave_scopes, hw]
  exact houter

mutual

/-- A statement is walked over site by site. What the walk adds, distances and misuses, is what the
sites of the statement say in their surroundings, in order; and the walk is left in the surroundings
after the statement. -/
theorem tells_stmt : ∀ (s : Stmt) (a : Surroundings) (w : Walk), w.Stands a →
    Tells known a (s.sites a) s.names w (stmt known a.inFunction s w)
  | .absent, a, w, h => .nil h
  | .expression _ value, a, w, h => tells_expr h value
  | .print _ value, a, w, h => tells_expr h value
  | .var id name initializer, a, w, h => tells_var h id name initializer
  | .block _ body, a, w, h => by
      have hbody := tells_stmts body (a.inside []) w.enter h.inside
      refine ⟨?_, hbody.entries, hbody.faults⟩
      show Stands _ (a.declaring [])
      rw [Surroundings.declaring_nil]
      exact hbody.stands.leave rfl rfl
  | .branch _ condition positive negative, a, w, h => by
      have hstands : (expr known none condition w).Stands a := h.expr condition
      have hpositive := tells_stmt positive a _ hstands
      have hnegative := tells_stmt negative _ _ hpositive.stands
      rw [Surroundings.declaring_inFunction] at hnegative
      exact tells_after h condition (hpositive.append hnegative)
  | .loop _ condition body, a, w, h => by
      have hstands : (expr known none condition w).Stands a := h.expr condition
      exact tells_after h condition (tells_stmt body a _ hstands)
  | .function _ name params body, a, w, h => by
      have hbody := tells_stmts body _ _ ((h.declared name).inBody params)
      rw [enterFunction_eq] at hbody
      rw [stmt, enterFunction_eq]
      refine ⟨hbody.stands.leave rfl rfl, hbody.entries.trans ?_, hbody.faults.trans ?_⟩
      · rw [define_entries, declare_entries, Stmt.sites]
      · rw [define_faults, declare_faults, Stmt.sites]
  | .result _ keyword value, a, w, h => by
      have hvalue : ∀ w₁ : Walk, w₁.Stands a → Tells known a (Site.ofExpr a none value) [] w₁ _ :=
        fun w₁ h₁ => tells_expr h₁ value
      rw [stmt, Stmt.sites]
      cases hin : a.inFunction with
      | true =>
          have hout := hvalue w h
          exact ⟨hout.stands, hout.entries, by simpa [Site.misuse?, hin] using hout.faults⟩
      | false =>
          have hout := hvalue (w.note keyword .topLevelReturn) (h.congr rfl rfl)
          refine ⟨hout.stands, hout.entries, hout.faults.trans ?_⟩
          simp [Site.misuse?, hin, note]

/-- Statements are walked over site by site. -/
theorem tells_stmts : ∀ (ss : List Stmt) (a : Surroundings) (w : Walk), w.Stands a →
    Tells known a (Stmt.sitesAll a ss) (Stmt.namesAll ss) w (stmts known a.inFunction ss w)
  | [], a, w, h => .nil h
  | s :: rest, a, w, h => by
      have hfirst := tells_stmt s a w h
      have hrest := tells_stmts rest (a.declaring s.names) _ hfirst.stands
      rw [Surroundings.declaring_inFunction] at hrest
      exact hfirst.append hrest

end

/-- A whole program is walked over site by site. -/
theorem tells_program (known : Bytes → Bool) (program : Program) :
    Tells known .outermost (Program.sites program) (Stmt.namesAll program) start
      (stmts known false program start) :=
  tells_stmts program .outermost start .start

end Walk

end Lox
