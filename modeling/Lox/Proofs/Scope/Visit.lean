/-
The visits of a walk.

# Visits

A visit is the walk coming to one node of an expression, with the scopes that are open there. The
visits of a program are listed by functions that go through it exactly as the walk does, so they
have the identities of the program's nodes (`stmtsVisits_ids`), and with distinct identities a node
is visited once (`Visit.eq_of_id`). A function's body is gone over once, where it stands, however
often it is called later.

# What the walk does at its visits

All that the walk finds, it finds at its visits. `along_expr` says of each visit in an expression
how it lies in the walk over the expression, and `amid_stmts` of each visit in statements how it
lies in the walk over those: what is found at the node is kept to the end. Both are inductions over
the tree, with one case for the node itself and one for each of its parts. In statements the scopes
are opened and closed around a visit, so less is said there: the scopes of the visit are those at
the start of its statement, up to the one name that the statement declares.

# Distances

`entries_stmts` says the converse, that each distance was found at a visit (`Traced`), by the same
induction: what an expression adds to the distances is what is found at uses of names
(`mem_locate`), and declarations add nothing.
-/
import Lox.Proofs.Scope.Walk

namespace Lox

/-- The walk coming to a node. It is kept with all that the walk knows there, so that what the
machine does at the node can be compared with it later. -/
structure Visit where
  node : Expr
  /-- The globals that existed before the program. -/
  known : Bytes → Bool
  /-- The top-level variable whose initializer the node belongs to. -/
  initializing : Option Bytes
  /-- The walk as it came to the statement that the node stands in. -/
  before : Walk
  /-- The walk as it came to the node. -/
  walk : Walk

namespace Walk

-- ==== Listing the visits

section

variable (known : Bytes → Bool) (init : Option Bytes) (before : Walk)

mutual

/-- The visits of an expression, each node before its children. -/
def exprVisits : Expr → Walk → List Visit
  | .absent, _ => []
  | .literal id value, w => [⟨.literal id value, known, init, before, w⟩]
  | .grouping id inner, w =>
    ⟨.grouping id inner, known, init, before, w⟩ :: exprVisits inner w
  | .unary id operator operand, w =>
    ⟨.unary id operator operand, known, init, before, w⟩ :: exprVisits operand w
  | .binary id left operator right, w =>
    ⟨.binary id left operator right, known, init, before, w⟩ ::
      (exprVisits left w ++ exprVisits right (expr known init left w))
  | .logical id left operator right, w =>
    ⟨.logical id left operator right, known, init, before, w⟩ ::
      (exprVisits left w ++ exprVisits right (expr known init left w))
  | .assign id name value, w =>
    ⟨.assign id name value, known, init, before, w⟩ :: exprVisits value w
  | .ident id name, w => [⟨.ident id name, known, init, before, w⟩]
  | .call id callee paren arguments, w =>
    ⟨.call id callee paren arguments, known, init, before, w⟩ ::
      (exprVisits callee w ++ exprsVisits arguments (expr known init callee w))

/-- The visits of expressions, in order. -/
def exprsVisits : List Expr → Walk → List Visit
  | [], _ => []
  | e :: rest, w => exprVisits e w ++ exprsVisits rest (expr known init e w)

end

end

section

variable (known : Bytes → Bool)

mutual

/-- The visits of a statement: of each expression in it, in the order that the walk goes over them,
and with the walk as it is there. An initializer is visited with its variable declared. -/
def stmtVisits (inFunction : Bool) : Stmt → Walk → List Visit
  | .absent, _ => []
  | .expression _ value, w => exprVisits known none w value w
  | .print _ value, w => exprVisits known none w value w
  | .var _ name initializer, w =>
    exprVisits known (if w.scopes.isEmpty then some name.lexeme else none) w initializer
      (w.declare name)
  | .block _ body, w => stmtsVisits inFunction body w.enter
  | .branch _ condition positive negative, w =>
    exprVisits known none w condition w ++
      (stmtVisits inFunction positive (expr known none condition w) ++
        stmtVisits inFunction negative
          (stmt known inFunction positive (expr known none condition w)))
  | .loop _ condition body, w =>
    exprVisits known none w condition w ++
      stmtVisits inFunction body (expr known none condition w)
  | .function _ name params body, w =>
    stmtsVisits true body (((w.declare name).define name).enterFunction params)
  | .result _ keyword value, w =>
    exprVisits known none w value (if inFunction then w else w.note keyword .topLevelReturn)

/-- The visits of statements, in order. -/
def stmtsVisits (inFunction : Bool) : List Stmt → Walk → List Visit
  | [], _ => []
  | s :: rest, w =>
    stmtVisits inFunction s w ++ stmtsVisits inFunction rest (stmt known inFunction s w)

end

end

/-- The visits of a whole program. -/
def visits (known : Bytes → Bool) (program : Program) : List Visit :=
  stmtsVisits known false program start

end Walk

-- ==== Identities of visits

namespace Visit

/-- The identities of the nodes that were visited. -/
def ids (vs : List Visit) : List Nat := vs.filterMap (·.node.id?)

@[simp] theorem ids_append (vs us : List Visit) : ids (vs ++ us) = ids vs ++ ids us :=
  List.filterMap_append

/-- A visit of a node that has an identity. -/
theorem ids_cons {v : Visit} {i : Nat} (h : v.node.id? = some i) (vs : List Visit) :
    ids (v :: vs) = i :: ids vs :=
  List.filterMap_cons_some h

/-- The identity of a node that was visited. -/
theorem mem_ids {vs : List Visit} {v : Visit} {i : Nat} (hv : v ∈ vs) (hi : v.node.id? = some i) :
    i ∈ ids vs :=
  List.mem_filterMap.mpr ⟨v, hv, hi⟩

/-- With distinct identities, a node is visited once. -/
theorem eq_of_id {vs : List Visit} (hn : (ids vs).Nodup) {v u : Visit} {i : Nat} (hv : v ∈ vs)
    (hu : u ∈ vs) (hvi : v.node.id? = some i) (hui : u.node.id? = some i) : v = u := by
  induction vs with
  | nil => simp at hv
  | cons x vs ih =>
      have hx : (ids (x :: vs)).Nodup → x.node.id? = some i → i ∉ ids vs := by
        intro hn hxi
        rw [ids_cons hxi] at hn
        exact (List.nodup_cons.mp hn).1
      have htail : (ids vs).Nodup := by
        refine hn.sublist ?_
        exact (List.sublist_cons_self x vs).filterMap _
      rcases List.mem_cons.mp hv with rfl | hv'
      · rcases List.mem_cons.mp hu with rfl | hu'
        · rfl
        · exact absurd (mem_ids hu' hui) (hx hn hvi)
      · rcases List.mem_cons.mp hu with rfl | hu'
        · exact absurd (mem_ids hv' hvi) (hx hn hui)
        · exact ih htail hv' hu'

end Visit

namespace Walk

variable {known : Bytes → Bool} {init : Option Bytes} {before : Walk} {inFunction : Bool}

mutual

/-- The visits of an expression have the identities of its nodes, in the same order: each node is
visited once. -/
theorem exprVisits_ids : ∀ (e : Expr) (w : Walk),
    Visit.ids (exprVisits known init before e w) = e.ids
  | .absent, _ => rfl
  | .literal _ _, _ => rfl
  | .grouping _ inner, w => by
      rw [exprVisits, Visit.ids_cons rfl, exprVisits_ids inner, Expr.ids]
  | .unary _ _ operand, w => by
      rw [exprVisits, Visit.ids_cons rfl, exprVisits_ids operand, Expr.ids]
  | .binary _ left _ right, w => by
      rw [exprVisits, Visit.ids_cons rfl, Visit.ids_append, exprVisits_ids left,
        exprVisits_ids right, Expr.ids]
  | .logical _ left _ right, w => by
      rw [exprVisits, Visit.ids_cons rfl, Visit.ids_append, exprVisits_ids left,
        exprVisits_ids right, Expr.ids]
  | .assign _ _ value, w => by
      rw [exprVisits, Visit.ids_cons rfl, exprVisits_ids value, Expr.ids]
  | .ident _ _, _ => rfl
  | .call _ callee _ arguments, w => by
      rw [exprVisits, Visit.ids_cons rfl, Visit.ids_append, exprVisits_ids callee,
        exprsVisits_ids arguments, Expr.ids]

/-- The same for expressions in a row. -/
theorem exprsVisits_ids : ∀ (es : List Expr) (w : Walk),
    Visit.ids (exprsVisits known init before es w) = Expr.idsAll es
  | [], _ => rfl
  | e :: rest, w => by
      rw [exprsVisits, Visit.ids_append, Expr.idsAll, exprVisits_ids e, exprsVisits_ids rest]

end

mutual

/-- The visits of a statement have identities of its nodes. Statements themselves are not visited,
so theirs are left out. -/
theorem stmtVisits_ids : ∀ (s : Stmt) (inFunction : Bool) (w : Walk),
    (Visit.ids (stmtVisits known inFunction s w)).Sublist s.ids
  | .absent, _, _ => List.Sublist.refl _
  | .expression _ value, _, w => by
      rw [stmtVisits, exprVisits_ids, Stmt.ids]
      exact List.sublist_cons_self _ _
  | .print _ value, _, w => by
      rw [stmtVisits, exprVisits_ids, Stmt.ids]
      exact List.sublist_cons_self _ _
  | .var _ _ initializer, _, w => by
      rw [stmtVisits, exprVisits_ids, Stmt.ids]
      exact List.sublist_cons_self _ _
  | .block _ body, inFunction, w => (stmtsVisits_ids body inFunction _).cons _
  | .branch _ condition positive negative, inFunction, w => by
      rw [stmtVisits, Visit.ids_append, Visit.ids_append, exprVisits_ids, Stmt.ids]
      have h := (stmtVisits_ids positive inFunction (expr known none condition w)).append
        (stmtVisits_ids negative inFunction
          (stmt known inFunction positive (expr known none condition w)))
      exact (h.append_left _).cons _
  | .loop _ condition body, inFunction, w => by
      rw [stmtVisits, Visit.ids_append, exprVisits_ids, Stmt.ids]
      exact ((stmtVisits_ids body inFunction _).append_left _).cons _
  | .function _ _ _ body, inFunction, w => (stmtsVisits_ids body true _).cons _
  | .result _ _ value, _, w => by
      rw [stmtVisits, exprVisits_ids, Stmt.ids]
      exact List.sublist_cons_self _ _

/-- The same for statements in a row. -/
theorem stmtsVisits_ids : ∀ (ss : List Stmt) (inFunction : Bool) (w : Walk),
    (Visit.ids (stmtsVisits known inFunction ss w)).Sublist (Stmt.idsAll ss)
  | [], _, _ => List.Sublist.refl _
  | s :: rest, inFunction, w => by
      rw [stmtsVisits, Visit.ids_append, Stmt.idsAll]
      exact (stmtVisits_ids s inFunction w).append (stmtsVisits_ids rest inFunction _)

end

end Walk

-- ==== What the walk does at its visits

/-- The visit belongs to a walk over an expression that begins as `w` and ends as `w'`: the walk had
come from `w` to the node, and went on from the node to `w'`. -/
structure Visit.Along (v : Visit) (known : Bytes → Bool) (init : Option Bytes) (before w w' : Walk) :
    Prop where
  known_eq : v.known = known
  initializing_eq : v.initializing = init
  before_eq : v.before = before
  comes : Walk.Adds w v.walk
  goes : Walk.Adds (Walk.expr known init v.node v.walk) w'

/-- The walk over an expression may be part of a longer one. -/
theorem Visit.Along.mono {v : Visit} {known : Bytes → Bool} {init : Option Bytes}
    {before w₀ w w' w₁ : Walk} (h : v.Along known init before w w') (h₀ : Walk.Adds w₀ w)
    (h₁ : Walk.Adds w' w₁) : v.Along known init before w₀ w₁ :=
  ⟨h.known_eq, h.initializing_eq, h.before_eq, h₀.trans h.comes, h.goes.trans h₁⟩

namespace Walk

variable {known : Bytes → Bool} {init : Option Bytes} {before : Walk} {inFunction : Bool}

/-- The visit of an expression's own node. -/
theorem along_self (e : Expr) (w : Walk) :
    Visit.Along ⟨e, known, init, before, w⟩ known init before w (expr known init e w) :=
  ⟨rfl, rfl, rfl, .refl w, .refl _⟩

mutual

/-- Each visit of an expression lies in the walk over it: the walk comes to it from `w`, and goes on
from it to the end of the expression. The scopes do not change on the way. -/
theorem along_expr : ∀ (e : Expr) (w : Walk) (v : Visit), v ∈ exprVisits known init before e w →
    v.Along known init before w (expr known init e w)
  | .absent, _, _, hv => by simp [exprVisits] at hv
  | .literal id value, w, v, hv => by
      obtain rfl := List.mem_singleton.mp hv
      exact along_self _ w
  | .grouping id inner, w, v, hv => by
      rcases List.mem_cons.mp hv with rfl | hv
      · exact along_self _ w
      · exact along_expr inner w v hv
  | .unary id operator operand, w, v, hv => by
      rcases List.mem_cons.mp hv with rfl | hv
      · exact along_self _ w
      · exact along_expr operand w v hv
  | .binary id left operator right, w, v, hv => by
      rcases List.mem_cons.mp hv with rfl | hv
      · exact along_self _ w
      · rcases List.mem_append.mp hv with hv | hv
        · exact (along_expr left w v hv).mono (.refl _) (expr_adds right _)
        · exact (along_expr right _ v hv).mono (expr_adds left w) (.refl _)
  | .logical id left operator right, w, v, hv => by
      rcases List.mem_cons.mp hv with rfl | hv
      · exact along_self _ w
      · rcases List.mem_append.mp hv with hv | hv
        · exact (along_expr left w v hv).mono (.refl _) (expr_adds right _)
        · exact (along_expr right _ v hv).mono (expr_adds left w) (.refl _)
  | .assign id name value, w, v, hv => by
      rcases List.mem_cons.mp hv with rfl | hv
      · exact along_self _ w
      · exact (along_expr value w v hv).mono (.refl _) (locate_adds ..)
  | .ident id name, w, v, hv => by
      obtain rfl := List.mem_singleton.mp hv
      exact along_self _ w
  | .call id callee paren arguments, w, v, hv => by
      rcases List.mem_cons.mp hv with rfl | hv
      · exact along_self _ w
      · rcases List.mem_append.mp hv with hv | hv
        · exact (along_expr callee w v hv).mono (.refl _) (exprs_adds arguments _)
        · exact (along_exprs arguments _ v hv).mono (expr_adds callee w) (.refl _)

/-- The same for expressions in a row. -/
theorem along_exprs : ∀ (es : List Expr) (w : Walk) (v : Visit),
    v ∈ exprsVisits known init before es w → v.Along known init before w (exprs known init es w)
  | [], _, _, hv => by simp [exprsVisits] at hv
  | e :: rest, w, v, hv => by
      rcases List.mem_append.mp hv with hv | hv
      · exact (along_expr e w v hv).mono (.refl _) (exprs_adds rest _)
      · exact (along_exprs rest _ v hv).mono (expr_adds e w) (.refl _)

end

end Walk

/-- The visit belongs to a walk over statements that ends as `w'`. Only at top level is a variable
known to be in the making, and the scopes differ from those before the statement only by the name
that it declares. -/
structure Visit.Amid (v : Visit) (known : Bytes → Bool) (w' : Walk) : Prop where
  known_eq : v.known = known
  goes : Walk.Grows (Walk.expr known v.initializing v.node v.walk) w'
  outermost : ∀ x, v.initializing = some x → v.walk.scopes = [] ∧ x ≠ []
  opening : v.walk.scopes = v.before.scopes ∨
    ∃ name, v.walk.scopes = Scope.record name false v.before.scopes

/-- The walk may go on. -/
theorem Visit.Amid.mono {v : Visit} {known : Bytes → Bool} {w' w₁ : Walk} (h : v.Amid known w')
    (h₁ : Walk.Grows w' w₁) : v.Amid known w₁ :=
  ⟨h.known_eq, h.goes.trans h₁, h.outermost, h.opening⟩

/-- An expression that initializes no variable. -/
theorem Visit.Along.amid {v : Visit} {known : Bytes → Bool} {before w w' : Walk}
    (h : v.Along known none before w w') (hw : w.scopes = before.scopes) : v.Amid known w' where
  known_eq := h.known_eq
  goes := by rw [h.initializing_eq]; exact h.goes.toGrows
  outermost x hx := by simp [h.initializing_eq] at hx
  opening := .inl (by rw [h.comes.scopes, hw, h.before_eq])

namespace Walk

variable {known : Bytes → Bool} {init : Option Bytes} {before : Walk} {inFunction : Bool}

mutual

/-- Each visit of a statement lies in the walk over it. How the walk came to it is not said, since
scopes are entered on the way; but what was found at it is kept, and at most one name more is
declared there than before the statement. -/
theorem amid_stmt : ∀ (s : Stmt), s.Formed → ∀ (inFunction : Bool) (w : Walk) (v : Visit),
    v ∈ stmtVisits known inFunction s w → v.Amid known (stmt known inFunction s w)
  | .absent, _, _, _, _, hv => by simp [stmtVisits] at hv
  | .expression _ value, _, _, w, v, hv => (along_expr value w v hv).amid rfl
  | .print _ value, _, _, w, v, hv => (along_expr value w v hv).amid rfl
  | .var _ name initializer, hf, _, w, v, hv => by
      have h := along_expr initializer (w.declare name) v hv
      refine ⟨h.known_eq, ?_, fun x hx => ?_, .inr ⟨name.lexeme, ?_⟩⟩
      · rw [h.initializing_eq]
        exact h.goes.toGrows.trans (define_grows _ name)
      · rw [h.initializing_eq] at hx
        split at hx
        next hempty =>
          obtain rfl := Option.some.inj hx
          refine ⟨?_, hf⟩
          rw [h.comes.scopes, declare_scopes, List.isEmpty_iff.mp hempty]
          rfl
        next => simp at hx
      · rw [h.comes.scopes, declare_scopes, h.before_eq]
  | .block _ body, hf, inFunction, w, v, hv => by
      have h := amid_stmts body hf inFunction w.enter v hv
      exact h.mono ⟨List.suffix_refl _, List.prefix_refl _⟩
  | .branch _ condition positive negative, hf, inFunction, w, v, hv => by
      rcases List.mem_append.mp hv with hv | hv
      · exact ((along_expr condition w v hv).amid rfl).mono
          ((stmt_grows positive inFunction _).trans (stmt_grows negative inFunction _))
      · rcases List.mem_append.mp hv with hv | hv
        · exact (amid_stmt positive hf.1 inFunction _ v hv).mono (stmt_grows negative inFunction _)
        · exact amid_stmt negative hf.2.1 inFunction _ v hv
  | .loop _ condition body, hf, inFunction, w, v, hv => by
      rcases List.mem_append.mp hv with hv | hv
      · exact ((along_expr condition w v hv).amid rfl).mono (stmt_grows body inFunction _)
      · exact amid_stmt body hf.1 inFunction _ v hv
  | .function _ name params body, hf, _, w, v, hv => by
      have h := amid_stmts body hf true _ v hv
      exact h.mono ⟨List.suffix_refl _, List.prefix_refl _⟩
  | .result _ _ value, _, inFunction, w, v, hv => by
      refine (along_expr value _ v hv).amid ?_
      cases inFunction <;> rfl

/-- The same for statements in a row. -/
theorem amid_stmts : ∀ (ss : List Stmt), Stmt.FormedAll ss → ∀ (inFunction : Bool) (w : Walk)
    (v : Visit), v ∈ stmtsVisits known inFunction ss w → v.Amid known (stmts known inFunction ss w)
  | [], _, _, _, _, hv => by simp [stmtsVisits] at hv
  | s :: rest, hf, inFunction, w, v, hv => by
      rcases List.mem_append.mp hv with hv | hv
      · exact (amid_stmt s hf.1 inFunction w v hv).mono (stmts_grows rest inFunction _)
      · exact amid_stmts rest hf.2 inFunction _ v hv

end

end Walk

-- ==== Distances

/-- The distance that the walk finds at a visit, with the identity of the node. -/
def Visit.entry? (v : Visit) : Option (Nat × Nat) :=
  match v.node.use? with
  | some (id, name) => (Scope.distance? name.lexeme v.walk.scopes).map fun hops => (id, hops)
  | none => none

namespace Walk

variable {known : Bytes → Bool} {init : Option Bytes} {before : Walk} {inFunction : Bool}

/-- What a use of a name adds to the distances. -/
theorem mem_locate {w : Walk} {id : Nat} {name : Token} {p : Nat × Nat} :
    p ∈ (w.locate id name).entries ↔
      (Scope.distance? name.lexeme w.scopes).map (fun hops => (id, hops)) = some p ∨
        p ∈ w.entries := by
  unfold locate
  cases Scope.distance? name.lexeme w.scopes with
  | none => simp
  | some hops => simp [eq_comm]

/-- The distance found at a visit is recorded there. -/
theorem mem_entries_self {v : Visit} {p : Nat × Nat} (h : v.entry? = some p) :
    p ∈ (expr known init v.node v.walk).entries := by
  obtain ⟨node, known', initializing, before, w⟩ := v
  cases node with
  | assign id name value =>
      refine mem_locate.mpr (.inl ?_)
      rw [expr_scopes]
      exact h
  | ident id name =>
      refine mem_locate.mpr (.inl ?_)
      rw [(checkRead_adds w name).scopes]
      exact h
  | _ => simp [Visit.entry?, Expr.use?] at h

/-- A distance that was found before or at one of the visits. -/
def Traced (w : Walk) (vs : List Visit) (p : Nat × Nat) : Prop :=
  p ∈ w.entries ∨ ∃ v ∈ vs, v.entry? = some p

/-- What was found between two walks joins what was found before. -/
theorem Traced.append {w w₁ : Walk} {vs us : List Visit} {p : Nat × Nat} (h : Traced w₁ us p)
    (h₁ : p ∈ w₁.entries → Traced w vs p) : Traced w (vs ++ us) p := by
  rcases h with h | ⟨u, hu, hp⟩
  · rcases h₁ h with h | ⟨v, hv, hp⟩
    · exact .inl h
    · exact .inr ⟨v, List.mem_append_left _ hv, hp⟩
  · exact .inr ⟨u, List.mem_append_right _ hu, hp⟩

/-- There may be a further visit. -/
theorem Traced.cons {w : Walk} {vs : List Visit} {p : Nat × Nat} (h : Traced w vs p) (v : Visit) :
    Traced w (v :: vs) p :=
  h.imp_right fun ⟨u, hu, hp⟩ => ⟨u, List.mem_cons_of_mem v hu, hp⟩

/-- Only the distances found before matter. -/
theorem Traced.rebase {w w₁ : Walk} {vs : List Visit} {p : Nat × Nat} (h : Traced w₁ vs p)
    (heq : w₁.entries = w.entries) : Traced w vs p :=
  h.imp_left fun h => heq ▸ h

mutual

/-- Each distance that an expression adds was found at one of its visits. They are recorded for
names and for assignments, in the scopes that the visit has. -/
theorem entries_expr : ∀ (e : Expr) (w : Walk) (p : Nat × Nat),
    p ∈ (expr known init e w).entries → Traced w (exprVisits known init before e w) p
  | .absent, _, _, h => .inl h
  | .literal _ _, _, _, h => .inl h
  | .grouping _ inner, w, p, h => (entries_expr inner w p h).cons _
  | .unary _ _ operand, w, p, h => (entries_expr operand w p h).cons _
  | .binary _ left _ right, w, p, h =>
      ((entries_expr right _ p h).append (entries_expr left w p)).cons _
  | .logical _ left _ right, w, p, h =>
      ((entries_expr right _ p h).append (entries_expr left w p)).cons _
  | .assign id name value, w, p, h => by
      rcases mem_locate.mp h with h | h
      · rw [expr_scopes] at h
        exact .inr ⟨_, List.mem_cons_self, h⟩
      · exact (entries_expr value w p h).cons _
  | .ident id name, w, p, h => by
      rcases mem_locate.mp h with h | h
      · rw [(checkRead_adds w name).scopes] at h
        exact .inr ⟨_, List.mem_cons_self, h⟩
      · refine .inl ?_
        unfold checkRead at h
        split at h <;> exact h
  | .call _ callee _ arguments, w, p, h =>
      ((entries_exprs arguments _ p h).append (entries_expr callee w p)).cons _

/-- The same for expressions in a row. -/
theorem entries_exprs : ∀ (es : List Expr) (w : Walk) (p : Nat × Nat),
    p ∈ (exprs known init es w).entries → Traced w (exprsVisits known init before es w) p
  | [], _, _, h => .inl h
  | e :: rest, w, p, h => (entries_exprs rest _ p h).append (entries_expr e w p)

end

/-- A declaration adds no distance. -/
theorem declare_entries (w : Walk) (name : Token) : (w.declare name).entries = w.entries := by
  unfold declare
  split <;> rfl

/-- Nor does a definition. -/
theorem define_entries (w : Walk) (name : Token) : (w.define name).entries = w.entries := by
  unfold define
  split <;> rfl

mutual

/-- Each distance that a statement adds was found at one of its visits. Declaring and defining names
adds none. -/
theorem entries_stmt : ∀ (s : Stmt) (inFunction : Bool) (w : Walk) (p : Nat × Nat),
    p ∈ (stmt known inFunction s w).entries → Traced w (stmtVisits known inFunction s w) p
  | .absent, _, _, _, h => .inl h
  | .expression _ value, _, w, p, h => entries_expr value w p h
  | .print _ value, _, w, p, h => entries_expr value w p h
  | .var _ name initializer, _, w, p, h => by
      rw [stmt, define_entries] at h
      exact (entries_expr initializer (w.declare name) p h).rebase (declare_entries w name)
  | .block _ body, inFunction, w, p, h => entries_stmts body inFunction w.enter p h
  | .branch _ condition positive negative, inFunction, w, p, h => by
      rw [stmtVisits, ← List.append_assoc]
      exact (entries_stmt negative inFunction _ p h).append fun h' =>
        (entries_stmt positive inFunction _ p h').append (entries_expr condition w p)
  | .loop _ condition body, inFunction, w, p, h =>
      (entries_stmt body inFunction _ p h).append (entries_expr condition w p)
  | .function _ name params body, _, w, p, h => by
      refine (entries_stmts body true _ p h).rebase ?_
      rw [enterFunction_eq]
      exact (define_entries _ name).trans (declare_entries w name)
  | .result _ keyword value, inFunction, w, p, h => by
      refine (entries_expr value _ p h).rebase ?_
      cases inFunction <;> rfl

/-- The same for statements in a row. -/
theorem entries_stmts : ∀ (ss : List Stmt) (inFunction : Bool) (w : Walk) (p : Nat × Nat),
    p ∈ (stmts known inFunction ss w).entries → Traced w (stmtsVisits known inFunction ss w) p
  | [], _, _, _, h => .inl h
  | s :: rest, inFunction, w, p, h =>
      (entries_stmts rest inFunction _ p h).append (entries_stmt s inFunction w p)

end

end Walk

end Lox
