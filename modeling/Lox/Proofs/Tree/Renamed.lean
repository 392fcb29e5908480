/-
Trees with other identities.

The identities of nodes are taken from a counter as a tree is read, so what the same script is read
as depends on how many were taken before. Nothing that a program does depends on them otherwise, and
this is said by comparing a tree with the same tree under other identities.

# Renaming

`Expr.renamed g` and `Stmt.renamed g` put `g id` in the place of every identity. They are the same
where `g` is the same on the identities of the tree (`renamed_congr`), so that one function can
serve for two trees whose identities lie apart. Renaming with nothing changed gives the tree again
(`renamed_id`), and renaming twice is renaming once (`renamed_renamed`). All of these are by
induction over the tree, with one case for each form of node.

# Forgetting

`bare` puts the same number in the place of all identities, and two trees that differ in nothing
else are then equal. Identities that have been given anew before make no difference to it
(`bare_renamed`).
-/
import Lox.Proofs.Tree.Identity

namespace Lox

-- ==== Renaming

mutual

/-- The expression with `g` applied to the identity of each node. -/
def Expr.renamed (g : Nat → Nat) : Expr → Expr
  | .absent => .absent
  | .literal id value => .literal (g id) value
  | .grouping id inner => .grouping (g id) (inner.renamed g)
  | .unary id operator operand => .unary (g id) operator (operand.renamed g)
  | .binary id left operator right => .binary (g id) (left.renamed g) operator (right.renamed g)
  | .logical id left operator right => .logical (g id) (left.renamed g) operator (right.renamed g)
  | .assign id name value => .assign (g id) name (value.renamed g)
  | .ident id name => .ident (g id) name
  | .call id callee paren arguments =>
    .call (g id) (callee.renamed g) paren (Expr.renamedAll g arguments)

/-- All of the expressions, renamed. -/
def Expr.renamedAll (g : Nat → Nat) : List Expr → List Expr
  | [] => []
  | e :: rest => e.renamed g :: Expr.renamedAll g rest

end

mutual

/-- The statement with `g` applied to the identity of each node. -/
def Stmt.renamed (g : Nat → Nat) : Stmt → Stmt
  | .absent => .absent
  | .expression id value => .expression (g id) (value.renamed g)
  | .print id value => .print (g id) (value.renamed g)
  | .var id name initializer => .var (g id) name (initializer.renamed g)
  | .block id body => .block (g id) (Stmt.renamedAll g body)
  | .branch id condition positive negative =>
    .branch (g id) (condition.renamed g) (positive.renamed g) (negative.renamed g)
  | .loop id condition body => .loop (g id) (condition.renamed g) (body.renamed g)
  | .function id name params body => .function (g id) name params (Stmt.renamedAll g body)
  | .result id keyword value => .result (g id) keyword (value.renamed g)

/-- All of the statements, renamed. -/
def Stmt.renamedAll (g : Nat → Nat) : List Stmt → List Stmt
  | [] => []
  | s :: rest => s.renamed g :: Stmt.renamedAll g rest

end

variable {f g : Nat → Nat}

@[simp] theorem Expr.renamedAll_append (es fs : List Expr) :
    Expr.renamedAll g (es ++ fs) = Expr.renamedAll g es ++ Expr.renamedAll g fs := by
  induction es with
  | nil => rfl
  | cons e es ih => simp only [List.cons_append, Expr.renamedAll, ih]

@[simp] theorem Expr.length_renamedAll (es : List Expr) :
    (Expr.renamedAll g es).length = es.length := by
  induction es with
  | nil => rfl
  | cons e es ih => simp only [Expr.renamedAll, List.length_cons, ih]

@[simp] theorem Stmt.length_renamedAll (ss : List Stmt) :
    (Stmt.renamedAll g ss).length = ss.length := by
  induction ss with
  | nil => rfl
  | cons s ss ih => simp only [Stmt.renamedAll, List.length_cons, ih]

@[simp] theorem Expr.isAbsent_renamed (e : Expr) : (e.renamed g).isAbsent = e.isAbsent := by
  cases e <;> rfl

@[simp] theorem Stmt.isAbsent_renamed (s : Stmt) : (s.renamed g).isAbsent = s.isAbsent := by
  cases s <;> rfl

-- ==== Renaming alike

mutual

/-- Only what becomes of the identities in the tree matters, by induction over it. So a renaming
that leaves them as they are leaves the tree as it is. -/
theorem Expr.renamed_congr (e : Expr) (h : ∀ i ∈ e.ids, f i = g i) : e.renamed f = e.renamed g := by
  cases e with
  | absent => rfl
  | literal id value => simp only [Expr.renamed, h id (by simp [Expr.ids])]
  | grouping id inner =>
      simp only [Expr.ids, List.forall_mem_cons] at h
      simp only [Expr.renamed, h.1, inner.renamed_congr h.2]
  | unary id operator operand =>
      simp only [Expr.ids, List.forall_mem_cons] at h
      simp only [Expr.renamed, h.1, operand.renamed_congr h.2]
  | binary id left operator right =>
      simp only [Expr.ids, List.forall_mem_cons, List.forall_mem_append] at h
      simp only [Expr.renamed, h.1, left.renamed_congr h.2.1, right.renamed_congr h.2.2]
  | logical id left operator right =>
      simp only [Expr.ids, List.forall_mem_cons, List.forall_mem_append] at h
      simp only [Expr.renamed, h.1, left.renamed_congr h.2.1, right.renamed_congr h.2.2]
  | assign id name value =>
      simp only [Expr.ids, List.forall_mem_cons] at h
      simp only [Expr.renamed, h.1, value.renamed_congr h.2]
  | ident id name => simp only [Expr.renamed, h id (by simp [Expr.ids])]
  | call id callee paren arguments =>
      simp only [Expr.ids, List.forall_mem_cons, List.forall_mem_append] at h
      simp only [Expr.renamed, h.1, callee.renamed_congr h.2.1,
        Expr.renamedAll_congr arguments h.2.2]

/-- The same for expressions in a row. -/
theorem Expr.renamedAll_congr (es : List Expr) (h : ∀ i ∈ Expr.idsAll es, f i = g i) :
    Expr.renamedAll f es = Expr.renamedAll g es := by
  cases es with
  | nil => rfl
  | cons e rest =>
      simp only [Expr.idsAll, List.forall_mem_append] at h
      simp only [Expr.renamedAll, e.renamed_congr h.1, Expr.renamedAll_congr rest h.2]

end

mutual

/-- Only what becomes of the identities in the statement matters, those of its expressions
included. -/
theorem Stmt.renamed_congr (s : Stmt) (h : ∀ i ∈ s.ids, f i = g i) : s.renamed f = s.renamed g := by
  cases s with
  | absent => rfl
  | expression id value =>
      simp only [Stmt.ids, List.forall_mem_cons] at h
      simp only [Stmt.renamed, h.1, value.renamed_congr h.2]
  | print id value =>
      simp only [Stmt.ids, List.forall_mem_cons] at h
      simp only [Stmt.renamed, h.1, value.renamed_congr h.2]
  | var id name initializer =>
      simp only [Stmt.ids, List.forall_mem_cons] at h
      simp only [Stmt.renamed, h.1, initializer.renamed_congr h.2]
  | block id body =>
      simp only [Stmt.ids, List.forall_mem_cons] at h
      simp only [Stmt.renamed, h.1, Stmt.renamedAll_congr body h.2]
  | branch id condition positive negative =>
      simp only [Stmt.ids, List.forall_mem_cons, List.forall_mem_append] at h
      simp only [Stmt.renamed, h.1, condition.renamed_congr h.2.1, positive.renamed_congr h.2.2.1,
        negative.renamed_congr h.2.2.2]
  | loop id condition body =>
      simp only [Stmt.ids, List.forall_mem_cons, List.forall_mem_append] at h
      simp only [Stmt.renamed, h.1, condition.renamed_congr h.2.1, body.renamed_congr h.2.2]
  | function id name params body =>
      simp only [Stmt.ids, List.forall_mem_cons] at h
      simp only [Stmt.renamed, h.1, Stmt.renamedAll_congr body h.2]
  | result id keyword value =>
      simp only [Stmt.ids, List.forall_mem_cons] at h
      simp only [Stmt.renamed, h.1, value.renamed_congr h.2]

/-- The same for statements in a row. -/
theorem Stmt.renamedAll_congr (ss : List Stmt) (h : ∀ i ∈ Stmt.idsAll ss, f i = g i) :
    Stmt.renamedAll f ss = Stmt.renamedAll g ss := by
  cases ss with
  | nil => rfl
  | cons s rest =>
      simp only [Stmt.idsAll, List.forall_mem_append] at h
      simp only [Stmt.renamedAll, s.renamed_congr h.1, Stmt.renamedAll_congr rest h.2]

end

mutual

/-- Where every identity stays, so does the expression. -/
@[simp] theorem Expr.renamed_id (e : Expr) : e.renamed id = e := by
  cases e with
  | absent => rfl
  | literal id value => rfl
  | grouping id inner => simp only [Expr.renamed, id_eq, inner.renamed_id]
  | unary id operator operand => simp only [Expr.renamed, id_eq, operand.renamed_id]
  | binary id left operator right =>
      simp only [Expr.renamed, id_eq, left.renamed_id, right.renamed_id]
  | logical id left operator right =>
      simp only [Expr.renamed, id_eq, left.renamed_id, right.renamed_id]
  | assign id name value => simp only [Expr.renamed, id_eq, value.renamed_id]
  | ident id name => rfl
  | call id callee paren arguments =>
      simp only [Expr.renamed, id_eq, callee.renamed_id, Expr.renamedAll_id arguments]

@[simp] theorem Expr.renamedAll_id (es : List Expr) : Expr.renamedAll id es = es := by
  cases es with
  | nil => rfl
  | cons e rest => simp only [Expr.renamedAll, e.renamed_id, Expr.renamedAll_id rest]

end

mutual

/-- Where every identity stays, so does the statement. -/
@[simp] theorem Stmt.renamed_id (s : Stmt) : s.renamed id = s := by
  cases s with
  | absent => rfl
  | expression id value => simp only [Stmt.renamed, id_eq, value.renamed_id]
  | print id value => simp only [Stmt.renamed, id_eq, value.renamed_id]
  | var id name initializer => simp only [Stmt.renamed, id_eq, initializer.renamed_id]
  | block id body => simp only [Stmt.renamed, id_eq, Stmt.renamedAll_id body]
  | branch id condition positive negative =>
      simp only [Stmt.renamed, id_eq, condition.renamed_id, positive.renamed_id,
        negative.renamed_id]
  | loop id condition body => simp only [Stmt.renamed, id_eq, condition.renamed_id, body.renamed_id]
  | function id name params body => simp only [Stmt.renamed, id_eq, Stmt.renamedAll_id body]
  | result id keyword value => simp only [Stmt.renamed, id_eq, value.renamed_id]

@[simp] theorem Stmt.renamedAll_id (ss : List Stmt) : Stmt.renamedAll id ss = ss := by
  cases ss with
  | nil => rfl
  | cons s rest => simp only [Stmt.renamedAll, s.renamed_id, Stmt.renamedAll_id rest]

end

-- ==== Renaming twice

mutual

/-- Renaming twice is renaming once, with one function after the other. -/
theorem Expr.renamed_renamed (e : Expr) : (e.renamed f).renamed g = e.renamed fun i => g (f i) := by
  cases e with
  | absent => rfl
  | literal id value => rfl
  | grouping id inner => simp only [Expr.renamed, inner.renamed_renamed]
  | unary id operator operand => simp only [Expr.renamed, operand.renamed_renamed]
  | binary id left operator right =>
      simp only [Expr.renamed, left.renamed_renamed, right.renamed_renamed]
  | logical id left operator right =>
      simp only [Expr.renamed, left.renamed_renamed, right.renamed_renamed]
  | assign id name value => simp only [Expr.renamed, value.renamed_renamed]
  | ident id name => rfl
  | call id callee paren arguments =>
      simp only [Expr.renamed, callee.renamed_renamed, Expr.renamedAll_renamedAll arguments]

/-- The same for expressions in a row. -/
theorem Expr.renamedAll_renamedAll (es : List Expr) :
    Expr.renamedAll g (Expr.renamedAll f es) = Expr.renamedAll (fun i => g (f i)) es := by
  cases es with
  | nil => rfl
  | cons e rest => simp only [Expr.renamedAll, e.renamed_renamed, Expr.renamedAll_renamedAll rest]

end

mutual

/-- Renaming a statement twice is renaming it once. -/
theorem Stmt.renamed_renamed (s : Stmt) : (s.renamed f).renamed g = s.renamed fun i => g (f i) := by
  cases s with
  | absent => rfl
  | expression id value => simp only [Stmt.renamed, value.renamed_renamed]
  | print id value => simp only [Stmt.renamed, value.renamed_renamed]
  | var id name initializer => simp only [Stmt.renamed, initializer.renamed_renamed]
  | block id body => simp only [Stmt.renamed, Stmt.renamedAll_renamedAll body]
  | branch id condition positive negative =>
      simp only [Stmt.renamed, condition.renamed_renamed, positive.renamed_renamed,
        negative.renamed_renamed]
  | loop id condition body =>
      simp only [Stmt.renamed, condition.renamed_renamed, body.renamed_renamed]
  | function id name params body => simp only [Stmt.renamed, Stmt.renamedAll_renamedAll body]
  | result id keyword value => simp only [Stmt.renamed, value.renamed_renamed]

/-- The same for statements in a row. -/
theorem Stmt.renamedAll_renamedAll (ss : List Stmt) :
    Stmt.renamedAll g (Stmt.renamedAll f ss) = Stmt.renamedAll (fun i => g (f i)) ss := by
  cases ss with
  | nil => rfl
  | cons s rest => simp only [Stmt.renamedAll, s.renamed_renamed, Stmt.renamedAll_renamedAll rest]

end

-- ==== Forgetting the identities

/-- The expression without its identities. -/
def Expr.bare (e : Expr) : Expr := e.renamed fun _ => 0

/-- The expressions without their identities. -/
def Expr.bareAll (es : List Expr) : List Expr := Expr.renamedAll (fun _ => 0) es

/-- The statement without its identities. -/
def Stmt.bare (s : Stmt) : Stmt := s.renamed fun _ => 0

/-- The statements without their identities. -/
def Stmt.bareAll (ss : List Stmt) : List Stmt := Stmt.renamedAll (fun _ => 0) ss

/-- It does not matter that identities have been given anew before they are forgotten. -/
theorem Expr.bare_renamed (e : Expr) : (e.renamed g).bare = e.bare := e.renamed_renamed

/-- The same for a statement. -/
theorem Stmt.bare_renamed (s : Stmt) : (s.renamed g).bare = s.bare := s.renamed_renamed

/-- Whether there is a statement can be told without its identities. -/
theorem Stmt.isAbsent_of_bare {st st' : Stmt} (h : st'.bare = st.bare) :
    st'.isAbsent = st.isAbsent := by
  rw [← Stmt.isAbsent_renamed st', ← Stmt.bare, h, Stmt.bare, Stmt.isAbsent_renamed]

/-- Whether there is an expression can be told without its identities. -/
theorem Expr.isAbsent_of_bare {e e' : Expr} (h : e'.bare = e.bare) : e'.isAbsent = e.isAbsent := by
  rw [← Expr.isAbsent_renamed e', ← Expr.bare, h, Expr.bare, Expr.isAbsent_renamed]

end Lox
