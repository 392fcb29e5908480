/-
Trees whose tokens stand on other lines.

A tree read as part of a longer script has the tokens of the tree read alone, each moved down by as
many lines as stand before it. Faults name the line of a token, so what a program does depends on
where its tokens stand, and this is how trees at different places are compared.

`Expr.moved f` and `Stmt.moved f` move every token by the number that `f` gives the node it belongs
to, so that one map covers a program whose parts were moved by different amounts: a part is told by
the identities of its nodes. Two maps that agree on the identities in a tree move it alike
(`moved_congr`), by induction over the tree, and the map that gives nought everywhere leaves it as
it is (`moved_unmoved`).
-/
import Lox.Proofs.Token.Join
import Lox.Proofs.Tree.Identity

namespace Lox

-- ==== Moving the tokens of a tree

mutual

/-- The expression with the tokens of each node moved by what `f` gives for the node. Constants and
groups keep no token, and stay as they are. -/
def Expr.moved (f : Nat → Int) : Expr → Expr
  | .absent => .absent
  | .literal id value => .literal id value
  | .grouping id inner => .grouping id (inner.moved f)
  | .unary id operator operand => .unary id (operator.moved (f id)) (operand.moved f)
  | .binary id left operator right =>
    .binary id (left.moved f) (operator.moved (f id)) (right.moved f)
  | .logical id left operator right =>
    .logical id (left.moved f) (operator.moved (f id)) (right.moved f)
  | .assign id name value => .assign id (name.moved (f id)) (value.moved f)
  | .ident id name => .ident id (name.moved (f id))
  | .call id callee paren arguments =>
    .call id (callee.moved f) (paren.moved (f id)) (Expr.movedAll f arguments)

/-- All of the expressions, moved. -/
def Expr.movedAll (f : Nat → Int) : List Expr → List Expr
  | [] => []
  | e :: rest => e.moved f :: Expr.movedAll f rest

end

mutual

/-- The statement with the tokens of each node moved by what `f` gives for the node. -/
def Stmt.moved (f : Nat → Int) : Stmt → Stmt
  | .absent => .absent
  | .expression id value => .expression id (value.moved f)
  | .print id value => .print id (value.moved f)
  | .var id name initializer => .var id (name.moved (f id)) (initializer.moved f)
  | .block id body => .block id (Stmt.movedAll f body)
  | .branch id condition positive negative =>
    .branch id (condition.moved f) (positive.moved f) (negative.moved f)
  | .loop id condition body => .loop id (condition.moved f) (body.moved f)
  | .function id name params body =>
    .function id (name.moved (f id)) (params.map (Token.moved (f id))) (Stmt.movedAll f body)
  | .result id keyword value => .result id (keyword.moved (f id)) (value.moved f)

/-- All of the statements, moved. -/
def Stmt.movedAll (f : Nat → Int) : List Stmt → List Stmt
  | [] => []
  | s :: rest => s.moved f :: Stmt.movedAll f rest

end

variable {f g : Nat → Int}

/-- Expressions in a row, of two lists. -/
@[simp] theorem Expr.movedAll_append (es fs : List Expr) :
    Expr.movedAll f (es ++ fs) = Expr.movedAll f es ++ Expr.movedAll f fs := by
  induction es with
  | nil => rfl
  | cons e es ih => simp only [List.cons_append, Expr.movedAll, ih]

theorem Expr.length_movedAll (es : List Expr) : (Expr.movedAll f es).length = es.length := by
  induction es with
  | nil => rfl
  | cons e es ih => rw [Expr.movedAll, List.length_cons, List.length_cons, ih]

@[simp] theorem Expr.isAbsent_moved (e : Expr) : (e.moved f).isAbsent = e.isAbsent := by
  cases e <;> rfl

@[simp] theorem Stmt.isAbsent_moved (s : Stmt) : (s.moved f).isAbsent = s.isAbsent := by
  cases s <;> rfl

-- ==== Only the nodes of the tree matter

mutual

/-- Only what the map gives for the nodes of the tree matters, by induction over it. So the parts of
a program may be moved by different amounts. -/
theorem Expr.moved_congr (e : Expr) (h : ∀ i ∈ e.ids, f i = g i) : e.moved f = e.moved g := by
  cases e with
  | absent => rfl
  | literal id value => rfl
  | grouping id inner =>
      simp only [Expr.ids, List.forall_mem_cons] at h
      simp only [Expr.moved, inner.moved_congr h.2]
  | unary id operator operand =>
      simp only [Expr.ids, List.forall_mem_cons] at h
      simp only [Expr.moved, h.1, operand.moved_congr h.2]
  | binary id left operator right =>
      simp only [Expr.ids, List.forall_mem_cons, List.forall_mem_append] at h
      simp only [Expr.moved, h.1, left.moved_congr h.2.1, right.moved_congr h.2.2]
  | logical id left operator right =>
      simp only [Expr.ids, List.forall_mem_cons, List.forall_mem_append] at h
      simp only [Expr.moved, h.1, left.moved_congr h.2.1, right.moved_congr h.2.2]
  | assign id name value =>
      simp only [Expr.ids, List.forall_mem_cons] at h
      simp only [Expr.moved, h.1, value.moved_congr h.2]
  | ident id name =>
      simp only [Expr.moved, h id (by simp [Expr.ids])]
  | call id callee paren arguments =>
      simp only [Expr.ids, List.forall_mem_cons, List.forall_mem_append] at h
      simp only [Expr.moved, h.1, callee.moved_congr h.2.1,
        Expr.movedAll_congr arguments h.2.2]

/-- The same for expressions in a row. -/
theorem Expr.movedAll_congr (es : List Expr) (h : ∀ i ∈ Expr.idsAll es, f i = g i) :
    Expr.movedAll f es = Expr.movedAll g es := by
  cases es with
  | nil => rfl
  | cons e rest =>
      simp only [Expr.idsAll, List.forall_mem_append] at h
      simp only [Expr.movedAll, e.moved_congr h.1, Expr.movedAll_congr rest h.2]

end

mutual

/-- Only what the map gives for the nodes of the statement matters, the nodes of its expressions
included. -/
theorem Stmt.moved_congr (s : Stmt) (h : ∀ i ∈ s.ids, f i = g i) : s.moved f = s.moved g := by
  cases s with
  | absent => rfl
  | expression id value =>
      simp only [Stmt.ids, List.forall_mem_cons] at h
      simp only [Stmt.moved, value.moved_congr h.2]
  | print id value =>
      simp only [Stmt.ids, List.forall_mem_cons] at h
      simp only [Stmt.moved, value.moved_congr h.2]
  | var id name initializer =>
      simp only [Stmt.ids, List.forall_mem_cons] at h
      simp only [Stmt.moved, h.1, initializer.moved_congr h.2]
  | block id body =>
      simp only [Stmt.ids, List.forall_mem_cons] at h
      simp only [Stmt.moved, Stmt.movedAll_congr body h.2]
  | branch id condition positive negative =>
      simp only [Stmt.ids, List.forall_mem_cons, List.forall_mem_append] at h
      simp only [Stmt.moved, condition.moved_congr h.2.1, positive.moved_congr h.2.2.1,
        negative.moved_congr h.2.2.2]
  | loop id condition body =>
      simp only [Stmt.ids, List.forall_mem_cons, List.forall_mem_append] at h
      simp only [Stmt.moved, condition.moved_congr h.2.1, body.moved_congr h.2.2]
  | function id name params body =>
      simp only [Stmt.ids, List.forall_mem_cons] at h
      simp only [Stmt.moved, h.1, Stmt.movedAll_congr body h.2]
  | result id keyword value =>
      simp only [Stmt.ids, List.forall_mem_cons] at h
      simp only [Stmt.moved, h.1, value.moved_congr h.2]

/-- The same for statements in a row. -/
theorem Stmt.movedAll_congr (ss : List Stmt) (h : ∀ i ∈ Stmt.idsAll ss, f i = g i) :
    Stmt.movedAll f ss = Stmt.movedAll g ss := by
  cases ss with
  | nil => rfl
  | cons s rest =>
      simp only [Stmt.idsAll, List.forall_mem_append] at h
      simp only [Stmt.movedAll, s.moved_congr h.1, Stmt.movedAll_congr rest h.2]

end

-- ==== Moving nothing

/-- The offset that leaves every token where it is. -/
def unmoved (_ : Nat) : Int := 0

mutual

/-- An expression that is not moved is the same. -/
@[simp] theorem Expr.moved_unmoved (e : Expr) : e.moved unmoved = e := by
  cases e with
  | absent => rfl
  | literal id value => rfl
  | grouping id inner => simp only [Expr.moved, inner.moved_unmoved]
  | unary id operator operand =>
      simp only [Expr.moved, unmoved, Token.moved_zero, operand.moved_unmoved]
  | binary id left operator right =>
      simp only [Expr.moved, unmoved, Token.moved_zero, left.moved_unmoved, right.moved_unmoved]
  | logical id left operator right =>
      simp only [Expr.moved, unmoved, Token.moved_zero, left.moved_unmoved, right.moved_unmoved]
  | assign id name value =>
      simp only [Expr.moved, unmoved, Token.moved_zero, value.moved_unmoved]
  | ident id name => simp only [Expr.moved, unmoved, Token.moved_zero]
  | call id callee paren arguments =>
      simp only [Expr.moved, unmoved, Token.moved_zero, callee.moved_unmoved,
        Expr.movedAll_unmoved arguments]

@[simp] theorem Expr.movedAll_unmoved (es : List Expr) : Expr.movedAll unmoved es = es := by
  cases es with
  | nil => rfl
  | cons e rest => simp only [Expr.movedAll, e.moved_unmoved, Expr.movedAll_unmoved rest]

end

/-- Nor are tokens in a row changed. -/
theorem Token.map_moved_zero (ts : List Token) : ts.map (Token.moved 0) = ts := by
  rw [List.map_congr_left fun t _ => t.moved_zero, List.map_id']

mutual

/-- A statement that is not moved is the same. -/
@[simp] theorem Stmt.moved_unmoved (s : Stmt) : s.moved unmoved = s := by
  cases s with
  | absent => rfl
  | expression id value => simp only [Stmt.moved, value.moved_unmoved]
  | print id value => simp only [Stmt.moved, value.moved_unmoved]
  | var id name initializer =>
      simp only [Stmt.moved, unmoved, Token.moved_zero, initializer.moved_unmoved]
  | block id body => simp only [Stmt.moved, Stmt.movedAll_unmoved body]
  | branch id condition positive negative =>
      simp only [Stmt.moved, condition.moved_unmoved, positive.moved_unmoved,
        negative.moved_unmoved]
  | loop id condition body =>
      simp only [Stmt.moved, condition.moved_unmoved, body.moved_unmoved]
  | function id name params body =>
      simp only [Stmt.moved, unmoved, Token.moved_zero, Token.map_moved_zero,
        Stmt.movedAll_unmoved body]
  | result id keyword value =>
      simp only [Stmt.moved, unmoved, Token.moved_zero, value.moved_unmoved]

@[simp] theorem Stmt.movedAll_unmoved (ss : List Stmt) : Stmt.movedAll unmoved ss = ss := by
  cases ss with
  | nil => rfl
  | cons s rest => simp only [Stmt.movedAll, s.moved_unmoved, Stmt.movedAll_unmoved rest]

end

end Lox
