/-
Trees that differ by blocks around single statements.

# Blocks that make no difference

Of two ways to write a loop with simpler statements, one may put a block around a statement where
the other has the statement alone. `Stmt.Padded s s'` says that `s'` is `s` with such blocks added,
as many as one likes and wherever one likes, and with any identities: it has a constructor for each
form of statement, and one for a block around a statement (`Padded.wrap`). A block may only be put
around a statement that adds no name to the scope it is carried out in (`Stmt.Plain`), since the
name would end with the block. Expressions hold no statements, so there is nothing to add to them,
and two expressions are related if they differ in identities alone (`Expr.Like`).

# Scopes

A block that is added brings a scope in which nothing is declared. `Spread` says of two stacks of
scopes that the second is the first with empty scopes put in, and `Level` that none of these is the
innermost, which is how it is between statements: there a name is declared in the same scope on both
sides.
-/
import Lox.Proofs.Tree.Identity

namespace Lox

-- ==== Expressions

mutual

/-- The expressions differ in nothing but identities. There are no blocks in an expression, so none
can be added. -/
inductive Expr.Like : Expr → Expr → Prop where
  | absent : Expr.Like .absent .absent
  | literal (id id' : Nat) (value : Literal) : Expr.Like (.literal id value) (.literal id' value)
  | grouping (id id' : Nat) {e e' : Expr} (inner : Expr.Like e e') :
      Expr.Like (.grouping id e) (.grouping id' e')
  | unary (id id' : Nat) (operator : Token) {e e' : Expr} (operand : Expr.Like e e') :
      Expr.Like (.unary id operator e) (.unary id' operator e')
  | binary (id id' : Nat) (operator : Token) {e e' f f' : Expr} (left : Expr.Like e e')
      (right : Expr.Like f f') : Expr.Like (.binary id e operator f) (.binary id' e' operator f')
  | logical (id id' : Nat) (operator : Token) {e e' f f' : Expr} (left : Expr.Like e e')
      (right : Expr.Like f f') : Expr.Like (.logical id e operator f) (.logical id' e' operator f')
  | assign (id id' : Nat) (name : Token) {e e' : Expr} (value : Expr.Like e e') :
      Expr.Like (.assign id name e) (.assign id' name e')
  | ident (id id' : Nat) (name : Token) : Expr.Like (.ident id name) (.ident id' name)
  | call (id id' : Nat) (paren : Token) {e e' : Expr} {es es' : List Expr}
      (callee : Expr.Like e e') (arguments : Expr.LikeAll es es') :
      Expr.Like (.call id e paren es) (.call id' e' paren es')

/-- All of the expressions differ in nothing but identities. -/
inductive Expr.LikeAll : List Expr → List Expr → Prop where
  | nil : Expr.LikeAll [] []
  | cons {e e' : Expr} {es es' : List Expr} (first : Expr.Like e e') (rest : Expr.LikeAll es es') :
      Expr.LikeAll (e :: es) (e' :: es')

end

mutual

/-- Every expression is like itself. -/
theorem Expr.Like.refl : ∀ e : Expr, e.Like e
  | .absent => .absent
  | .literal id value => .literal id id value
  | .grouping id inner => .grouping id id (Expr.Like.refl inner)
  | .unary id operator operand => .unary id id operator (Expr.Like.refl operand)
  | .binary id left operator right =>
      .binary id id operator (Expr.Like.refl left) (Expr.Like.refl right)
  | .logical id left operator right =>
      .logical id id operator (Expr.Like.refl left) (Expr.Like.refl right)
  | .assign id name value => .assign id id name (Expr.Like.refl value)
  | .ident id name => .ident id id name
  | .call id callee paren arguments =>
      .call id id paren (Expr.Like.refl callee) (Expr.LikeAll.refl arguments)

theorem Expr.LikeAll.refl : ∀ es : List Expr, Expr.LikeAll es es
  | [] => .nil
  | e :: es => .cons (Expr.Like.refl e) (Expr.LikeAll.refl es)

end

/-- Expressions in a row, of two lists. -/
theorem Expr.LikeAll.append {es es' fs fs' : List Expr} (h : Expr.LikeAll es es')
    (k : Expr.LikeAll fs fs') : Expr.LikeAll (es ++ fs) (es' ++ fs') := by
  induction es generalizing es' with
  | nil =>
      cases h
      exact k
  | cons e es ih =>
      cases h with
      | cons first rest => exact .cons first (ih rest)

/-- There are as many of them on both sides. -/
theorem Expr.LikeAll.length_eq {es es' : List Expr} (h : Expr.LikeAll es es') :
    es'.length = es.length := by
  induction es generalizing es' with
  | nil =>
      cases h
      rfl
  | cons e es ih =>
      cases h with
      | cons first rest => rw [List.length_cons, List.length_cons, ih rest]

/-- Where an expression is left out on one side, it is on the other. -/
theorem Expr.Like.isAbsent_eq {e e' : Expr} (h : e.Like e') : e'.isAbsent = e.isAbsent := by
  cases h <;> rfl

-- ==== Statements

/-- The statement adds no name to the scope in which it is carried out. What is declared in a block
inside it does not count. -/
def Stmt.Plain : Stmt → Prop
  | .var _ _ _ => False
  | .function _ _ _ _ => False
  | .branch _ _ positive negative => positive.Plain ∧ negative.Plain
  | .loop _ _ body => body.Plain
  | _ => True

/-- A statement that adds no name declares none. -/
theorem Stmt.Plain.declared? {s : Stmt} (h : s.Plain) : s.declared? = none := by
  cases s with
  | var id name initializer => exact h.elim
  | function id name params body => exact h.elim
  | _ => rfl

mutual

/-- The second statement is the first with blocks added around statements in it. Statements that are
wrapped declare nothing, since a declaration in a block would not be seen outside; identities need
not be the same. -/
inductive Stmt.Padded : Stmt → Stmt → Prop where
  | absent : Stmt.Padded .absent .absent
  | expression (id id' : Nat) {e e' : Expr} (value : e.Like e') :
      Stmt.Padded (.expression id e) (.expression id' e')
  | print (id id' : Nat) {e e' : Expr} (value : e.Like e') :
      Stmt.Padded (.print id e) (.print id' e')
  | var (id id' : Nat) (name : Token) {e e' : Expr} (initializer : e.Like e') :
      Stmt.Padded (.var id name e) (.var id' name e')
  | block (id id' : Nat) {ss ss' : List Stmt} (body : Stmt.PaddedAll ss ss') :
      Stmt.Padded (.block id ss) (.block id' ss')
  | branch (id id' : Nat) {e e' : Expr} {s s' t t' : Stmt} (condition : e.Like e')
      (positive : Stmt.Padded s s') (negative : Stmt.Padded t t') :
      Stmt.Padded (.branch id e s t) (.branch id' e' s' t')
  | loop (id id' : Nat) {e e' : Expr} {s s' : Stmt} (condition : e.Like e')
      (body : Stmt.Padded s s') : Stmt.Padded (.loop id e s) (.loop id' e' s')
  | function (id id' : Nat) (name : Token) (params : List Token) {ss ss' : List Stmt}
      (body : Stmt.PaddedAll ss ss') :
      Stmt.Padded (.function id name params ss) (.function id' name params ss')
  | result (id id' : Nat) (keyword : Token) {e e' : Expr} (value : e.Like e') :
      Stmt.Padded (.result id keyword e) (.result id' keyword e')
  /-- A block around a statement. -/
  | wrap (id : Nat) {s s' : Stmt} (plain : s.Plain) (inner : Stmt.Padded s s') :
      Stmt.Padded s (.block id [s'])

/-- The second statements are the first ones with blocks added. -/
inductive Stmt.PaddedAll : List Stmt → List Stmt → Prop where
  | nil : Stmt.PaddedAll [] []
  | cons {s s' : Stmt} {ss ss' : List Stmt} (first : Stmt.Padded s s')
      (rest : Stmt.PaddedAll ss ss') : Stmt.PaddedAll (s :: ss) (s' :: ss')

end

mutual

/-- No block need be added. -/
theorem Stmt.Padded.refl : ∀ s : Stmt, s.Padded s
  | .absent => .absent
  | .expression id value => .expression id id (.refl value)
  | .print id value => .print id id (.refl value)
  | .var id name initializer => .var id id name (.refl initializer)
  | .block id body => .block id id (Stmt.PaddedAll.refl body)
  | .branch id condition positive negative =>
      .branch id id (.refl condition) (Stmt.Padded.refl positive) (Stmt.Padded.refl negative)
  | .loop id condition body => .loop id id (.refl condition) (Stmt.Padded.refl body)
  | .function id name params body => .function id id name params (Stmt.PaddedAll.refl body)
  | .result id keyword value => .result id id keyword (.refl value)

theorem Stmt.PaddedAll.refl : ∀ ss : List Stmt, Stmt.PaddedAll ss ss
  | [] => .nil
  | s :: ss => .cons (Stmt.Padded.refl s) (Stmt.PaddedAll.refl ss)

end

/-- Both declare the same name in the scope around them. -/
theorem Stmt.Padded.declared?_eq {s s' : Stmt} (h : s.Padded s') : s'.declared? = s.declared? := by
  cases h with
  | wrap id plain inner => exact plain.declared?.symm
  | _ => rfl

-- ==== Scopes

/-- The second stack of scopes is the first with empty scopes put in. A name is found in the same
scope of both, though not the same number of scopes further out. -/
inductive Spread {β : Type} : List (List β) → List (List β) → Prop where
  | nil : Spread [] []
  | cons (scope : List β) {outer outer' : List (List β)} (rest : Spread outer outer') :
      Spread (scope :: outer) (scope :: outer')
  | pad {scopes scopes' : List (List β)} (rest : Spread scopes scopes') :
      Spread scopes ([] :: scopes')

/-- No scope need be put in. -/
theorem Spread.refl {β : Type} : ∀ scopes : List (List β), Spread scopes scopes
  | [] => .nil
  | scope :: outer => .cons scope (Spread.refl outer)

/-- Empty scopes are put in, but not as the innermost one. -/
inductive Level {β : Type} : List (List β) → List (List β) → Prop where
  | nil : Level [] []
  | cons (scope : List β) {outer outer' : List (List β)} (rest : Spread outer outer') :
      Level (scope :: outer) (scope :: outer')

/-- Empty scopes that are put in further out are put in. -/
theorem Level.spread {β : Type} {scopes scopes' : List (List β)} (h : Level scopes scopes') :
    Spread scopes scopes' := by
  cases h with
  | nil => exact .nil
  | cons scope rest => exact .cons scope rest

end Lox
