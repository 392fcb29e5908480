/-
The identities in a tree, and the shape of a tree that was read from a script.

# Identities

The walk over a program and the machine that runs it meet only through the identities of nodes: the
walk notes, under the identity of a use of a name, how far out the name was declared, and the
machine looks that up when it comes to the node. What ties the two together needs that no two nodes
share an identity.

`Within lo hi ids` says so of a list of identities, together with the interval from which they were
taken: they are distinct, come after `lo` and go up to `hi`. Reading a tree takes identities from a
counter, so each tree that is read has the identities between two states of it, and the interval is
what makes the argument go: two lists from neighbouring intervals join to one (`Within.append`), a
node that is made after its children takes the next identity (`Within.cons`), an interval may be
widened (`Within.mono`), and part of the list or the list in another order will do as well
(`Within.sublist`, `Within.perm`).

# The shape of trees

A tree read from a script has declarations only where a scope can take them: the branches of an `if`
and the body of a loop are never declarations, and a variable that is declared has a name
(`Stmt.Formed`). Trees made by hand need not be so, and some of what holds of scripts does not hold
of them.
-/
import Lox.Tree.Basic

namespace Lox

-- ==== Identities

namespace Expr

/-- The identity of a node. -/
def id? : Expr → Option Nat
  | absent => none
  | literal id _ => some id
  | grouping id _ => some id
  | unary id _ _ => some id
  | binary id _ _ _ => some id
  | logical id _ _ _ => some id
  | assign id _ _ => some id
  | ident id _ => some id
  | call id _ _ _ => some id

/-- The name that a node reads or assigns, with the node's identity. -/
def use? : Expr → Option (Nat × Token)
  | assign id name _ => some (id, name)
  | ident id name => some (id, name)
  | _ => none

end Expr

mutual

/-- The identities of the nodes of an expression, each node before its children. An expression that
is missing has none. -/
def Expr.ids : Expr → List Nat
  | .absent => []
  | .literal id _ => [id]
  | .grouping id inner => id :: inner.ids
  | .unary id _ operand => id :: operand.ids
  | .binary id left _ right => id :: (left.ids ++ right.ids)
  | .logical id left _ right => id :: (left.ids ++ right.ids)
  | .assign id _ value => id :: value.ids
  | .ident id _ => [id]
  | .call id callee _ arguments => id :: (callee.ids ++ Expr.idsAll arguments)

/-- The identities of the nodes of expressions, in order. -/
def Expr.idsAll : List Expr → List Nat
  | [] => []
  | e :: rest => e.ids ++ Expr.idsAll rest

end

mutual

/-- The identities of the nodes of a statement, each node before its children, those of its
expressions among them. -/
def Stmt.ids : Stmt → List Nat
  | .absent => []
  | .expression id value => id :: value.ids
  | .print id value => id :: value.ids
  | .var id _ initializer => id :: initializer.ids
  | .block id body => id :: Stmt.idsAll body
  | .branch id condition positive negative =>
    id :: (condition.ids ++ (positive.ids ++ negative.ids))
  | .loop id condition body => id :: (condition.ids ++ body.ids)
  | .function id _ _ body => id :: Stmt.idsAll body
  | .result id _ value => id :: value.ids

/-- The identities of the nodes of statements, in order. -/
def Stmt.idsAll : List Stmt → List Nat
  | [] => []
  | s :: rest => s.ids ++ Stmt.idsAll rest

end

@[simp] theorem Expr.idsAll_append (es fs : List Expr) :
    Expr.idsAll (es ++ fs) = Expr.idsAll es ++ Expr.idsAll fs := by
  induction es with
  | nil => rfl
  | cons e es ih => simp only [List.cons_append, Expr.idsAll, ih, List.append_assoc]

@[simp] theorem Stmt.idsAll_append (ss ts : List Stmt) :
    Stmt.idsAll (ss ++ ts) = Stmt.idsAll ss ++ Stmt.idsAll ts := by
  induction ss with
  | nil => rfl
  | cons s ss ih => simp only [List.cons_append, Stmt.idsAll, ih, List.append_assoc]

-- ==== Distinct identities from an interval

/-- The identities are distinct, come after `lo`, and go up to `hi`. -/
structure Within (lo hi : Nat) (ids : List Nat) : Prop where
  nodup : ids.Nodup
  above : ∀ i ∈ ids, lo < i
  upto : ∀ i ∈ ids, i ≤ hi

namespace Within

variable {lo mid hi : Nat} {xs ys : List Nat}

/-- No identities at all. -/
theorem nil : Within lo hi [] := ⟨List.nodup_nil, by simp, by simp⟩

/-- The interval may be widened. -/
theorem mono {lo' hi' : Nat} (h : Within lo hi xs) (hlo : lo' ≤ lo) (hhi : hi ≤ hi') :
    Within lo' hi' xs where
  nodup := h.nodup
  above i hi := Nat.lt_of_le_of_lt hlo (h.above i hi)
  upto i hi := Nat.le_trans (h.upto i hi) hhi

/-- Identities from neighbouring intervals. -/
theorem append (hx : Within lo mid xs) (hy : Within mid hi ys) (hlo : lo ≤ mid) (hhi : mid ≤ hi) :
    Within lo hi (xs ++ ys) where
  nodup := by
    refine List.nodup_append.mpr ⟨hx.nodup, hy.nodup, fun a ha b hb => ?_⟩
    have h₁ := hx.upto a ha
    have h₂ := hy.above b hb
    omega
  above i hi := by
    rcases List.mem_append.mp hi with h | h
    · exact hx.above i h
    · exact Nat.lt_of_le_of_lt hlo (hy.above i h)
  upto i hi := by
    rcases List.mem_append.mp hi with h | h
    · exact Nat.le_trans (hx.upto i h) hhi
    · exact hy.upto i h

/-- A node made after its children takes the next identity. -/
theorem cons (h : Within lo hi xs) (hlo : lo ≤ hi) : Within lo (hi + 1) ((hi + 1) :: xs) where
  nodup := by
    refine List.nodup_cons.mpr ⟨fun hm => ?_, h.nodup⟩
    have := h.upto _ hm
    omega
  above i hi := by
    rcases List.mem_cons.mp hi with rfl | h'
    · omega
    · exact h.above i h'
  upto i hi := by
    rcases List.mem_cons.mp hi with rfl | h'
    · omega
    · have := h.upto i h'
      omega

/-- Some of the identities. -/
theorem sublist (h : Within lo hi xs) (hs : ys.Sublist xs) : Within lo hi ys where
  nodup := h.nodup.sublist hs
  above i hi := h.above i (hs.subset hi)
  upto i hi := h.upto i (hs.subset hi)

/-- The order of the identities does not matter. -/
theorem perm (h : Within lo hi xs) (hp : xs.Perm ys) : Within lo hi ys where
  nodup := hp.nodup_iff.mp h.nodup
  above i hi := h.above i (hp.mem_iff.mpr hi)
  upto i hi := h.upto i (hp.mem_iff.mpr hi)

end Within

-- ==== The shape of a tree that was read

namespace Stmt

/-- The name that a statement declares in the scope around it. -/
def declared? : Stmt → Option Token
  | var _ name _ => some name
  | function _ name _ _ => some name
  | _ => none

mutual

/-- Declarations stand only in blocks, in bodies of functions and at top level, and a variable has a
name. -/
def Formed : Stmt → Prop
  | .var _ name _ => name.lexeme ≠ []
  | .block _ body => FormedAll body
  | .branch _ _ positive negative =>
    positive.Formed ∧ negative.Formed ∧ positive.declared? = none ∧ negative.declared? = none
  | .loop _ _ body => body.Formed ∧ body.declared? = none
  | .function _ _ _ body => FormedAll body
  | _ => True

/-- All of the statements are formed. -/
def FormedAll : List Stmt → Prop
  | [] => True
  | s :: rest => s.Formed ∧ FormedAll rest

end

/-- Statements one after the other are formed if all of them are. -/
@[simp] theorem formedAll_append (ss ts : List Stmt) :
    FormedAll (ss ++ ts) ↔ FormedAll ss ∧ FormedAll ts := by
  induction ss with
  | nil => simp [FormedAll]
  | cons s ss ih => simp only [List.cons_append, FormedAll, ih, and_assoc]

/-- Each one of statements that are formed is formed. -/
theorem FormedAll.of_mem {ss : List Stmt} (hf : FormedAll ss) {s : Stmt} (hs : s ∈ ss) :
    s.Formed := by
  induction ss with
  | nil => simp at hs
  | cons t ss ih =>
      rcases List.mem_cons.mp hs with rfl | hs
      · exact hf.1
      · exact ih hf.2 hs

end Stmt

end Lox
