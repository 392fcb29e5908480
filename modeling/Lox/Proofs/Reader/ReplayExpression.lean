/-
Expressions are read the same further down.

One lemma for each reader of expressions, for two bounds of which the second is no smaller: a bound
that was enough for the first reading is enough for the one beside it. All of them are `CopiesOpen`:
after an expression a reader looks for an operator, a comma or a parenthesis, so it has to leave a
token.

Inside an expression the parts follow each other by `open_bind`: what is left after a later part was
left after the earlier one, so that a token left at the end of the whole is one at the end of each
part. An argument list is closed by its parenthesis, and a group by its own; these are expected, so
that a token is known to be there.

The tree beside a tree is the moved one (`Replay.expr`). Moving commutes with the making of nodes,
and since it keeps kinds, the readers take the same ways: an operator has the same precedence, and
what is assigned to is a name on both sides or on neither.

The readers that call each other are done in one induction on the smaller bound
(`ExpressionCopies`).
-/
import Lox.Proofs.Reader.Replay

namespace Lox.Reader

variable {r : Replay} {s : State}

namespace Replay

-- ==== Readers that take readers

/-- One token, from which a leaf is made. -/
theorem leaf_open (make make' : Nat → Expr) (h : ∀ id, make' id = r.expr (make id)) :
    r.CopiesOpen r.expr (do skip; return make (← fresh)) (do skip; return make' (← fresh)) s :=
  open_bind skip_open fun _ _ _ => (made_copies h).opening

/-- The node of an operator between two operands is moved with them. -/
theorem join_copies (left right : Expr) (operator : Token) :
    r.Copies r.expr (join left operator right)
      (join (r.expr left) (operator.moved r.δ) (r.expr right)) s := by
  unfold join
  refine copies_bind fresh_copies fun id s₁ _ => ?_
  rw [Token.moved_kind]
  split
  · exact pure_copies rfl
  · exact pure_copies rfl

/-- An expression that needs no operator. -/
theorem primary_open {x x' : Reader Expr} (hx : ∀ s, r.CopiesOpen r.expr x x' s) :
    r.CopiesOpen r.expr (primary x) (primary x') s := by
  unfold primary
  refine open_bind peek_open fun t s₁ _ => ?_
  rw [Token.moved_kind]
  split
  · exact leaf_open (.literal · (.bool false)) _ fun _ => rfl
  · exact leaf_open (.literal · (.bool true)) _ fun _ => rfl
  · exact leaf_open (.literal · .nil) _ fun _ => rfl
  · exact leaf_open (.literal · t.literal) _ fun _ => rfl
  · exact leaf_open (.literal · t.literal) _ fun _ => rfl
  · exact leaf_open (.ident · t) _ fun _ => rfl
  · refine open_bind skip_open fun _ s₂ _ => ?_
    refine open_bind (hx s₂) fun inner s₃ _ => ?_
    refine Follows.any (expect_bind fun paren rest _ _ => ?_)
    exact Copies.opening (made_copies fun _ => rfl)
  · exact fail_copies _

/-- A target that is no variable is a fault. -/
theorem assignment_open {x x' : Reader Expr} (target : Expr) (hx : ∀ s, r.CopiesOpen r.expr x x' s) :
    r.CopiesOpen r.expr (assignment target x) (assignment (r.expr target) x') s := by
  unfold assignment
  refine open_bind peek_open fun equals s₁ _ => open_bind (accept_open _) fun found s₂ _ => ?_
  cases found with
  | false => exact (pure_copies rfl).opening
  | true =>
      refine open_bind (hx s₂) fun value s₃ _ => ?_
      cases target with
      | ident id name => exact Copies.opening (made_copies fun _ => rfl)
      | _ => exact Copies.opening (copies_bind (note_copies _ _ _) fun _ _ _ => pure_copies rfl)

end Replay

-- ==== Readers that call each other

/-- All readers of expressions, at a bound and a larger one. What they have read so far is handed
on, and in the copy it is the copy of it. -/
structure ExpressionCopies (r : Replay) (n n' : Nat) : Prop where
  expression : ∀ s, r.CopiesOpen r.expr (expression n) (expression n') s
  operation : ∀ least s, r.CopiesOpen r.expr (operation n least) (operation n' least) s
  operators : ∀ least left s,
    r.CopiesOpen r.expr (operators n least left) (operators n' least (r.expr left)) s
  unary : ∀ s, r.CopiesOpen r.expr (unary n) (unary n') s
  calls : ∀ callee s, r.CopiesOpen r.expr (calls n callee) (calls n' (r.expr callee)) s
  arguments : ∀ before s,
    r.CopiesOpen r.exprs (arguments n before) (arguments n' (r.exprs before)) s

namespace ExpressionCopies

open Replay

variable {n n' : Nat}

theorem expression_succ (h : ExpressionCopies r n n') :
    r.CopiesOpen r.expr (Reader.expression (n + 1)) (Reader.expression (n' + 1)) s :=
  open_bind (h.operation 1 s) fun target _ _ => assignment_open target h.expression

theorem operation_succ (h : ExpressionCopies r n n') (least : Nat) :
    r.CopiesOpen r.expr (Reader.operation (n + 1) least) (Reader.operation (n' + 1) least) s :=
  open_bind (h.unary s) fun left s₁ _ => h.operators least left s₁

/-- An operator further down has the same precedence. -/
theorem operators_succ (h : ExpressionCopies r n n') (least : Nat) (left : Expr) :
    r.CopiesOpen r.expr (Reader.operators (n + 1) least left)
      (Reader.operators (n' + 1) least (r.expr left)) s := by
  rw [Reader.operators, Reader.operators]
  refine open_bind peek_open fun t s₁ _ => ?_
  rw [Token.moved_kind]
  split
  · exact (pure_copies rfl).opening
  · split
    · refine open_bind skip_open fun _ s₂ _ => ?_
      refine open_bind (h.operation _ s₂) fun right s₃ _ => ?_
      exact open_bind (join_copies left right t).opening fun e s₄ _ => h.operators least e s₄
    · exact (pure_copies rfl).opening

/-- An operand, with or without an operator before it. -/
theorem unary_succ (h : ExpressionCopies r n n') :
    r.CopiesOpen r.expr (Reader.unary (n + 1)) (Reader.unary (n' + 1)) s := by
  rw [Reader.unary, Reader.unary]
  refine open_bind peek_open fun t s₁ _ => ?_
  rw [Token.moved_kind]
  split
  · refine open_bind skip_open fun _ s₂ _ => ?_
    refine open_bind (h.unary s₂) fun operand s₃ _ => ?_
    exact Copies.opening (made_copies fun _ => rfl)
  · exact open_bind (primary_open h.expression) fun callee s₂ _ => h.calls callee s₂

/-- An argument list is closed by its parenthesis. -/
theorem calls_succ (h : ExpressionCopies r n n') (callee : Expr) :
    r.CopiesOpen r.expr (Reader.calls (n + 1) callee) (Reader.calls (n' + 1) (r.expr callee)) s := by
  have close : ∀ args s, r.CopiesOpen r.expr
      (do let paren ← expect .rightParen .unclosedArguments
          Reader.calls n (.call (← fresh) callee paren args))
      (do let paren ← expect .rightParen .unclosedArguments
          Reader.calls n' (.call (← fresh) (r.expr callee) paren (r.exprs args))) s := by
    intro args s
    refine Follows.any (expect_bind fun paren rest _ _ => ?_)
    exact open_bind fresh_copies.opening fun id s₁ _ => h.calls _ s₁
  rw [Reader.calls, Reader.calls]
  refine open_bind (accept_open _) fun found s₁ _ => ?_
  cases found with
  | false => exact (pure_copies rfl).opening
  | true =>
      refine open_bind (sees_open _) fun closed s₂ _ => ?_
      cases closed with
      | true => exact close [] s₂
      | false => exact open_bind (h.arguments [] s₂) fun args s₃ _ => close args s₃

/-- The copy has as many arguments before it, so it finds too many of them where the first reading
does. -/
theorem arguments_succ (h : ExpressionCopies r n n') (before : List Expr) :
    r.CopiesOpen r.exprs (Reader.arguments (n + 1) before)
      (Reader.arguments (n' + 1) (r.exprs before)) s := by
  have hlen : (r.exprs before).length = before.length := Expr.length_movedAll before
  have happend : ∀ arg, r.exprs (before ++ [arg]) = r.exprs before ++ [r.expr arg] :=
    fun arg => Expr.movedAll_append before [arg]
  have next : ∀ s, r.CopiesOpen r.exprs
      (do let arg ← Reader.expression n
          if ← accept .comma then Reader.arguments n (before ++ [arg])
          else return before ++ [arg])
      (do let arg ← Reader.expression n'
          if ← accept .comma then Reader.arguments n' (r.exprs before ++ [arg])
          else return r.exprs before ++ [arg]) s := by
    intro s
    refine open_bind (h.expression s) fun arg s₁ _ => open_bind (accept_open _) fun found s₂ _ => ?_
    rw [← happend]
    cases found with
    | true => exact h.arguments _ s₂
    | false => exact (pure_copies rfl).opening
  rw [Reader.arguments, Reader.arguments, hlen]
  split
  · refine open_bind peek_open fun t s₁ _ => ?_
    exact open_bind (note_copies _ _ _).opening fun _ s₂ _ => next s₂
  · exact next s

/-- At bound zero nothing is yielded. -/
theorem zero : ExpressionCopies r 0 n' where
  expression _ := stop_copies
  operation _ _ := stop_copies
  operators _ _ _ := stop_copies
  unary _ := stop_copies
  calls _ _ := stop_copies
  arguments _ _ := stop_copies

end ExpressionCopies

/-- Every reader of expressions does the same further down, at any larger bound. -/
theorem expressionCopies (r : Replay) {n n' : Nat} (hn : n ≤ n') : ExpressionCopies r n n' := by
  induction n generalizing n' with
  | zero => exact .zero
  | succ n ih =>
      obtain ⟨m, rfl⟩ : ∃ m, n' = m + 1 := ⟨n' - 1, by omega⟩
      have h : ExpressionCopies r n m := ih (Nat.le_of_succ_le_succ hn)
      exact ⟨fun _ => h.expression_succ, fun least _ => h.operation_succ least,
        fun least left _ => h.operators_succ least left, fun _ => h.unary_succ,
        fun callee _ => h.calls_succ callee, fun before _ => h.arguments_succ before⟩

end Lox.Reader
