/-
Reading back what was written.

# What is shown

A tree of the grammar's shape is read back from its tokens, whatever comes after them as long as it
cannot go on with the tree (`readsBack`). The tree that comes back is the same up to the identities
of its nodes, no fault is noted, and exactly the tokens of the tree are taken (`Passes`).

# Loops that hold a tree

Operators and calls are read by loops that hold the tree read so far, and that tree grows to the
left. An operand is not read back by itself then: what is read first is its leftmost part, and the
rest of it by the loop. So the lemma about an operand says that reading it comes down to going on
after it, with the loop at whatever bound is left (`ReadsOperand` for operators, `ReadsCallee` for
calls). For `a - b - c` the operand `a - b` is gone over in the loop that goes on with `- c`.

# Levels

An expression that stands where precedence `q` is asked for is read back at each level that can come
to it (`ReadsBack`): as a callee if it is an operand of the innermost level, as one with operators
before it, between operators of at least a given precedence, and as a whole. Each level follows from
the one further in, as long as what comes next cannot be taken for a part of it
(`ReadsCallee.unary`, `ReadsUnary.operand`, `ReadsOperand.expression`). An operator joins a left
operand of its own level and a right one of the level above (`reads_joined`), which is what makes
operators lean to the left.
-/
import Lox.Proofs.Reader.Calculus
import Lox.Proofs.Tree.Renamed
import Lox.Proofs.Tree.Written

namespace Lox.Reader

variable {n least q : Nat} {setting : Setting} {s s₁ : State} {t : Token} {rest : List Token}
variable {e : Expr}

/-- Reading has stopped before `rest`, and nothing was noted after `faults`. -/
structure Passes (faults : List ParseFault) (rest : List Token) (s : State) : Prop where
  rest : s.rest = rest
  faults : s.faults = faults

/-- Reading in two stretches. Tokens may be taken between them and identities given out. -/
theorem Passes.trans {faults : List ParseFault} {s₁ s₂ : State} {rest₁ rest₂ : List Token}
    (h₁ : Passes faults rest₁ s₁) (h₂ : Passes s₁.faults rest₂ s₂) : Passes faults rest₂ s₂ :=
  ⟨h₂.rest, h₂.faults.trans h₁.faults⟩

/-- A node that is made at the end takes an identity and nothing else. -/
theorem Passes.fresh {faults : List ParseFault} {s : State} {rest : List Token}
    (h : Passes faults rest s) : Passes faults rest { s with issued := s.issued + 1 } :=
  ⟨h.rest, h.faults⟩

-- ==== The token in front

/-- Looking at the token in front. -/
theorem peek_front {α : Type} {f : Token → Reader α} {ok : α → State → Prop} {ko : State → Prop}
    (hr : s.rest = t :: rest) :
    Meets (peek >>= f) setting s ok ko ↔ Meets (f t) setting s ok ko := by
  rw [meets_bind, meets_peek, hr, List.headD_cons]

/-- Going over the token in front. -/
theorem skip_front {α : Type} {f : Unit → Reader α} {ok : α → State → Prop} {ko : State → Prop}
    (hr : s.rest = t :: rest) :
    Meets (skip >>= f) setting s ok ko ↔ Meets (f ()) setting { s with rest := rest } ok ko := by
  rw [meets_bind, meets_skip, hr, List.tail_cons]

/-- Whether the token in front is of the kind. -/
theorem sees_front {α : Type} {f : Bool → Reader α} {ok : α → State → Prop} {ko : State → Prop}
    (kind : Kind) (hr : s.rest = t :: rest) :
    Meets (sees kind >>= f) setting s ok ko ↔
      Meets (f (decide (t.kind = kind))) setting s ok ko := by
  rw [meets_bind]
  unfold Meets sees
  rw [hr]

/-- A token in front that is of the kind is taken. -/
theorem accept_front {α : Type} {f : Bool → Reader α} {ok : α → State → Prop} {ko : State → Prop}
    (kind : Kind) (hr : s.rest = t :: rest) (hk : t.kind = kind) :
    Meets (accept kind >>= f) setting s ok ko ↔
      Meets (f true) setting { s with rest := rest } ok ko := by
  rw [accept, meets_bind, sees_front kind hr]
  simp [hk, hr]

/-- Where no token of the kind is in front, none is taken. -/
theorem accept_other {α : Type} {f : Bool → Reader α} {ok : α → State → Prop} {ko : State → Prop}
    {kind : Kind} (hr : ∀ t rest, s.rest = t :: rest → t.kind ≠ kind)
    (h : Meets (f false) setting s ok ko) : Meets (accept kind >>= f) setting s ok ko := by
  rw [meets_bind]
  exact meets_accept _ (fun t rest hs hk => absurd hk (hr t rest hs)) fun _ => h

/-- A token in front that is expected is taken. -/
theorem expect_front {α : Type} {f : Token → Reader α} {ok : α → State → Prop} {ko : State → Prop}
    (kind : Kind) {problem : ParseProblem} (hr : s.rest = t :: rest) (hk : t.kind = kind) :
    Meets (expect kind problem >>= f) setting s ok ko ↔
      Meets (f t) setting { s with rest := rest } ok ko := by
  rw [expect, meets_bind, peek_front hr, sees_front kind hr]
  simp [hk, hr]

-- ==== What it is to be read back

/-- The kinds of tokens that come after a whole expression. -/
def followsExpression (k : Kind) : Prop := k = .semicolon ∨ k = .rightParen ∨ k = .comma

/-- The tokens of `e` are read as a whole expression, in any place where what follows cannot belong
to it, and without a new fault. The tree is the same but for identities. -/
def ReadsExpression (e : Expr) : Prop :=
  ∀ ⦃n : Nat⦄ ⦃setting : Setting⦄ ⦃s : State⦄ ⦃t : Token⦄ ⦃rest : List Token⦄,
    s.rest = e.tokens ++ t :: rest → followsExpression t.kind → 10 * s.rest.length + 4 ≤ n →
      Meets (expression n) setting s
        (fun e' s' => e'.bare = e.bare ∧ Passes s.faults (t :: rest) s') fun _ => False

/-- Reading operands and operators of precedence `least` first goes over the tokens of `e`, if no
operator follows that binds more tightly than `q`. -/
def ReadsOperand (q least : Nat) (e : Expr) : Prop :=
  ∀ ⦃n : Nat⦄ ⦃setting : Setting⦄ ⦃s : State⦄ ⦃t : Token⦄ ⦃rest : List Token⦄
    ⦃ok : Expr → State → Prop⦄ ⦃ko : State → Prop⦄,
    s.rest = e.tokens ++ t :: rest → t.kind ≠ .leftParen →
    (∀ p, t.kind.precedence? = some p → p ≤ q) → 10 * s.rest.length + 3 ≤ n →
    (∀ n' e' s', e'.bare = e.bare → Passes s.faults (t :: rest) s' → 10 * (rest.length + 1) + 1 ≤ n' →
      Meets (operators n' least e') setting s' ok ko) →
    Meets (operation n least) setting s ok ko

/-- The tokens of `e` are read as an operand with the operators before it. An opening parenthesis
behind it would be taken for a call. -/
def ReadsUnary (e : Expr) : Prop :=
  ∀ ⦃n : Nat⦄ ⦃setting : Setting⦄ ⦃s : State⦄ ⦃t : Token⦄ ⦃rest : List Token⦄,
    s.rest = e.tokens ++ t :: rest → t.kind ≠ .leftParen → 10 * s.rest.length + 2 ≤ n →
      Meets (unary n) setting s
        (fun e' s' => e'.bare = e.bare ∧ Passes s.faults (t :: rest) s') fun _ => False

/-- Reading an operand and its calls first goes over the tokens of `e`. What is read after them is
left open, since more argument lists may follow; so it is said for any that do. -/
def ReadsCallee (e : Expr) : Prop :=
  ∀ ⦃n : Nat⦄ ⦃setting : Setting⦄ ⦃s : State⦄ ⦃rest : List Token⦄
    ⦃ok : Expr → State → Prop⦄ ⦃ko : State → Prop⦄,
    s.rest = e.tokens ++ rest → 10 * s.rest.length + 1 ≤ n →
    (∀ n' e' s', e'.bare = e.bare → Passes s.faults rest s' → 10 * rest.length + 1 ≤ n' →
      Meets (calls n' e') setting s' ok ko) →
    Meets (primary (expression n) >>= calls n) setting s ok ko

-- ==== From one level to the next

/-- Without an opening parenthesis there is no further call. -/
theorem calls_stop {ok : Expr → State → Prop} {ko : State → Prop} (hn : 0 < n)
    (hr : s.rest = t :: rest) (ht : t.kind ≠ .leftParen) (h : ok e s) :
    Meets (calls n e) setting s ok ko := by
  obtain ⟨n, rfl⟩ : ∃ m, n = m + 1 := ⟨n - 1, by omega⟩
  rw [calls]
  refine accept_other (fun t' rest' hr' => ?_) ?_
  · obtain ⟨rfl, rfl⟩ := List.cons.inj (hr.symm.trans hr')
    exact ht
  · exact h

/-- Without an operator that binds tightly enough, the operation ends. -/
theorem operators_stop {ok : Expr → State → Prop} {ko : State → Prop} (hn : 0 < n)
    (hr : s.rest = t :: rest) (ht : ∀ p, t.kind.precedence? = some p → p < least) (h : ok e s) :
    Meets (operators n least e) setting s ok ko := by
  obtain ⟨n, rfl⟩ : ∃ m, n = m + 1 := ⟨n - 1, by omega⟩
  rw [operators, peek_front hr]
  split
  · exact h
  next p hp =>
    rw [if_neg (Nat.not_le.mpr (ht p hp))]
    exact h

/-- An operand without an operator before it. -/
theorem ReadsCallee.unary (h : ReadsCallee e)
    (hstarts : ∃ t ts, e.tokens = t :: ts ∧ ¬(t.kind = .bang ∨ t.kind = .minus)) :
    ReadsUnary e := by
  intro n setting s t rest hr ht hn
  obtain ⟨n, rfl⟩ : ∃ m, n = m + 1 := ⟨n - 1, by omega⟩
  obtain ⟨t', ts, hts, hk⟩ := hstarts
  have hfront : s.rest = t' :: (ts ++ t :: rest) := by rw [hr, hts, List.cons_append]
  rw [Reader.unary, peek_front hfront, if_neg hk]
  refine h hr (by omega) fun n' e' s' hsame hpass hn' => ?_
  exact calls_stop (by omega) hpass.rest ht ⟨hsame, hpass⟩

/-- An operand between operators. -/
theorem ReadsUnary.operand (h : ReadsUnary e) (q least : Nat) : ReadsOperand q least e := by
  intro n setting s t rest ok ko hr ht hq hn next
  obtain ⟨n, rfl⟩ : ∃ m, n = m + 1 := ⟨n - 1, by omega⟩
  rw [operation, meets_bind]
  refine (h hr ht (by omega)).mono (fun e' s' he => ?_) fun _ h => h.elim
  refine next n e' s' he.1 he.2 ?_
  rw [hr, List.length_append, List.length_cons] at hn
  omega

/-- What comes after an expression is no operator. -/
theorem precedence_of_follows {k : Kind} (h : followsExpression k) : k.precedence? = none := by
  rcases h with rfl | rfl | rfl <;> rfl

/-- An operation that is not assigned to. -/
theorem ReadsOperand.expression (h : ReadsOperand 0 1 e) : ReadsExpression e := by
  intro n setting s t rest hr ht hn
  obtain ⟨n, rfl⟩ : ∃ m, n = m + 1 := ⟨n - 1, by omega⟩
  have hnone := precedence_of_follows ht
  rw [Reader.expression, meets_bind]
  refine h hr ?_ ?_ (by omega) fun n' e' s' hsame hpass hn' => ?_
  · rcases ht with hk | hk | hk <;> simp [hk]
  · simp [hnone]
  refine operators_stop (by omega) hpass.rest (by simp [hnone]) ?_
  rw [assignment, peek_front hpass.rest]
  refine accept_other (fun t' rest' hr' => ?_) ⟨hsame, hpass⟩
  obtain ⟨rfl, rfl⟩ := List.cons.inj (hpass.rest.symm.trans hr')
  rcases ht with hk | hk | hk <;> simp [hk]

-- ==== Operands

/-- A leaf is made from one token. -/
theorem leaf_reads {make : Nat → Expr} {ok : Expr → State → Prop} {ko : State → Prop}
    (hr : s.rest = t :: rest) (h : ok (make (s.issued + 1)) ⟨rest, s.issued + 1, s.faults⟩) :
    Meets (do skip; return make (← fresh)) setting s ok ko := by
  rw [skip_front hr, meets_bind, meets_fresh, meets_pure]
  exact h

/-- A constant is read back from the token that it is written as. -/
theorem reads_literal (id : Nat) (value : Literal) : ReadsCallee (.literal id value) := by
  intro n setting s rest ok ko hr hn next
  have hfront : s.rest = value.token :: rest := hr
  have hleaf : ∀ s', Passes s.faults rest s' →
      Meets (calls n (.literal s'.issued value)) setting s' ok ko := by
    intro s' hpass
    refine next n _ s' rfl hpass ?_
    rw [hfront, List.length_cons] at hn
    omega
  rw [meets_bind, primary, peek_front hfront]
  cases value with
  | bool b => cases b <;> exact leaf_reads hfront (hleaf ⟨rest, _, _⟩ ⟨rfl, rfl⟩)
  | _ => exact leaf_reads hfront (hleaf ⟨rest, _, _⟩ ⟨rfl, rfl⟩)

/-- A name is read back from its token. -/
theorem reads_ident {name : Token} (id : Nat) (hk : name.kind = .identifier) :
    ReadsCallee (.ident id name) := by
  intro n setting s rest ok ko hr hn next
  have hfront : s.rest = name :: rest := hr
  rw [meets_bind, primary, peek_front hfront, hk]
  refine leaf_reads hfront (next n _ _ rfl ⟨rfl, rfl⟩ ?_)
  rw [hfront, List.length_cons] at hn
  omega

/-- An expression in parentheses. -/
theorem reads_grouping (id : Nat) (h : ReadsExpression e) : ReadsCallee (.grouping id e) := by
  intro n setting s rest ok ko hr hn next
  rw [Expr.tokens, List.cons_append, List.append_assoc, List.singleton_append] at hr
  have hlen := congrArg List.length hr
  simp only [List.length_cons, List.length_append] at hlen
  rw [meets_bind, primary, peek_front hr]
  simp only [Token.mark]
  rw [skip_front hr, meets_bind]
  refine (h rfl (.inr (.inl rfl)) ?_).mono (fun inner s₁ h₁ => ?_) fun _ h => h.elim
  · simp only [List.length_cons, List.length_append]
    omega
  obtain ⟨hsame, hpass⟩ := h₁
  rw [expect_front .rightParen hpass.rest rfl, meets_bind, meets_fresh, meets_pure]
  refine next n _ _ ?_ ⟨rfl, hpass.faults⟩ (by omega)
  simp only [Expr.bare, Expr.renamed] at hsame ⊢
  rw [hsame]

/-- Arguments are read back one after the other, up to the parenthesis that closes them. After each
of them there is a comma or that parenthesis, and either may follow an expression. -/
theorem reads_arguments {paren : Token} {es before : List Expr} (hparen : paren.kind = .rightParen)
    (hes : ∀ e ∈ es, ReadsExpression e) (hne : es ≠ [])
    (hfew : before.length + es.length ≤ maxArity)
    (hr : s.rest = Token.listed (Expr.tokensEach es) ++ paren :: rest)
    (hn : 10 * s.rest.length + 5 ≤ n) :
    Meets (arguments n before) setting s
      (fun args s' => Expr.bareAll args = Expr.bareAll before ++ Expr.bareAll es ∧
        Passes s.faults (paren :: rest) s') fun _ => False := by
  induction es generalizing before n s with
  | nil => exact absurd rfl hne
  | cons e es ih =>
      obtain ⟨n, rfl⟩ : ∃ m, n = m + 1 := ⟨n - 1, by omega⟩
      have hshort : ¬maxArity ≤ before.length := by
        rw [List.length_cons] at hfew
        omega
      have he : ReadsExpression e := hes e List.mem_cons_self
      have hbare : ∀ arg : Expr, arg.bare = e.bare →
          Expr.bareAll (before ++ [arg]) = Expr.bareAll before ++ [e.bare] := by
        intro arg hsame
        simp only [Expr.bareAll, Expr.renamedAll_append, Expr.renamedAll]
        exact congrArg (fun b => Expr.renamedAll (fun _ => 0) before ++ [b]) hsame
      rw [arguments, if_neg hshort, meets_bind]
      cases es with
      | nil =>
          refine (he hr (.inr (.inl hparen)) (by omega)).mono (fun arg s₁ h₁ => ?_)
            fun _ h => h.elim
          obtain ⟨hsame, hpass⟩ := h₁
          refine accept_other (fun t' rest' hr' => ?_) ⟨hbare arg hsame, hpass⟩
          obtain ⟨rfl, rfl⟩ := List.cons.inj (hpass.rest.symm.trans hr')
          simp [hparen]
      | cons e₂ es =>
          have hes' : ∀ e' ∈ e₂ :: es, ReadsExpression e' :=
            fun e' he' => hes e' (List.mem_cons_of_mem _ he')
          have hr' : s.rest = e.tokens ++ Token.mark .comma "," ::
              (Token.listed (Expr.tokensEach (e₂ :: es)) ++ paren :: rest) := by
            rw [hr]
            simp only [Expr.tokensEach, Token.listed, List.append_assoc, List.cons_append]
          have hlen := congrArg List.length hr'
          rw [List.length_append, List.length_cons] at hlen
          refine (he hr' (.inr (.inr rfl)) (by omega)).mono (fun arg s₁ h₁ => ?_) fun _ h => h.elim
          obtain ⟨hsame, hpass⟩ := h₁
          rw [accept_front .comma hpass.rest rfl, if_pos rfl]
          refine (ih hes' (List.cons_ne_nil _ _) ?_ rfl (by simp only; omega)).mono
            (fun args s₂ h₂ => ?_) fun _ h => h
          · simp only [List.length_append, List.length_cons, List.length_nil] at hfew ⊢
            omega
          · refine ⟨?_, hpass.trans h₂.2⟩
            rw [h₂.1, hbare arg hsame, List.append_assoc]
            rfl

/-- A call of what was read so far. Without arguments the closing parenthesis comes at once, and
with arguments it does not, since no expression starts with one. -/
theorem reads_call {paren : Token} {arguments : List Expr} (id : Nat) (h : ReadsCallee e)
    (hes : ∀ e ∈ arguments, ReadsExpression e) (hstarts : ∀ e ∈ arguments, ∃ q, e.Fits q)
    (hparen : paren.kind = .rightParen) (hfew : arguments.length ≤ maxArity) :
    ReadsCallee (.call id e paren arguments) := by
  intro n setting s rest ok ko hr hn next
  rw [Expr.tokens, List.append_assoc, List.cons_append, List.append_assoc,
    List.singleton_append] at hr
  refine h hr hn fun n₁ callee s₁ hsame hpass hn₁ => ?_
  obtain ⟨n₁, rfl⟩ : ∃ m, n₁ = m + 1 := ⟨n₁ - 1, by omega⟩
  simp only [List.length_cons, List.length_append] at hn₁
  rw [calls, accept_front .leftParen hpass.rest rfl, if_pos rfl]
  -- what is left after the arguments
  have close : ∀ args s₂, Expr.bareAll args = Expr.bareAll arguments →
      Passes s.faults (paren :: rest) s₂ →
      Meets (do let paren ← expect .rightParen .unclosedArguments
                calls n₁ (.call (← fresh) callee paren args)) setting s₂ ok ko := by
    intro args s₂ hargs hpass₂
    rw [expect_front .rightParen hpass₂.rest hparen, meets_bind, meets_fresh]
    refine next n₁ _ _ ?_ ⟨rfl, hpass₂.faults⟩ (by omega)
    simp only [Expr.bare, Expr.bareAll, Expr.renamed] at hsame hargs ⊢
    rw [hsame, hargs]
  cases harguments : arguments with
  | nil =>
      rw [sees_front .rightParen rfl, hparen]
      exact close [] _ (by rw [harguments]) ⟨rfl, hpass.faults⟩
  | cons e₁ es =>
      rw [← harguments]
      obtain ⟨q, hq⟩ := hstarts e₁ (by rw [harguments]; exact List.mem_cons_self)
      obtain ⟨t, ts, hts, hk⟩ := hq.listed_starts es
      rw [meets_bind]
      refine meets_sees _ (fun t' rest' hr' hk' => ?_) fun _ => ?_
      · rw [harguments, hts, List.cons_append] at hr'
        obtain ⟨rfl, -⟩ := List.cons.inj hr'
        exact absurd hk' hk
      · rw [if_neg Bool.false_ne_true, meets_bind]
        refine (reads_arguments hparen hes ?_ ?_ rfl ?_).mono (fun args s₂ h₂ => ?_)
          fun _ h => h.elim
        · rw [harguments]
          exact List.cons_ne_nil _ _
        · rwa [List.length_nil, Nat.zero_add]
        · simp only [List.length_append, List.length_cons]
          omega
        · exact close args s₂ h₂.1 (hpass.trans h₂.2)

-- ==== Operators

/-- An operator before an operand. -/
theorem reads_unary {operator : Token} (id : Nat)
    (hk : operator.kind = .bang ∨ operator.kind = .minus) (h : ReadsUnary e) :
    ReadsUnary (.unary id operator e) := by
  intro n setting s t rest hr ht hn
  obtain ⟨n, rfl⟩ : ∃ m, n = m + 1 := ⟨n - 1, by omega⟩
  rw [Expr.tokens, List.cons_append] at hr
  have hlen := congrArg List.length hr
  rw [List.length_cons] at hlen
  rw [unary, peek_front hr, if_pos hk, skip_front hr, meets_bind]
  refine (h rfl ht (by simp only; omega)).mono (fun operand s₁ h₁ => ?_) fun _ h => h
  rw [meets_bind, meets_fresh, meets_pure]
  refine ⟨?_, h₁.2.fresh⟩
  have hsame := h₁.1
  simp only [Expr.bare, Expr.renamed] at hsame ⊢
  rw [hsame]

/-- The node that joins two operands, up to its identity. -/
def joined (left : Expr) (operator : Token) (right : Expr) : Expr :=
  if operator.kind = .or ∨ operator.kind = .and then .logical 0 left operator right
  else .binary 0 left operator right

/-- Joining two operands makes the node of the operator. -/
theorem reads_join {left left' right right' : Expr} {operator : Token} {f : Expr → Reader Expr}
    {ok : Expr → State → Prop} {ko : State → Prop} (hl : left'.bare = left.bare)
    (hr : right'.bare = right.bare)
    (next : ∀ e', e'.bare = (joined left operator right).bare →
      Meets (f e') setting { s with issued := s.issued + 1 } ok ko) :
    Meets (join left' operator right' >>= f) setting s ok ko := by
  rw [meets_bind, join, meets_bind, meets_fresh, meets_ite]
  simp only [joined, Expr.bare] at hl hr next
  split
  next hk =>
    rw [if_pos hk] at next
    refine next _ ?_
    simp only [Expr.renamed, hl, hr]
  next hk =>
    rw [if_neg hk] at next
    refine next _ ?_
    simp only [Expr.renamed, hl, hr]

/-- Two operands with an operator between them, of which the right one binds more tightly. The left
one is read first and does not take the operator; the right one does not take what follows, which
binds no more tightly than the operator does. -/
theorem reads_joined {left right : Expr} {operator : Token} {p : Nat}
    (hp : operator.kind.precedence? = some p) (hq : q ≤ p) (hleast : least ≤ p)
    (hl : ReadsOperand p least left) (hr : ReadsOperand (p + 1) (p + 1) right)
    (he : e.bare = (joined left operator right).bare)
    (htokens : e.tokens = left.tokens ++ operator :: right.tokens) : ReadsOperand q least e := by
  intro n setting s t rest ok ko hrest ht hfollow hn next
  rw [htokens, List.append_assoc, List.cons_append] at hrest
  have hop : operator.kind ≠ .leftParen := by
    intro hk
    simp [hk, Kind.precedence?] at hp
  refine hl hrest hop (fun p' hp' => ?_) hn fun n₁ left' s₁ hsame hpass hn₁ => ?_
  · obtain rfl := Option.some.inj (hp.symm.trans hp')
    exact Nat.le_refl _
  -- the operator comes next, and is taken
  obtain ⟨n₁, rfl⟩ : ∃ m, n₁ = m + 1 := ⟨n₁ - 1, by omega⟩
  rw [List.length_append, List.length_cons] at hn₁
  rw [operators, peek_front hpass.rest, hp]
  simp only [hleast, if_true]
  rw [skip_front hpass.rest, meets_bind]
  refine hr rfl ht (fun p' hp' => Nat.le_succ_of_le (Nat.le_trans (hfollow p' hp') hq)) ?_
    fun n₂ right' s₂ hsame₂ hpass₂ hn₂ => ?_
  · simp only [List.length_append, List.length_cons]
    omega
  -- what follows does not belong to the right operand
  refine operators_stop (by omega) hpass₂.rest (fun p' hp' => ?_) ?_
  · exact Nat.lt_succ_of_le (Nat.le_trans (hfollow p' hp') hq)
  refine reads_join hsame hsame₂ fun e' he' => ?_
  refine next n₁ e' _ (he'.trans he.symm) (hpass.trans hpass₂).fresh (by omega)

/-- An assignment to a name, which leans to the right. The name is read as an operand, and only the
equals sign behind it tells that it is a target. -/
theorem reads_assign {name : Token} (id : Nat) (hk : name.kind = .identifier)
    (h : ReadsExpression e) :
    ReadsExpression (.assign id name e) := by
  intro n setting s t rest hr ht hn
  obtain ⟨n, rfl⟩ : ∃ m, n = m + 1 := ⟨n - 1, by omega⟩
  have hrest : s.rest =
      (Expr.ident id name).tokens ++ Token.mark .equal "=" :: (e.tokens ++ t :: rest) :=
    hr
  have hlen : s.rest.length = (e.tokens ++ t :: rest).length + 2 := congrArg List.length hrest
  -- the target is read as any operand is; it turns out to be one before the equals sign
  have htarget : ReadsOperand 0 1 (.ident id name) :=
    ((reads_ident id hk).unary ⟨name, [], rfl, by simp [hk]⟩).operand 0 1
  rw [expression, meets_bind]
  refine htarget hrest Kind.noConfusion (fun p hp => nomatch hp) (by omega)
    fun n' target s₁ hsame hpass hn' => ?_
  refine operators_stop (by omega) hpass.rest (fun p hp => nomatch hp) ?_
  rw [assignment, peek_front hpass.rest, accept_front .equal hpass.rest rfl, if_pos rfl, meets_bind]
  refine (h rfl ht (by simp only; omega)).mono (fun v s₂ h₂ => ?_) fun _ h => h
  cases target with
  | ident id' name' =>
      obtain rfl : name' = name := (Expr.ident.inj hsame).2
      rw [meets_bind, meets_fresh, meets_pure]
      refine ⟨?_, (hpass.trans h₂.2).fresh⟩
      have hvalue := h₂.1
      simp only [Expr.bare, Expr.renamed] at hvalue ⊢
      rw [hvalue]
  | _ => exact absurd hsame (by simp [Expr.bare, Expr.renamed])

-- ==== All expressions

/-- How an expression that stands where `q` is asked for is read back, at each level that comes to
it. -/
structure ReadsBack (q : Nat) (e : Expr) : Prop where
  callee : 8 ≤ q → ReadsCallee e
  unary : 7 ≤ q → ReadsUnary e
  operand : ∀ least, 1 ≤ least → least ≤ q → ReadsOperand q least e
  expression : ReadsExpression e

/-- An operand of the innermost level is read back at all levels. -/
theorem ReadsCallee.readsBack (h : ReadsCallee e)
    (hstarts : ∃ t ts, e.tokens = t :: ts ∧ ¬(t.kind = .bang ∨ t.kind = .minus)) (q : Nat) :
    ReadsBack q e where
  callee _ := h
  unary _ := h.unary hstarts
  operand least _ _ := (h.unary hstarts).operand q least
  expression := ((h.unary hstarts).operand 0 1).expression

/-- So is one with an operator before it, but not as a callee. -/
theorem ReadsUnary.readsBack (h : ReadsUnary e) (hq : q ≤ 7) : ReadsBack q e where
  callee h8 := absurd (Nat.le_trans h8 hq) (by decide)
  unary _ := h
  operand least _ _ := h.operand q least
  expression := (h.operand 0 1).expression

/-- Two operands with an operator between them are read back at all levels up to the operator. -/
theorem reads_operation {left right : Expr} {operator : Token} {p : Nat}
    (hp : operator.kind.precedence? = some p) (hq : q ≤ p) (hl : ReadsBack p left)
    (hr : ReadsBack (p + 1) right) (he : e.bare = (joined left operator right).bare)
    (htokens : e.tokens = left.tokens ++ operator :: right.tokens) : ReadsBack q e := by
  obtain ⟨hpos, hle⟩ := Kind.precedence_bounds hp
  have hright := hr.operand (p + 1) (Nat.le_add_left _ _) (Nat.le_refl _)
  have hall : ∀ q least, q ≤ p → 1 ≤ least → least ≤ p → ReadsOperand q least e :=
    fun q least hq hleast hle =>
      reads_joined hp hq hle (hl.operand least hleast hle) hright he htokens
  exact {
    callee := fun h8 => absurd h8 (by omega)
    unary := fun h7 => absurd h7 (by omega)
    operand := fun least hleast hlq => hall q least hq hleast (Nat.le_trans hlq hq)
    expression := (hall 0 1 (Nat.zero_le _) (Nat.le_refl _) hpos).expression }

/-- Every expression of the grammar's shape is read back, by induction over the shape. Each level of
the grammar is read by the reader of that level, and what binds more tightly is read by all readers
of looser levels. -/
theorem readsBack (h : e.Fits q) : ReadsBack q e := by
  induction h with
  | literal q id value =>
      exact (reads_literal id value).readsBack
        ((Expr.Fits.literal 8 id value).starts_operand (by decide)) q
  | ident q id kind =>
      exact (reads_ident id kind).readsBack
        ((Expr.Fits.ident 8 id kind).starts_operand (by decide)) q
  | grouping q id inside ih =>
      exact (reads_grouping id ih.expression).readsBack
        ((Expr.Fits.grouping 8 id inside).starts_operand (by decide)) q
  | @call q callee paren arguments id loose called passed kind few ihc ihp =>
      have hcall : ReadsCallee (.call id callee paren arguments) :=
        reads_call id (ihc.callee (by decide)) (fun e he => (ihp e he).expression)
          (fun e he => ⟨0, passed e he⟩) kind (maxArity_eq ▸ few)
      have hfits : (Expr.call id callee paren arguments).Fits 8 :=
        .call id (Nat.le_refl _) called passed kind few
      exact hcall.readsBack (hfits.starts_operand (Nat.le_refl _)) q
  | unary id loose kind inside ih =>
      exact (reads_unary id kind (ih.unary (by decide))).readsBack loose
  | binary id binds loose before after ihl ihr =>
      obtain ⟨hp, kind⟩ := mem_binaryLevels.mp binds
      exact reads_operation hp loose ihl ihr (by rw [joined, if_neg kind]; rfl) rfl
  | logical id binds loose before after ihl ihr =>
      obtain ⟨hp, kind⟩ := mem_logicalLevels.mp binds
      exact reads_operation hp loose ihl ihr (by rw [joined, if_pos kind]; rfl) rfl
  | assign id kind inside ih =>
      exact {
        callee := fun h8 => absurd h8 (by decide)
        unary := fun h7 => absurd h7 (by decide)
        operand := fun least hleast hle => absurd (Nat.le_trans hleast hle) (by decide)
        expression := reads_assign id kind ih.expression }

end Lox.Reader
