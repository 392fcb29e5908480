/-
What comes after an expression does not matter.

# Forks

An expression is read up to a token that cannot go on with it, and that token is only looked at. So
the same tokens are read as the same expression before a semicolon and before a closing parenthesis
(`expressionTurns`). A `Fork` puts two scripts side by side that have the same tokens up to some
place and go apart there, each with a token that may come after an expression. Where the first
reading ends without a fault and not after that place, the second one yields the same and stops at
the same token.

# Counting the tokens to the fork

At the place itself the two readings see different tokens. `Turns p k` counts how far a reading is
from it: the reader takes at least `p` tokens, and at least `k` are left to that place at its end. A
reader that takes a token, or leaves one, has only looked at tokens that both scripts have
(`Turns.look`). The counts add up along a bind: the tokens that the second reader takes are left by
the first (`Turns.bind`).

# At the fork

What is left are the readers that look at the token of the fork and stop: those for operators, for
calls and for an assignment. Neither token is an operator, an opening parenthesis or an equals sign,
so they stop in both scripts. The readers that call each other are done in one induction on their
bound, which may be larger in the second script (`ExpressionTurns`).
-/
import Lox.Proofs.Reader.Progress
import Lox.Proofs.Reader.ReadBack

namespace Lox.Reader

/-- Two scripts that go apart, each with a token that may come after an expression. Up to there they
have the same tokens, and an expression that ends there is read alike in both. -/
structure Fork where
  before : Setting
  after : Setting
  eof : before.eof.kind = .eof
  left : Token
  right : Token
  leftRest : List Token
  rightRest : List Token
  leftFollows : followsExpression left.kind
  rightFollows : followsExpression right.kind

namespace Fork

variable {α β : Type} {f : Fork} {s : State} {p k : Nat}

/-- The tokens of the first script after the fork. -/
def first (f : Fork) : List Token := f.left :: f.leftRest

/-- The second script, with the tokens `w` left before the fork. -/
def beside (f : Fork) (w : List Token) (issued : Nat) : State :=
  ⟨w ++ f.right :: f.rightRest, issued, []⟩

-- ==== The judgement

/-- What `x` yields in the first script takes at least `p` tokens. If nothing was noted and at least
`k` tokens are left to the fork, `x'` yields the same in the second script. -/
def Turns (f : Fork) (p k : Nat) (x x' : Reader α) (s : State) : Prop :=
  ∀ a s₁, x f.before s = (some a, s₁) →
    s.Leads s₁ ∧ s₁.rest.length + p ≤ s.rest.length ∧
      ∀ w w₁, s.rest = w ++ f.first → s₁.rest = w₁ ++ f.first → s₁.faults = [] → k ≤ w₁.length →
        x' f.after (f.beside w s.issued) = (some a, f.beside w₁ s₁.issued)

/-- Less may be said of the tokens taken, and more asked of those left. -/
theorem Turns.weaken {p' k' : Nat} {x x' : Reader α} (h : f.Turns p k x x' s) (hp : p' ≤ p)
    (hk : k ≤ k') : f.Turns p' k' x x' s := by
  intro a s₁ hx
  obtain ⟨hleads, htaken, hturn⟩ := h a s₁ hx
  exact ⟨hleads, by omega, fun w w₁ hw hw₁ hf hle => hturn w w₁ hw hw₁ hf (by omega)⟩

/-- The tokens that the second reader takes are left by the first. -/
theorem Turns.bind {p₁ p₂ k₁ : Nat} {x x' : Reader α} {g g' : α → Reader β}
    (hx : f.Turns p₁ k₁ x x' s) (hg : ∀ a s₁, s.Leads s₁ → f.Turns p₂ k (g a) (g' a) s₁)
    (hk : k₁ ≤ k + p₂) (hp : p ≤ p₁ + p₂) : f.Turns p k (x >>= g) (x' >>= g') s := by
  intro b s₂ h
  obtain ⟨a, s₁, hrun, hnext⟩ := run_of_bind h
  obtain ⟨hl₁, ht₁, hturn₁⟩ := hx a s₁ hrun
  obtain ⟨hl₂, ht₂, hturn₂⟩ := hg a s₁ hl₁ b s₂ hnext
  refine ⟨hl₁.trans hl₂, by omega, fun w w₂ hw hw₂ hclean hle => ?_⟩
  -- the place between the two readers lies before the fork, too
  obtain ⟨u, hu⟩ := hl₂.rest
  have hw₁ : s₁.rest = (u ++ w₂) ++ f.first := by rw [List.append_assoc, ← hw₂, hu]
  have hleft : k₁ ≤ (u ++ w₂).length := by
    have hlen₁ := congrArg List.length hw₁
    have hlen₂ := congrArg List.length hw₂
    rw [List.length_append] at hlen₁ hlen₂
    omega
  rw [bind_run (hturn₁ w _ hw hw₁ (hl₂.faults_nil hclean) hleft)]
  exact hturn₂ _ w₂ hw₁ hw₂ hclean hle

-- ==== The readers that look at no token

theorem turns_pure (a : α) : f.Turns 0 k (pure a) (pure a) s := by
  intro b s₁ hx
  obtain ⟨ha, rfl⟩ := Prod.mk.inj hx
  obtain rfl := Option.some.inj ha
  refine ⟨.refl _, Nat.le_refl _, fun w w₁ hw hw₁ _ _ => ?_⟩
  rw [List.append_cancel_right (hw.symm.trans hw₁)]
  rfl

theorem turns_fresh : f.Turns 0 k fresh fresh s := by
  intro id s₁ hx
  obtain ⟨hid, rfl⟩ := Prod.mk.inj hx
  obtain rfl := Option.some.inj hid
  refine ⟨.fresh, Nat.le_refl _, fun w w₁ hw hw₁ _ _ => ?_⟩
  rw [List.append_cancel_right (hw.symm.trans hw₁)]
  rfl

/-- A node takes the next identity. -/
theorem turns_made (make : Nat → α) :
    f.Turns 0 k (do return make (← fresh)) (do return make (← fresh)) s :=
  turns_fresh.bind (fun id _ _ => turns_pure (make id)) (Nat.le_add_right _ _) (Nat.le_refl _)

/-- A reading that notes a fault is not looked at. -/
theorem turns_note (t : Token) (problem : ParseProblem) {y' : Reader Unit} :
    f.Turns 0 k (note t problem) y' s := by
  intro _ s₁ hx
  obtain ⟨-, rfl⟩ := Prod.mk.inj hx
  refine ⟨.note _, Nat.le_refl _, fun w w₁ hw hw₁ hclean _ => ?_⟩
  simp at hclean

theorem turns_stop {x' : Reader α} : f.Turns p k stop x' s :=
  fun _ _ hx => nomatch (Prod.mk.inj hx).1

theorem turns_fail {x' : Reader α} (problem : ParseProblem) : f.Turns p k (fail problem) x' s :=
  fun _ _ hx => nomatch (Prod.mk.inj hx).1

-- ==== The readers that look at the next token

/-- A token of the first script is taken. It stands before the fork, or nothing is left to say: if
it stands after it, the reading has come further than the place up to which the scripts are
compared. -/
theorem Turns.past {x x' y y' : Reader α} {t : Token} {rest : List Token} (hr : s.rest = t :: rest)
    (h : f.Turns p k y y' { s with rest := rest })
    (hrun : x f.before s = y f.before { s with rest := rest })
    (hrun' : ∀ w, x' f.after (f.beside (t :: w) s.issued) = y' f.after (f.beside w s.issued)) :
    f.Turns (p + 1) k x x' s := by
  intro a s₁ hx
  obtain ⟨hleads, htaken, hturn⟩ := h a s₁ (hrun ▸ hx)
  have hlen : s.rest.length = rest.length + 1 := by rw [hr, List.length_cons]
  refine ⟨(State.Leads.skip hr).trans hleads, by dsimp only at htaken; omega, ?_⟩
  intro w w₁ hw hw₁ hclean hle
  cases w with
  | nil =>
      have hlen₀ := congrArg List.length hw
      have hlen₁ := congrArg List.length hw₁
      have hshort := hleads.length_le
      rw [List.length_append] at hlen₀ hlen₁
      dsimp only [List.length_nil] at hlen₀ hshort
      omega
  | cons t' w =>
      obtain ⟨rfl, hrest⟩ := List.cons.inj (hr.symm.trans hw)
      rw [hrun']
      exact hturn w w₁ hrest hw₁ hclean hle

/-- A token is looked at. At the fork the two scripts have different ones; that is of no account if
the reader goes on or leaves a token, and otherwise they have to come to the same. -/
theorem Turns.look {x x' y y' : Reader α} (h : f.Turns p k y y' s)
    (hrun : x f.before s = y f.before s)
    (hin : ∀ t rest w, s.rest = t :: rest →
      x' f.after (f.beside (t :: w) s.issued) = y' f.after (f.beside (t :: w) s.issued))
    (hend : 0 < p + k ∨ (s.rest = f.first →
      x' f.after (f.beside [] s.issued) = y' f.after (f.beside [] s.issued))) :
    f.Turns p k x x' s := by
  intro a s₁ hx
  obtain ⟨hleads, htaken, hturn⟩ := h a s₁ (hrun ▸ hx)
  refine ⟨hleads, htaken, fun w w₁ hw hw₁ hclean hle => ?_⟩
  rw [← hturn w w₁ hw hw₁ hclean hle]
  cases w with
  | cons t w => exact hin t _ w hw
  | nil =>
      rcases hend with hinside | hend
      · have hlen₀ := congrArg List.length hw
        have hlen₁ := congrArg List.length hw₁
        rw [List.length_append] at hlen₀ hlen₁
        dsimp only [List.length_nil] at hlen₀
        omega
      · exact hend hw

/-- Both readings look at the next token. At the fork it has to come to the same. -/
theorem turns_peek {g g' : Token → Reader α}
    (hg : ∀ t, t = s.rest.headD f.before.eof → f.Turns p k (g t) (g' t) s)
    (hend : 0 < p + k ∨
      g' f.right f.after (f.beside [] s.issued) = g' f.left f.after (f.beside [] s.issued)) :
    f.Turns p k (peek >>= g) (peek >>= g') s := by
  refine (hg _ rfl).look rfl (fun t rest w hr => ?_) (hend.imp_right fun hend hs => ?_)
  · rw [hr]
    rfl
  · rw [hs]
    exact hend

/-- Looking for a kind, by a reading that takes or leaves a token. -/
theorem turns_sees {g g' : Bool → Reader α} (kind : Kind)
    (hg : ∀ found, f.Turns p k (g found) (g' found) s) (hinside : 0 < p + k) :
    f.Turns p k (sees kind >>= g) (sees kind >>= g') s := by
  cases hr : s.rest with
  | nil =>
      refine (hg false).look ?_ (fun t rest w hs => ?_) (.inl hinside)
      · simp [Bind.bind, sees, hr]
      · rw [hr] at hs
        cases hs
  | cons t rest =>
      refine (hg (decide (t.kind = kind))).look ?_ (fun t' rest' w hs => ?_) (.inl hinside)
      · simp [Bind.bind, sees, hr]
      · obtain ⟨rfl, -⟩ := List.cons.inj (hr.symm.trans hs)
        simp [Bind.bind, sees, beside]

/-- A token is taken in both scripts or in neither. -/
theorem turns_accept {g g' : Bool → Reader α} (kind : Kind)
    (found : ∀ t rest, s.rest = t :: rest → t.kind = kind →
      f.Turns p k (g true) (g' true) { s with rest := rest })
    (missing : f.Turns p k (g false) (g' false) s) (hend : 0 < p + k ∨ f.right.kind ≠ kind) :
    f.Turns p k (accept kind >>= g) (accept kind >>= g') s := by
  rcases front_cases s kind with ⟨t, rest, hr, hk⟩ | hother
  · refine ((found t rest hr hk).past hr (bind_run (accept_run_found hr hk)) fun w => ?_).weaken
      (Nat.le_succ p) (Nat.le_refl k)
    exact bind_run (accept_run_found rfl hk)
  · refine missing.look (bind_run (accept_run_missing hother)) (fun t rest w hr => ?_)
      (hend.imp_right fun hright _ => ?_)
    · refine bind_run (accept_run_missing fun t' rest' hs => ?_)
      obtain ⟨rfl, -⟩ := List.cons.inj hs
      exact hother t rest hr
    · refine bind_run (accept_run_missing fun t' rest' hs => ?_)
      obtain ⟨rfl, -⟩ := List.cons.inj hs
      exact hright

/-- Going over a token. -/
theorem turns_skip {g g' : Unit → Reader α} {t : Token} {rest : List Token}
    (hr : s.rest = t :: rest) (hg : f.Turns p k (g ()) (g' ()) { s with rest := rest }) :
    f.Turns (p + 1) k (skip >>= g) (skip >>= g') s := by
  refine hg.past hr ?_ fun w => rfl
  simp [Bind.bind, skip, hr]

/-- A token that is expected and found is taken. If it is not, there is a fault. -/
theorem turns_expect {kind : Kind} {problem : ParseProblem} {g g' : Token → Reader α}
    (hg : ∀ t rest, s.rest = t :: rest → t.kind = kind →
      f.Turns p k (g t) (g' t) { s with rest := rest }) :
    f.Turns (p + 1) k (expect kind problem >>= g) (expect kind problem >>= g') s := by
  rcases front_cases s kind with ⟨t, rest, hr, hk⟩ | hother
  · exact (hg t rest hr hk).past hr (bind_run (expect_run_found hr hk)) fun w =>
      bind_run (expect_run_found rfl hk)
  · -- what is expected is not there
    intro a s₁ hx
    rw [bind_stopped (expect_run_missing hother)] at hx
    cases hx

-- ==== Readers of expressions

/-- One token, from which a leaf is made. -/
theorem turns_leaf {t : Token} {rest : List Token} (hr : s.rest = t :: rest) (make : Nat → Expr) :
    f.Turns 1 0 (do skip; return make (← fresh)) (do skip; return make (← fresh)) s :=
  turns_skip hr (turns_made make)

/-- The node of an operator between two operands. -/
theorem turns_join (left right : Expr) (operator : Token) :
    f.Turns 0 k (join left operator right) (join left operator right) s := by
  unfold join
  refine turns_fresh.bind (fun id s₁ _ => ?_) (Nat.le_add_right k 0) (Nat.le_refl _)
  split
  · exact turns_pure _
  · exact turns_pure _

/-- An expression that needs no operator takes a token, which stands before the fork in both
scripts. A group is read up to its closing parenthesis. -/
theorem turns_primary {x x' : Reader Expr} (hx : ∀ s, f.Turns 1 0 x x' s) :
    f.Turns 1 0 (primary x) (primary x') s := by
  unfold primary
  refine turns_peek (fun t ht => ?_) (.inl Nat.one_pos)
  have front : t.kind ≠ .eof → ∃ rest, s.rest = t :: rest :=
    State.front_of_kind f.eof ht
  cases hk : t.kind with
  | «false» => exact turns_leaf (front (by simp [hk])).choose_spec (.literal · (.bool false))
  | «true» => exact turns_leaf (front (by simp [hk])).choose_spec (.literal · (.bool true))
  | nil => exact turns_leaf (front (by simp [hk])).choose_spec (.literal · .nil)
  | number => exact turns_leaf (front (by simp [hk])).choose_spec (.literal · t.literal)
  | string => exact turns_leaf (front (by simp [hk])).choose_spec (.literal · t.literal)
  | identifier => exact turns_leaf (front (by simp [hk])).choose_spec (.ident · t)
  | leftParen =>
      obtain ⟨rest, hr⟩ := front (by simp [hk])
      have inside : ∀ s, f.Turns 0 0
          (do let inner ← x; let _ ← expect .rightParen .unclosedGroup
              return Expr.grouping (← fresh) inner)
          (do let inner ← x'; let _ ← expect .rightParen .unclosedGroup
              return Expr.grouping (← fresh) inner) s := by
        intro s
        refine (hx s).bind (fun inner s₁ _ => ?_) (Nat.zero_le (0 + 1)) (Nat.zero_le _)
        exact turns_expect fun _ _ _ _ => turns_made (Expr.grouping · inner)
      exact turns_skip hr (inside _)
  | _ => exact turns_fail _

/-- At the fork there is no equals sign, in neither script: it does not follow an expression there.
So what was read up to the fork is no target in either. -/
theorem turns_assignment {x x' : Reader Expr} (target : Expr) (hx : ∀ s, f.Turns 1 0 x x' s) :
    f.Turns 0 0 (assignment target x) (assignment target x') s := by
  have hequal : f.right.kind ≠ .equal := by
    intro hk
    have := f.rightFollows
    simp [hk, followsExpression] at this
  unfold assignment
  refine turns_peek (fun equals _ => ?_) (.inr ?_)
  · refine turns_accept .equal (fun t rest hr hk => ?_) (turns_pure target) (.inr hequal)
    refine (hx _).bind (fun value s₁ _ => ?_) (Nat.zero_le (0 + 0)) (Nat.zero_le _)
    cases target with
    | ident id name => exact turns_made (Expr.assign · name value)
    | _ =>
        refine (turns_note equals .invalidTarget).bind (fun _ s₂ _ => turns_pure _) (Nat.zero_le _)
          (Nat.zero_le _)
  · have missing : ∀ t rest, (f.beside [] s.issued).rest = t :: rest → t.kind ≠ .equal := by
      intro t rest hs
      obtain ⟨rfl, -⟩ := List.cons.inj hs
      exact hequal
    rw [bind_run (accept_run_missing missing), bind_run (accept_run_missing missing)]
    rfl

end Fork

-- ==== Readers that call each other

/-- All readers of expressions, at a bound and a larger one. The bounds may differ, since the
scripts may be of different length. -/
structure ExpressionTurns (f : Fork) (n n' : Nat) : Prop where
  expression : ∀ s, f.Turns 1 0 (expression n) (expression n') s
  operation : ∀ least s, f.Turns 1 0 (operation n least) (operation n' least) s
  operators : ∀ least left s, f.Turns 0 0 (operators n least left) (operators n' least left) s
  unary : ∀ s, f.Turns 1 0 (unary n) (unary n') s
  calls : ∀ callee s, f.Turns 0 0 (calls n callee) (calls n' callee) s
  arguments : ∀ before s, f.Turns 1 1 (arguments n before) (arguments n' before) s

namespace ExpressionTurns

open Fork

variable {f : Fork} {n n' : Nat} {s : State}

/-- An expression takes a token, and may be assigned to. -/
theorem expression_succ (h : ExpressionTurns f n n') :
    f.Turns 1 0 (Reader.expression (n + 1)) (Reader.expression (n' + 1)) s :=
  (h.operation 1 s).bind (fun target _ _ => turns_assignment target h.expression) (Nat.zero_le _)
    (Nat.le_refl _)

theorem operation_succ (h : ExpressionTurns f n n') (least : Nat) :
    f.Turns 1 0 (Reader.operation (n + 1) least) (Reader.operation (n' + 1) least) s :=
  (h.unary s).bind (fun left s₁ _ => h.operators least left s₁) (Nat.zero_le _) (Nat.le_refl _)

/-- At the fork there is no operator, in neither script. An operator before it is taken in both,
with its right operand. -/
theorem operators_succ (h : ExpressionTurns f n n') (least : Nat) (left : Expr) :
    f.Turns 0 0 (Reader.operators (n + 1) least left) (Reader.operators (n' + 1) least left) s := by
  rw [Reader.operators, Reader.operators]
  refine turns_peek (fun t ht => ?_) (.inr ?_)
  · cases hp : t.kind.precedence? with
    | none => exact turns_pure left
    | some precedence =>
        dsimp only
        split
        · obtain ⟨rest, hr⟩ := State.front_of_kind f.eof ht (Kind.ne_eof_of_precedence hp)
          have goes : ∀ s, f.Turns 0 0
              (do let right ← Reader.operation n (precedence + 1)
                  Reader.operators n least (← join left t right))
              (do let right ← Reader.operation n' (precedence + 1)
                  Reader.operators n' least (← join left t right)) s := by
            intro s
            refine (h.operation _ s).bind (fun right s₁ _ => ?_) (Nat.zero_le (0 + 0))
              (Nat.zero_le _)
            exact (turns_join left right t).bind (fun e s₂ _ => h.operators least e s₂)
              (Nat.zero_le _) (Nat.le_refl _)
          exact (turns_skip hr (goes _)).weaken (Nat.zero_le _) (Nat.le_refl _)
        · exact turns_pure left
  · rw [precedence_of_follows f.leftFollows, precedence_of_follows f.rightFollows]

/-- An operand takes a token, which is an operator or starts an expression. -/
theorem unary_succ (h : ExpressionTurns f n n') :
    f.Turns 1 0 (Reader.unary (n + 1)) (Reader.unary (n' + 1)) s := by
  rw [Reader.unary, Reader.unary]
  refine turns_peek (fun t ht => ?_) (.inl Nat.one_pos)
  split
  next hk =>
    obtain ⟨rest, hr⟩ := State.front_of_kind f.eof ht (by rcases hk with hk | hk <;> simp [hk])
    have operand : ∀ s, f.Turns 0 0
        (do let operand ← Reader.unary n; return Expr.unary (← fresh) t operand)
        (do let operand ← Reader.unary n'; return Expr.unary (← fresh) t operand) s := by
      intro s
      exact (h.unary s).bind (fun operand _ _ => turns_made (Expr.unary · t operand))
        (Nat.zero_le _) (Nat.zero_le _)
    exact turns_skip hr (operand _)
  next =>
    exact (turns_primary h.expression).bind (fun callee s₁ _ => h.calls callee s₁) (Nat.zero_le _)
      (Nat.le_refl _)

/-- At the fork there is no opening parenthesis, and a call is closed before it. So what was read up
to the fork is called in neither script. -/
theorem calls_succ (h : ExpressionTurns f n n') (callee : Expr) :
    f.Turns 0 0 (Reader.calls (n + 1) callee) (Reader.calls (n' + 1) callee) s := by
  have hparen : f.right.kind ≠ .leftParen := by
    intro hk
    have := f.rightFollows
    simp [hk, followsExpression] at this
  have close : ∀ args s, f.Turns 1 0
      (do let paren ← expect .rightParen .unclosedArguments
          Reader.calls n (.call (← fresh) callee paren args))
      (do let paren ← expect .rightParen .unclosedArguments
          Reader.calls n' (.call (← fresh) callee paren args)) s := by
    intro args s
    refine turns_expect fun paren rest _ _ => ?_
    exact turns_fresh.bind (fun id s₁ _ => h.calls _ s₁) (Nat.zero_le _) (Nat.le_refl _)
  rw [Reader.calls, Reader.calls]
  refine turns_accept .leftParen (fun t rest _ _ => ?_) (turns_pure callee) (.inr hparen)
  refine (turns_sees .rightParen (fun found => ?_) Nat.one_pos).weaken (Nat.zero_le 1)
    (Nat.le_refl 0)
  cases found with
  | true => exact close [] _
  | false =>
      exact (h.arguments [] _).bind (fun args s₁ _ => close args s₁) (Nat.le_refl _) (Nat.le_succ _)

/-- Arguments are followed by a closing parenthesis, so the fork lies further on. -/
theorem arguments_succ (h : ExpressionTurns f n n') (before : List Expr) :
    f.Turns 1 1 (Reader.arguments (n + 1) before) (Reader.arguments (n' + 1) before) s := by
  have next : ∀ s, f.Turns 1 1
      (do let arg ← Reader.expression n
          if ← accept .comma then Reader.arguments n (before ++ [arg]) else return before ++ [arg])
      (do let arg ← Reader.expression n'
          if ← accept .comma then Reader.arguments n' (before ++ [arg]) else return before ++ [arg])
      s := by
    intro s
    refine (h.expression s).bind (fun arg s₁ _ => ?_) (Nat.zero_le (1 + 0)) (Nat.le_refl _)
    refine turns_accept .comma (fun t rest _ _ => ?_) (turns_pure _) (.inl (Nat.succ_pos _))
    exact (h.arguments _ _).weaken (Nat.zero_le _) (Nat.le_refl _)
  rw [Reader.arguments, Reader.arguments]
  split
  · refine turns_peek (fun t _ => ?_) (.inl (Nat.succ_pos _))
    exact (turns_note t _).bind (fun _ s₁ _ => next s₁) (Nat.zero_le _) (Nat.le_refl _)
  · exact next s

/-- At bound zero nothing is yielded. -/
theorem zero : ExpressionTurns f 0 n' where
  expression _ := turns_stop
  operation _ _ := turns_stop
  operators _ _ _ := turns_stop
  unary _ := turns_stop
  calls _ _ := turns_stop
  arguments _ _ := turns_stop

end ExpressionTurns

/-- Every reader of expressions does the same in the second script, at any larger bound. -/
theorem expressionTurns (f : Fork) {n n' : Nat} (hn : n ≤ n') : ExpressionTurns f n n' := by
  induction n generalizing n' with
  | zero => exact .zero
  | succ n ih =>
      obtain ⟨m, rfl⟩ : ∃ m, n' = m + 1 := ⟨n' - 1, by omega⟩
      have h : ExpressionTurns f n m := ih (Nat.le_of_succ_le_succ hn)
      exact ⟨fun _ => h.expression_succ, fun least _ => h.operation_succ least,
        fun least left _ => h.operators_succ least left, fun _ => h.unary_succ,
        fun callee _ => h.calls_succ callee, fun before _ => h.arguments_succ before⟩

end Lox.Reader
