/-
Statements are read the same further down.

# Marks at the end

A statement ends with a mark of its own, a semicolon or a brace, so its reader asks for nothing of
the tokens after it, and it needs a token at its start (`CopiesTaking`). Inside, an expression
leaves a token and the mark after it takes that one (`ended_taking`, `clause_taking`).

# The one look ahead

The one look ahead is for the `else` of an `if`. Where the first reading has no token left, the
second one sees the first token of the tail, and no tail starts with an `else`
(`acceptElse_copies`).

# Declarations

A declaration that is given up is noted as a fault where the bound on the depth of calls is not
reached, and then the reading is not looked at (`recover_copies`). So the readers that call each
other carry that bound, as in the proof that they go forward; after a keyword there is room again
for all of them (`room`). A list of declarations looks for a further one, so it asks for a token to
be left or for both readings to end together (`declarations_succ`). A block has its closing brace
for that.
-/
import Lox.Proofs.Reader.ReplayExpression
import Lox.Proofs.Reader.Statement

namespace Lox.Reader

variable {r : Replay} {s : State} {x x' : Reader Expr} {y y' : Reader Stmt}

namespace Replay

-- ==== The front of what is left

/-- What starts with a look at the next token, and needs one. -/
theorem peek_bind {α : Type} {move : α → α} {f f' : Token → Reader α}
    (hf : ∀ t, t = s.rest.headD r.before.eof → r.CopiesTaking move (f t) (f' (t.moved r.δ)) s) :
    r.CopiesTaking move (peek >>= f) (peek >>= f') s := by
  intro a s₁ h
  obtain ⟨hleads, hne, hcopy⟩ := hf _ rfl a s₁ h
  refine ⟨hleads, hne, fun hnone hpost => ?_⟩
  rw [← hcopy hnone hpost, ← headD_state (.inl hne)]
  rfl

/-- Going over a token that is there. -/
theorem skip_bind {α : Type} {move : α → α} {f f' : Unit → Reader α} {t : Token} {rest : List Token}
    (hr : s.rest = t :: rest) (hf : r.Copies move (f ()) (f' ()) { s with rest := rest }) :
    r.CopiesTaking move (skip >>= f) (skip >>= f') s := by
  have hskip : (skip >>= f) r.before s = f () r.before { s with rest := rest } := by
    simp [Bind.bind, skip, hr]
  have hskip' : (skip >>= f') r.after (r.state s)
      = f' () r.after (r.state { s with rest := rest }) := by
    simp [Bind.bind, skip, state, hr]
  intro a s₁ h
  rw [hskip] at h
  obtain ⟨hleads, -, hcopy⟩ := hf a s₁ h
  refine ⟨(State.Leads.skip hr).trans hleads, by simp [hr], fun hnone hpost => ?_⟩
  rw [hskip']
  exact hcopy hnone hpost

/-- The tail does not start with an `else`. This is the one token that is looked for after a
statement, so what stands behind the copy matters at no other place. -/
theorem acceptElse_copies : r.Copies id (accept .else) (accept .else) s := by
  cases hr : s.rest with
  | cons t rest =>
      intro found s₁ h
      by_cases hk : t.kind = .else
      · have hrun : accept .else r.before s = (some true, { s with rest := rest }) := by
          simp [accept, Bind.bind, Pure.pure, sees, skip, hr, hk]
        obtain ⟨hfound, rfl⟩ := Prod.mk.inj (hrun.symm.trans h)
        obtain rfl := Option.some.inj hfound
        refine ⟨.skip hr, trivial, fun _ _ => ?_⟩
        simp [accept, Bind.bind, Pure.pure, sees, skip, state, hr, hk]
      · have hrun : accept .else r.before s = (some false, s) := by
          simp [accept, Bind.bind, Pure.pure, sees, hr, hk]
        obtain ⟨hfound, rfl⟩ := Prod.mk.inj (hrun.symm.trans h)
        obtain rfl := Option.some.inj hfound
        refine ⟨.refl _, trivial, fun _ _ => ?_⟩
        simp [accept, Bind.bind, Pure.pure, sees, state, hr, hk]
  | nil =>
      intro found s₁ h
      have hrun : accept .else r.before s = (some false, s) := by
        simp [accept, Bind.bind, Pure.pure, sees, hr]
      obtain ⟨hfound, rfl⟩ := Prod.mk.inj (hrun.symm.trans h)
      obtain rfl := Option.some.inj hfound
      refine ⟨.refl _, trivial, fun _ _ => ?_⟩
      cases htail : r.tail with
      | nil => simp [accept, Bind.bind, Pure.pure, sees, state, hr, htail]
      | cons t rest =>
          simp [accept, Bind.bind, Pure.pure, sees, state, hr, htail, r.next t rest htail]

-- ==== Readers that take readers

/-- The mark at the end of a statement, and its node. -/
theorem ended_taking {kind : Kind} {problem : ParseProblem} {make make' : Nat → Stmt}
    (h : ∀ id, make' id = r.stmt (make id)) :
    r.CopiesTaking r.stmt (do let _ ← expect kind problem; return make (← fresh))
      (do let _ ← expect kind problem; return make' (← fresh)) s :=
  expect_bind fun _ _ _ _ => made_copies h

/-- An expression and a semicolon. -/
theorem expressionStatement_taking (hx : ∀ s, r.CopiesOpen r.expr x x' s) :
    r.CopiesTaking r.stmt (expressionStatement x) (expressionStatement x') s :=
  open_bind_taking (hx s) fun _ _ _ => ended_taking fun _ => rfl

/-- A `print` statement. -/
theorem printStatement_taking (hx : ∀ s, r.CopiesOpen r.expr x x' s) :
    r.CopiesTaking r.stmt (printStatement x) (printStatement x') s :=
  open_bind_taking (hx s) fun _ _ _ => ended_taking fun _ => rfl

/-- An expression that may be left out, before the mark of this kind. -/
theorem clause_taking {α : Type} {move : α → α} {kind : Kind} {f f' : Expr → Reader α}
    (hx : ∀ s, r.CopiesOpen r.expr x x' s)
    (hf : ∀ e s₁, s.Leads s₁ → r.CopiesTaking move (f e) (f' (r.expr e)) s₁) :
    r.CopiesTaking move
      (do let e ← if ← sees kind then pure .absent else x
          f e)
      (do let e ← if ← sees kind then pure .absent else x'
          f' e) s := by
  refine open_bind_taking (sees_open kind) fun found s₁ hl₁ => ?_
  cases found with
  | true => exact hf .absent s₁ hl₁
  | false => exact open_bind_taking (hx s₁) fun e s₂ hl₂ => hf e s₂ (hl₁.trans hl₂)

/-- A `return` statement. Its keyword is moved down, too. -/
theorem returnStatement_taking (keyword : Token) (hx : ∀ s, r.CopiesOpen r.expr x x' s) :
    r.CopiesTaking r.stmt (returnStatement keyword x) (returnStatement (keyword.moved r.δ) x') s :=
  clause_taking hx fun _ _ _ => ended_taking fun _ => rfl

/-- A variable declaration, with or without an initializer. -/
theorem varDeclaration_taking (hx : ∀ s, r.CopiesOpen r.expr x x' s) :
    r.CopiesTaking r.stmt (varDeclaration x) (varDeclaration x') s := by
  refine expect_bind fun name rest _ _ => CopiesTaking.any ?_
  refine open_bind_taking (accept_open _) fun found s₁ _ => ?_
  cases found with
  | true => exact open_bind_taking (hx s₁) fun _ _ _ => ended_taking fun _ => rfl
  | false => exact ended_taking fun _ => rfl

/-- A `while` statement ends as its body does. -/
theorem whileStatement_taking (hx : ∀ s, r.CopiesOpen r.expr x x' s)
    (hy : ∀ s₁, s.Leads s₁ → r.Copies r.stmt y y' s₁) :
    r.CopiesTaking r.stmt (whileStatement x y) (whileStatement x' y') s := by
  refine expect_bind fun _ rest hr _ => CopiesTaking.any ?_
  refine open_bind_taking (hx _) fun condition s₁ hl₁ => expect_bind fun _ rest₁ hr₁ _ => ?_
  have hl := (State.Leads.skip hr).trans (hl₁.trans (.skip hr₁))
  exact copies_bind (hy _ hl) fun body s₂ _ => made_copies fun _ => rfl

/-- An `if` statement. If it has no `else`, then none is found in the tail. -/
theorem ifStatement_taking (hx : ∀ s, r.CopiesOpen r.expr x x' s)
    (hy : ∀ s₁, s.Leads s₁ → r.Copies r.stmt y y' s₁) :
    r.CopiesTaking r.stmt (ifStatement x y) (ifStatement x' y') s := by
  refine expect_bind fun _ rest hr _ => CopiesTaking.any ?_
  refine open_bind_taking (hx _) fun condition s₁ hl₁ => expect_bind fun _ rest₁ hr₁ _ => ?_
  have hl := (State.Leads.skip hr).trans (hl₁.trans (.skip hr₁))
  refine copies_bind (hy _ hl) fun positive s₂ hl₂ => ?_
  refine copies_bind acceptElse_copies fun found s₃ hl₃ => ?_
  cases found with
  | true =>
      refine copies_bind (hy _ (hl.trans (hl₂.trans hl₃))) fun negative s₄ _ => ?_
      exact made_copies fun _ => rfl
  | false =>
      show r.Copies r.stmt (do return .branch (← fresh) condition positive .absent)
        (do return .branch (← fresh) (r.expr condition) (r.stmt positive) .absent) s₃
      exact made_copies fun _ => rfl

/-- The first clause of a `for` statement, after which a condition or a semicolon is looked for. -/
theorem forInitializer_open (hx : ∀ s, r.CopiesOpen r.expr x x' s) :
    r.CopiesOpen r.stmt (forInitializer x) (forInitializer x') s := by
  refine open_bind (accept_open _) fun ended s₁ _ => ?_
  cases ended with
  | true => exact Copies.opening (pure_copies rfl)
  | false =>
      refine open_bind (accept_open _) fun declares s₂ _ => ?_
      cases declares with
      | true => exact (varDeclaration_taking hx).any.opening
      | false => exact (expressionStatement_taking hx).any.opening

theorem bodyThen_copies (body : Stmt) (increment : Expr) :
    r.Copies r.stmt (bodyThen body increment) (bodyThen (r.stmt body) (r.expr increment)) s := by
  have habsent : (r.expr increment).isAbsent = increment.isAbsent := increment.isAbsent_moved
  unfold bodyThen
  rw [habsent]
  split
  · refine copies_bind form_copies fun loops s₁ _ => ?_
    cases loops with
    | compact => exact pure_copies rfl
    | full => exact made_copies fun _ => rfl
  · exact copies_bind fresh_copies fun outer s₁ _ => made_copies fun _ => rfl

theorem conditionOrTrue_copies (condition : Expr) :
    r.Copies r.expr (conditionOrTrue condition) (conditionOrTrue (r.expr condition)) s := by
  have habsent : (r.expr condition).isAbsent = condition.isAbsent := condition.isAbsent_moved
  unfold conditionOrTrue
  rw [habsent]
  split
  · exact made_copies fun _ => rfl
  · exact pure_copies rfl

theorem initializerThen_copies (initializer loop : Stmt) :
    r.Copies r.stmt (initializerThen initializer loop)
      (initializerThen (r.stmt initializer) (r.stmt loop)) s := by
  have habsent : (r.stmt initializer).isAbsent = initializer.isAbsent := initializer.isAbsent_moved
  unfold initializerThen
  rw [habsent]
  split
  · refine copies_bind form_copies fun loops s₁ _ => ?_
    cases loops with
    | compact => exact pure_copies rfl
    | full => exact made_copies fun _ => rfl
  · exact made_copies fun _ => rfl

/-- A `for` statement, whatever clauses it has. -/
theorem forStatement_taking (hx : ∀ s, r.CopiesOpen r.expr x x' s)
    (hy : ∀ s₁, s.Leads s₁ → r.Copies r.stmt y y' s₁) :
    r.CopiesTaking r.stmt (forStatement x y) (forStatement x' y') s := by
  refine expect_bind fun _ rest hr _ => CopiesTaking.any ?_
  refine open_bind_taking (forInitializer_open hx) fun initializer s₁ hl₁ => ?_
  refine clause_taking hx fun condition s₂ hl₂ => expect_bind fun _ rest₂ hr₂ _ => CopiesTaking.any ?_
  refine clause_taking hx fun increment s₃ hl₃ => expect_bind fun _ rest₃ hr₃ _ => ?_
  have hl : s.Leads { s₃ with rest := rest₃ } :=
    (State.Leads.skip hr).trans (hl₁.trans (hl₂.trans ((State.Leads.skip hr₂).trans
      (hl₃.trans (.skip hr₃)))))
  refine copies_bind (hy _ hl) fun body s₄ _ => ?_
  refine copies_bind (bodyThen_copies body increment) fun body s₅ _ => ?_
  refine copies_bind (conditionOrTrue_copies condition) fun condition s₆ _ => ?_
  exact copies_bind fresh_copies fun id s₇ _ => initializerThen_copies initializer _

/-- Parameters, after which a parenthesis is looked for. By induction on the depth; the copy has as
much depth left or more, and does not run out of it either. -/
theorem parameters_open {n n' : Nat} (hn : n ≤ n') (before : List Token) :
    r.CopiesOpen (List.map (Token.moved r.δ)) (parameters n before)
      (parameters n' (before.map (Token.moved r.δ))) s := by
  induction n generalizing n' before s with
  | zero => exact stop_copies
  | succ n ih =>
      obtain ⟨m, rfl⟩ : ∃ m, n' = m + 1 := ⟨n' - 1, by omega⟩
      have next : ∀ s, r.CopiesOpen (List.map (Token.moved r.δ))
          (do let param ← expect .identifier .noParameterName
              if ← accept .comma then parameters n (before ++ [param])
              else return before ++ [param])
          (do let param ← expect .identifier .noParameterName
              if ← accept .comma then parameters m (before.map (Token.moved r.δ) ++ [param])
              else return before.map (Token.moved r.δ) ++ [param]) s := by
        intro s
        refine Follows.any (expect_bind fun param rest _ _ => ?_)
        refine open_bind (accept_open _) fun found s₁ _ => ?_
        have happend : (before ++ [param]).map (Token.moved r.δ)
            = before.map (Token.moved r.δ) ++ [param.moved r.δ] := List.map_append
        rw [← happend]
        cases found with
        | true => exact ih (Nat.le_of_succ_le_succ hn) _
        | false => exact Copies.opening (pure_copies rfl)
      rw [parameters, parameters, List.length_map]
      split
      · refine open_bind peek_open fun t s₁ _ => ?_
        exact open_bind (note_copies _ _ _).opening fun _ s₂ _ => next s₂
      · exact next s

/-- A function declaration ends as its block does, with a brace. So it does not look at what stands
behind it. -/
theorem functionDeclaration_taking {params params' : Reader (List Token)}
    {block block' : Reader (List Stmt)}
    (hp : ∀ s, r.CopiesOpen (List.map (Token.moved r.δ)) params params' s)
    (hb : ∀ s₁, s.Leads s₁ → r.Copies r.stmts block block' s₁) :
    r.CopiesTaking r.stmt (functionDeclaration params block)
      (functionDeclaration params' block') s := by
  refine expect_bind fun name rest hr _ => CopiesTaking.any ?_
  refine expect_bind fun _ rest₁ hr₁ _ => CopiesTaking.any ?_
  have hl₁ : s.Leads { s with rest := rest₁ } := (State.Leads.skip hr).trans (.skip hr₁)
  have close : ∀ ps s₂, s.Leads s₂ → r.CopiesTaking r.stmt
      (do let _ ← expect .rightParen .unclosedParameters
          let _ ← expect .leftBrace .unopenedBody
          let body ← block
          return .function (← fresh) name ps body)
      (do let _ ← expect .rightParen .unclosedParameters
          let _ ← expect .leftBrace .unopenedBody
          let body ← block'
          return .function (← fresh) (name.moved r.δ) (ps.map (Token.moved r.δ)) body) s₂ := by
    intro ps s₂ hl₂
    refine expect_bind fun _ rest₂ hr₂ _ => CopiesTaking.any ?_
    refine expect_bind fun _ rest₃ hr₃ _ => ?_
    refine copies_bind (hb _ (hl₂.trans ((State.Leads.skip hr₂).trans (.skip hr₃)))) fun body _ _ => ?_
    exact made_copies fun _ => rfl
  refine open_bind_taking (sees_open _) fun found s₂ hl₂ => ?_
  cases found with
  | true => exact close [] s₂ (hl₁.trans hl₂)
  | false => exact open_bind_taking (hp s₂) fun ps s₃ hl₃ => close ps s₃ (hl₁.trans (hl₂.trans hl₃))

end Replay

-- ==== Readers that call each other

/-- All readers of statements, at a bound and a larger one. -/
structure StatementCopies (r : Replay) (n n' : Nat) : Prop where
  statement : ∀ s, 10 * s.rest.length + 5 ≤ n →
    r.CopiesTaking r.stmt (statement n) (statement n') s
  declaration : ∀ s, 10 * s.rest.length + 6 ≤ n →
    r.CopiesTaking r.stmt (declaration n) (declaration n') s
  block : ∀ s, 10 * s.rest.length + 8 ≤ n →
    r.CopiesTaking r.stmts (block n) (block n') s
  declarations : ∀ enclosed s, 10 * s.rest.length + 7 ≤ n →
    r.CopiesOpen r.stmts (declarations n enclosed) (declarations n' enclosed) s

namespace StatementCopies

open Replay

variable {n n' : Nat}

/-- After a keyword, the bound is enough for a block. -/
theorem room {c : Nat} {t : Token} {rest : List Token} (hr : s.rest = t :: rest) (hc : 5 ≤ c)
    (hroom : 10 * s.rest.length + c ≤ n + 1) {s₁ : State}
    (hl : State.Leads { s with rest := rest } s₁) : 10 * s₁.rest.length + 8 ≤ n := by
  have hlen : s₁.rest.length ≤ rest.length := hl.length_le
  rw [hr, List.length_cons] at hroom
  omega

/-- A statement is told by the kind of its first token, which its copy has too. The room is there
for the statements inside, of which fewer tokens are left. -/
theorem statement_succ (h : StatementCopies r n n') (hn : n ≤ n')
    (hroom : 10 * s.rest.length + 5 ≤ n + 1) :
    r.CopiesTaking r.stmt (Reader.statement (n + 1)) (Reader.statement (n' + 1)) s := by
  have hx := (expressionCopies r hn).expression
  rw [Reader.statement, Reader.statement]
  refine peek_bind fun t ht => ?_
  have hy : ∀ rest, s.rest = t :: rest → ∀ s₁, State.Leads { s with rest := rest } s₁ →
      r.Copies r.stmt (Reader.statement n) (Reader.statement n') s₁ := by
    intro rest hr s₁ hl
    have hroom₁ := room hr (Nat.le_refl _) hroom hl
    exact (h.statement s₁ (by omega)).any
  rw [Token.moved_kind]
  split
  next hk =>
    obtain ⟨rest, hr⟩ := State.front_of_kind r.eof ht (by rw [hk]; exact Kind.noConfusion)
    exact skip_bind hr (forStatement_taking hx (hy rest hr)).any
  next hk =>
    obtain ⟨rest, hr⟩ := State.front_of_kind r.eof ht (by rw [hk]; exact Kind.noConfusion)
    exact skip_bind hr (ifStatement_taking hx (hy rest hr)).any
  next hk =>
    obtain ⟨rest, hr⟩ := State.front_of_kind r.eof ht (by rw [hk]; exact Kind.noConfusion)
    exact skip_bind hr (printStatement_taking hx).any
  next hk =>
    obtain ⟨rest, hr⟩ := State.front_of_kind r.eof ht (by rw [hk]; exact Kind.noConfusion)
    exact skip_bind hr (returnStatement_taking t hx).any
  next hk =>
    obtain ⟨rest, hr⟩ := State.front_of_kind r.eof ht (by rw [hk]; exact Kind.noConfusion)
    exact skip_bind hr (whileStatement_taking hx (hy rest hr)).any
  next hk =>
    obtain ⟨rest, hr⟩ := State.front_of_kind r.eof ht (by rw [hk]; exact Kind.noConfusion)
    refine skip_bind hr (copies_bind ?_ fun body _ _ => made_copies fun _ => rfl)
    exact (h.block _ (room hr (Nat.le_refl _) hroom (.refl _))).any
  next => exact expressionStatement_taking hx

/-- A declaration is told by its keyword, or is a statement. -/
theorem declaration_succ (h : StatementCopies r n n') (hn : n ≤ n')
    (hroom : 10 * s.rest.length + 6 ≤ n + 1) :
    r.CopiesTaking r.stmt (Reader.declaration (n + 1)) (Reader.declaration (n' + 1)) s := by
  rw [Reader.declaration, Reader.declaration]
  refine peek_bind fun t ht => ?_
  rw [Token.moved_kind]
  split
  next hk =>
    obtain ⟨rest, hr⟩ := State.front_of_kind r.eof ht (by rw [hk]; exact Kind.noConfusion)
    refine skip_bind hr (functionDeclaration_taking (fun _ => parameters_open hn []) fun s₁ hl => ?_).any
    exact (h.block s₁ (room hr (by decide) hroom hl)).any
  next hk =>
    obtain ⟨rest, hr⟩ := State.front_of_kind r.eof ht (by rw [hk]; exact Kind.noConfusion)
    exact skip_bind hr (varDeclaration_taking (expressionCopies r hn).expression).any
  next => exact h.statement s (by omega)

/-- A block leaves a token to its closing brace. -/
theorem block_succ (h : StatementCopies r n n') (hroom : 10 * s.rest.length + 8 ≤ n + 1) :
    r.CopiesTaking r.stmts (Reader.block (n + 1)) (Reader.block (n' + 1)) s :=
  open_bind_taking (h.declarations true s (by omega)) fun _ _ _ =>
    expect_bind fun _ _ _ _ => pure_copies rfl

/-- A declaration is dropped only with a note. Copies are made of readings without notes, so nothing
was dropped, and recovering did nothing. -/
theorem recover_copies (h : StatementCopies r n n') (hroom : 10 * s.rest.length + 6 ≤ n) :
    r.Copies (Option.map r.stmt) (recover (Reader.declaration n))
      (recover (Reader.declaration n')) s := by
  intro first s₁ hrun
  unfold recover at hrun
  rcases hd : Reader.declaration n r.before s with ⟨_ | stmt, s₂⟩
  · rw [hd] at hrun
    obtain ⟨-, rfl⟩ := Prod.mk.inj hrun
    have gave := ((statementReaders n).declaration r.before s r.eof).stopped hd
    refine ⟨⟨(resume_suffix _).trans gave.leads.rest, gave.leads.issued, gave.leads.faults⟩,
      trivial, fun hnone => ?_⟩
    have hnoted := gave.noted hroom
    simp only at hnone
    rw [hnone, List.length_nil] at hnoted
    exact absurd hnoted (Nat.not_lt_zero _)
  · rw [hd] at hrun
    obtain ⟨hfirst, rfl⟩ := Prod.mk.inj hrun
    obtain rfl := Option.some.inj hfirst
    obtain ⟨hleads, -, hcopy⟩ := h.declaration s hroom stmt s₂ hd
    refine ⟨hleads, trivial, fun hnone hpost => ?_⟩
    unfold recover
    rw [hcopy hnone hpost]
    rfl

/-- One declaration and the others after it. -/
theorem declarations_more (h : StatementCopies r n n') (enclosed : Bool)
    (hne : s.rest ≠ []) (hroom : 10 * s.rest.length + 7 ≤ n + 1) :
    r.CopiesOpen r.stmts
      (do let first ← recover (Reader.declaration n)
          let others ← Reader.declarations n enclosed
          return first.toList ++ others)
      (do let first ← recover (Reader.declaration n')
          let others ← Reader.declarations n' enclosed
          return first.toList ++ others) s := by
  refine open_bind_run (h.recover_copies (by omega)).opening fun first s₁ hrun hl => ?_
  have hshort := recover_shorter r.eof hne hrun
  refine open_bind (h.declarations enclosed s₁ (by omega)) fun others s₂ _ => ?_
  refine Copies.opening (pure_copies ?_)
  cases first with
  | none => rfl
  | some stmt => rfl

/-- Declarations in a row, up to a brace that is left or to the end of both readings. If the first
reading ends because nothing is left, then the copy has to end too, and it is asked of the tail that
it does. -/
theorem declarations_succ (h : StatementCopies r n n') (enclosed : Bool)
    (hroom : 10 * s.rest.length + 7 ≤ n + 1) :
    r.CopiesOpen r.stmts (Reader.declarations (n + 1) enclosed)
      (Reader.declarations (n' + 1) enclosed) s := by
  rw [Reader.declarations, Reader.declarations]
  refine open_bind_run atEnd_open fun ended s₁ hrun _ => ?_
  obtain ⟨hended, rfl⟩ := Prod.mk.inj hrun
  obtain rfl := Option.some.inj hended
  rw [id_eq]
  split
  · exact Copies.opening (pure_copies rfl)
  next hend =>
    have hne : s.rest ≠ [] := by simpa using hend
    cases enclosed with
    | false => exact h.declarations_more false hne hroom
    | true =>
        refine open_bind_run (sees_open _) fun found s₁ hrun _ => ?_
        obtain ⟨-, rfl⟩ := Prod.mk.inj hrun
        cases found with
        | true => exact Copies.opening (pure_copies rfl)
        | false => exact h.declarations_more true hne hroom

/-- At bound zero there is no room. -/
theorem zero : StatementCopies r 0 n' where
  statement _ _ := stop_copies
  declaration _ _ := stop_copies
  block _ _ := stop_copies
  declarations _ _ _ := stop_copies

end StatementCopies

/-- Every reader of statements does the same further down, at any larger bound. -/
theorem statementCopies (r : Replay) {n n' : Nat} (hn : n ≤ n') : StatementCopies r n n' := by
  induction n generalizing n' with
  | zero => exact .zero
  | succ n ih =>
      obtain ⟨m, rfl⟩ : ∃ m, n' = m + 1 := ⟨n' - 1, by omega⟩
      have hle : n ≤ m := Nat.le_of_succ_le_succ hn
      have h : StatementCopies r n m := ih hle
      exact ⟨fun _ => h.statement_succ hle, fun _ => h.declaration_succ hle,
        fun _ => h.block_succ, fun enclosed _ => h.declarations_succ enclosed⟩

end Lox.Reader
