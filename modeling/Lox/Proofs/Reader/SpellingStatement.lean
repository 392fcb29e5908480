/-
What was read is what stands there: statements.

# What is shown

The same for statements, and for a whole parse (`parse_spells`): without diagnostics the program has
the grammar's shape and, written down, gives back the tokens before the end, one for one
(`parse_gives_back`). A `for` statement is read as a loop in blocks, so only a program read from
tokens without one is written back as it stood; its tree has the grammar's shape all the same.

# Statements

`Plain w st rest` says of tokens `w` before others that they spell a statement which declares
nothing and which those others do not go on with. The last is what is asked of the first branch of
an `if` with an `else`: since it was read before an `else`, it does not end in an `if` without one
(`ifStatement_spells`). A keyword is taken by the reader of statements and not by that of the
statement, so the lemmas about the latter say what holds with a keyword in front.

# Put together by the parser

The parts of a `for` statement are put together to a tree that does not stand there so. Of this tree
it is said only that it has the grammar's shape and holds no other tokens (`Shaped`).

# Declarations

A declaration that is dropped is always noted, since the bound on the depth of calls is never
reached (`recover_spells`). So without diagnostics no token is passed over between two declarations.
-/
import Lox.Proofs.Reader.Parse
import Lox.Proofs.Reader.Spelling

namespace Lox

/-- The tokens `w` spell the statement. -/
structure Stmt.Spelled (w : List Token) (st : Stmt) : Prop where
  canonical : st.Canonical
  holds : ∀ T : Token → Prop, (∀ t ∈ w, T t) → st.Holds T
  gives : (∀ t ∈ w, t.kind ≠ .for) → Gives w st.tokens

/-- The tokens `w` spell an expression that may be left out. -/
structure Expr.SpelledClause (w : List Token) (e : Expr) : Prop where
  fits : e = .absent ∨ e.Fits 0
  holds : ∀ T : Token → Prop, (∀ t ∈ w, T t) → e.Holds T
  gives : Gives w e.tokens

/-- An expression that is there. -/
theorem Expr.Spelled.clause {w : List Token} {e : Expr} (h : e.Spelled 0 w) : e.SpelledClause w :=
  ⟨.inr h.fits, h.holds, h.gives⟩

/-- An expression that is left out is spelled by no tokens. -/
theorem Expr.SpelledClause.absent : Expr.absent.SpelledClause [] :=
  ⟨.inl rfl, fun _ _ => trivial, .nil⟩

namespace Reader

variable {α : Type} {n : Nat} {setting : Setting} {s : State} {t : Token} {rest : List Token}
variable {x : Reader Expr} {y : Reader Stmt}

/-- The reader of expressions that statements are read with. -/
abbrev SpellsExpression (setting : Setting) (x : Reader Expr) : Prop :=
  ∀ s, Spells x setting s fun w e _ => e.Spelled 0 w

/-- The tokens `w`, followed by `rest`, spell a statement that declares nothing. -/
structure Plain (w : List Token) (st : Stmt) (rest : List Token) : Prop where
  spelled : st.Spelled w
  plain : st.declared? = none
  closed : st.ClosedBefore rest

-- ==== Statements without statements in them

/-- An expression that is left out if the token after it comes at once. -/
theorem clause_spells {f : Expr → Reader α} {kind : Kind} {rel : List Token → α → List Token → Prop}
    (hx : SpellsExpression setting x)
    (next : ∀ e s₁, s.Leads s₁ → Spells (f e) setting s₁ fun w' a rest =>
      ∀ w, e.SpelledClause w → rel (w ++ w') a rest) :
    Spells (sees kind >>= fun b => if b = true then pure Expr.absent >>= f else x >>= f)
      setting s rel := by
  refine spells_sees kind (fun t rest hr hk => ?_) fun _ => ?_
  · exact (next .absent s (.refl s)).mono fun w a rest h => h [] .absent
  · rw [if_neg Bool.false_ne_true]
    refine (hx s).bind fun e s₁ _ hl => (next e s₁ hl).mono fun w a rest h w₀ he => h w₀ he.clause

/-- An expression and a semicolon. It declares nothing, and nothing goes on with it. -/
theorem expressionStatement_spells (hx : SpellsExpression setting x) :
    Spells (expressionStatement x) setting s Plain := by
  refine (hx s).bind fun e s₁ _ _ => spells_expect fun r rest hr hk => spells_fresh (spells_pure ?_)
  intro w he
  refine ⟨⟨.expression _ he.fits, fun T hT => ?_, fun _ => ?_⟩, rfl, .of_shut rfl⟩
  · exact he.holds T fun u hu => hT u (by simp [hu])
  · exact he.gives.append (.single (Token.gives_mark hk (by decide)))

/-- A `print` statement, with its keyword in front. -/
theorem printStatement_spells (hx : SpellsExpression setting x) :
    Spells (printStatement x) setting s fun w st rest =>
      ∀ k, k.kind = .print → Plain (k :: w) st rest := by
  refine (hx s).bind fun e s₁ _ _ => spells_expect fun r rest hr hk => spells_fresh (spells_pure ?_)
  intro w he k hprint
  refine ⟨⟨.print _ he.fits, fun T hT => ?_, fun _ => ?_⟩, rfl, .of_shut rfl⟩
  · exact he.holds T fun u hu => hT u (by simp [hu])
  · exact .cons (Token.gives_mark hprint (by decide))
      (he.gives.append (.single (Token.gives_mark hk (by decide))))

/-- A `return` statement, with or without a value. -/
theorem returnStatement_spells {keyword : Token} (hkeyword : keyword.kind = .return)
    (hx : SpellsExpression setting x) :
    Spells (returnStatement keyword x) setting s fun w st rest => Plain (keyword :: w) st rest := by
  refine clause_spells hx fun e s₁ _ => spells_expect fun r rest hr hk => ?_
  refine spells_fresh (spells_pure ?_)
  intro w he
  refine ⟨⟨.result _ hkeyword he.fits, fun T hT => ⟨hT keyword (by simp), ?_⟩, fun _ => ?_⟩, rfl,
    .of_shut rfl⟩
  · exact he.holds T fun u hu => hT u (by simp [hu])
  · exact .cons (Token.gives_self (by simp [hkeyword]))
      (he.gives.append (.single (Token.gives_mark hk (by decide))))

/-- A variable declaration, with its keyword in front. -/
theorem varDeclaration_spells (hx : SpellsExpression setting x) :
    Spells (varDeclaration x) setting s fun w st _ => ∀ k, k.kind = .var → st.Spelled (k :: w) := by
  refine spells_expect fun name rest hr hname => ?_
  refine spells_accept .equal (fun q rest' hr' hq => ?_) fun _ => ?_
  · refine (hx _).bind fun e s₁ _ _ => spells_expect fun r rest'' hr'' hk =>
      spells_fresh (spells_pure ?_)
    intro w he k hvar
    have hpresent : e.isAbsent = false := by cases he.fits <;> rfl
    refine ⟨.var _ hname (.inr he.fits), fun T hT => ⟨hT name (by simp), ?_⟩, fun _ => ?_⟩
    · exact he.holds T fun u hu => hT u (by simp [hu])
    · rw [Stmt.tokens, hpresent, if_neg Bool.false_ne_true, List.cons_append]
      refine .cons (Token.gives_mark hvar (by decide)) (.cons (Token.gives_self (by simp [hname])) ?_)
      exact .cons (Token.gives_mark hq (by decide))
        (he.gives.append (.single (Token.gives_mark hk (by decide))))
  · refine spells_expect fun r rest'' hr'' hk => spells_fresh (spells_pure ?_)
    intro k hvar
    refine ⟨.var _ hname (.inl rfl), fun T hT => ⟨hT name (by simp), trivial⟩, fun _ => ?_⟩
    exact .cons (Token.gives_mark hvar (by decide)) (.cons (Token.gives_self (by simp [hname]))
      (Gives.single (Token.gives_mark hk (by decide))))

-- ==== Conditions and bodies

/-- A condition in parentheses: what it says of the tokens `w` that spell it. -/
theorem condition_spells {f : Expr → Reader α} {before after : ParseProblem}
    {rel : List Token → α → List Token → Prop} (hx : SpellsExpression setting x)
    (next : ∀ e s₁, s.Leads s₁ → Spells (f e) setting s₁ fun w' a rest =>
      ∀ l r w, l.kind = .leftParen → r.kind = .rightParen → e.Spelled 0 w →
        rel (l :: (w ++ r :: w')) a rest) :
    Spells (do let _ ← expect .leftParen before
               let condition ← x
               let _ ← expect .rightParen after
               f condition) setting s rel := by
  refine spells_expect fun l rest hr hl => (hx _).bind fun e s₁ _ hleads => ?_
  refine spells_expect fun r rest' hr' hk =>
    (next e _ ?_).mono fun w a rest h w₀ he => h l r w₀ hl hk he
  exact ((State.Leads.skip hr).trans hleads).trans (.skip hr')

/-- A `while` statement is closed before what its body is closed before. -/
theorem whileStatement_spells (hx : SpellsExpression setting x)
    (hy : ∀ s₁, s.Leads s₁ → Spells y setting s₁ Plain) :
    Spells (whileStatement x y) setting s fun w st rest =>
      ∀ k, k.kind = .while → Plain (k :: w) st rest := by
  refine condition_spells hx fun e s₁ hl => (hy s₁ hl).bind fun body s₂ _ _ =>
    spells_fresh (spells_pure ?_)
  intro w hbody l r w₀ hlk hrk he k hwhile
  rw [List.append_nil]
  refine ⟨⟨.loop _ he.fits hbody.spelled.canonical hbody.plain, fun T hT => ⟨?_, ?_⟩, fun hfor => ?_⟩,
    rfl, hbody.closed⟩
  · exact he.holds T fun u hu => hT u (by simp [hu])
  · exact hbody.spelled.holds T fun u hu => hT u (by simp [hu])
  · have hgives := hbody.spelled.gives fun u hu => hfor u (by simp [hu])
    exact .cons (Token.gives_mark hwhile (by decide)) (.cons (Token.gives_mark hlk (by decide))
      (he.gives.append (.cons (Token.gives_mark hrk (by decide)) hgives)))

/-- An `if` statement. If no `else` was taken, then none comes next; and if one was taken, then the
branch before it did not take it, so that branch is closed. -/
theorem ifStatement_spells (hx : SpellsExpression setting x)
    (hy : ∀ s₁, s.Leads s₁ → Spells y setting s₁ Plain) :
    Spells (ifStatement x y) setting s fun w st rest =>
      ∀ k, k.kind = .if → Plain (k :: w) st rest := by
  refine condition_spells hx fun e s₁ hl => (hy s₁ hl).bind fun positive s₂ _ hl₂ => ?_
  refine spells_accept .else (fun o rest hr ho => ?_) fun hother => ?_
  · rw [if_pos rfl]
    refine (hy _ ((hl.trans hl₂).trans (.skip hr))).bind fun negative s₃ _ _ =>
      spells_fresh (spells_pure ?_)
    intro w₂ hneg w₁ hpos l r w₀ hlk hrk he k hif
    have hpresent : negative.isAbsent = false := by cases hneg.spelled.canonical <;> rfl
    -- the `else` was not taken by the statement before it
    have hclosed : positive.endsOpen = false := by
      cases hopen : positive.endsOpen with
      | false => rfl
      | true => exact absurd ho (hpos.closed hopen o _ rfl)
    rw [List.append_nil]
    refine ⟨⟨.branchElse _ he.fits hpos.spelled.canonical hpos.plain hclosed hneg.spelled.canonical
      hneg.plain, fun T hT => ⟨?_, ?_, ?_⟩, fun hfor => ?_⟩, rfl, fun hopen => hneg.closed ?_⟩
    · exact he.holds T fun u hu => hT u (by simp [hu])
    · exact hpos.spelled.holds T fun u hu => hT u (by simp [hu])
    · exact hneg.spelled.holds T fun u hu => hT u (by simp [hu])
    · have hgives := hpos.spelled.gives fun u hu => hfor u (by simp [hu])
      have hgives' := hneg.spelled.gives fun u hu => hfor u (by simp [hu])
      rw [Stmt.tokens, hpresent, if_neg Bool.false_ne_true]
      exact .cons (Token.gives_mark hif (by decide)) (.cons (Token.gives_mark hlk (by decide))
        (he.gives.append (.cons (Token.gives_mark hrk (by decide))
          (hgives.append (.cons (Token.gives_mark ho (by decide)) hgives')))))
    · rw [← hopen]
      cases negative <;> first | rfl | cases hpresent
  · show Spells (do return Stmt.branch (← fresh) e positive .absent) setting s₂ _
    refine spells_fresh (spells_pure ?_)
    intro w₁ hpos l r w₀ hlk hrk he k hif
    rw [List.append_nil]
    refine ⟨⟨.branch _ he.fits hpos.spelled.canonical hpos.plain, fun T hT => ⟨?_, ?_, trivial⟩,
      fun hfor => ?_⟩, rfl, fun _ => hother⟩
    · exact he.holds T fun u hu => hT u (by simp [hu])
    · exact hpos.spelled.holds T fun u hu => hT u (by simp [hu])
    · have hgives := hpos.spelled.gives fun u hu => hfor u (by simp [hu])
      rw [Stmt.tokens, Stmt.isAbsent, if_pos rfl, List.append_nil]
      exact .cons (Token.gives_mark hif (by decide)) (.cons (Token.gives_mark hlk (by decide))
        (he.gives.append (.cons (Token.gives_mark hrk (by decide)) hgives)))

-- ==== The parts of a `for` statement

/-- A statement before `rest` that declares nothing and holds tokens of `T`: what is left of `Plain`
where statements are put together that do not stand there so. -/
structure Shaped (T : Token → Prop) (rest : List Token) (st : Stmt) : Prop where
  canonical : st.Canonical
  plain : st.declared? = none
  closed : st.ClosedBefore rest
  holds : st.Holds T

/-- A block is always closed. -/
theorem shaped_block {T : Token → Prop} {body : List Stmt} (id : Nat)
    (hcanonical : ∀ st ∈ body, st.Canonical) (hholds : Stmt.HoldsAll T body) :
    Shaped T rest (.block id body) :=
  ⟨.block id hcanonical, rfl, .of_shut rfl, hholds⟩

/-- The first clause of a `for` statement has the grammar's shape, if it is there. -/
theorem forInitializer_spells (hx : SpellsExpression setting x) :
    Spells (forInitializer x) setting s fun w st _ =>
      (st = .absent ∨ st.Canonical) ∧ ∀ T : Token → Prop, (∀ t ∈ w, T t) → st.Holds T := by
  refine spells_accept .semicolon (fun t rest hr _ => spells_pure ⟨.inl rfl, fun _ _ => trivial⟩)
    fun _ => ?_
  rw [if_neg Bool.false_ne_true]
  refine spells_accept .var (fun k rest hr hk => ?_) fun _ => ?_
  · rw [if_pos rfl]
    exact (varDeclaration_spells hx).mono fun w st _ h => ⟨.inr (h k hk).canonical, (h k hk).holds⟩
  · rw [if_neg Bool.false_ne_true]
    exact (expressionStatement_spells hx).mono fun w st _ h =>
      ⟨.inr h.spelled.canonical, h.spelled.holds⟩

/-- The body of a loop with its increment, which is a block if it has one. No tokens are taken here,
they were before; what is said is the shape of the tree. -/
theorem bodyThen_spells {body : Stmt} {increment : Expr} :
    Spells (bodyThen body increment) setting s fun w st rest => w = [] ∧ ∀ T, Shaped T rest body →
      increment = .absent ∨ increment.Fits 0 → increment.Holds T → Shaped T rest st := by
  unfold bodyThen
  split
  · refine spells_form ?_
    split
    · exact spells_pure ⟨rfl, fun T hbody _ _ => hbody⟩
    · refine spells_fresh (spells_pure ⟨rfl, fun T hbody _ _ => ?_⟩)
      refine shaped_block _ (fun st hst => ?_) ⟨hbody.holds, trivial⟩
      obtain rfl := List.mem_singleton.mp hst
      exact hbody.canonical
  next hpresent =>
    refine spells_fresh (spells_fresh (spells_pure ⟨rfl, fun T hbody hfits hholds => ?_⟩))
    refine shaped_block _ (fun st hst => ?_) ⟨hbody.holds, hholds, trivial⟩
    simp only [List.mem_cons, List.not_mem_nil, or_false] at hst
    rcases hst with rfl | rfl
    · exact hbody.canonical
    · rcases hfits with rfl | hfits
      · exact absurd rfl hpresent
      · exact .expression _ hfits

/-- A condition that is made up has the grammar's shape. -/
theorem conditionOrTrue_spells {condition : Expr} :
    Spells (conditionOrTrue condition) setting s fun w e _ => w = [] ∧ ∀ T : Token → Prop,
      condition = .absent ∨ condition.Fits 0 → condition.Holds T → e.Fits 0 ∧ e.Holds T := by
  unfold conditionOrTrue
  split
  · exact spells_fresh (spells_pure ⟨rfl, fun T _ _ => ⟨.literal 0 _ _, .inr (.inl ⟨true, rfl⟩)⟩⟩)
  next hpresent =>
    refine spells_pure ⟨rfl, fun T hfits hholds => ⟨?_, hholds⟩⟩
    rcases hfits with rfl | hfits
    · exact absurd rfl hpresent
    · exact hfits

/-- A loop with its initializer, which is a block if it has one. As for the body, only the shape is
said, and that nothing is taken. -/
theorem initializerThen_spells {initializer loop : Stmt} :
    Spells (initializerThen initializer loop) setting s fun w st rest => w = [] ∧ ∀ T,
      initializer = .absent ∨ initializer.Canonical → initializer.Holds T → Shaped T rest loop →
        Shaped T rest st := by
  unfold initializerThen
  split
  · refine spells_form ?_
    split
    · exact spells_pure ⟨rfl, fun T _ _ hloop => hloop⟩
    · refine spells_fresh (spells_pure ⟨rfl, fun T _ _ hloop => ?_⟩)
      refine shaped_block _ (fun st hst => ?_) ⟨hloop.holds, trivial⟩
      obtain rfl := List.mem_singleton.mp hst
      exact hloop.canonical
  next hpresent =>
    refine spells_fresh (spells_pure ⟨rfl, fun T hinit hholds hloop => ?_⟩)
    refine shaped_block _ (fun st hst => ?_) ⟨hholds, hloop.holds, trivial⟩
    simp only [List.mem_cons, List.not_mem_nil, or_false] at hst
    rcases hst with rfl | rfl
    · rcases hinit with rfl | hinit
      · exact absurd rfl hpresent
      · exact hinit
    · exact hloop.canonical

/-- A `for` statement has the grammar's shape, and its tokens are not said to come back: the tree is
that of a `while` loop, and its tokens are others. -/
theorem forStatement_spells (hx : SpellsExpression setting x)
    (hy : ∀ s₁, s.Leads s₁ → Spells y setting s₁ Plain) :
    Spells (forStatement x y) setting s fun w st rest =>
      ∀ k, k.kind = .for → Plain (k :: w) st rest := by
  refine spells_expect fun l rest hr _ => ?_
  refine (forInitializer_spells hx).bind fun initializer s₁ _ hl₁ => ?_
  have hleads₁ := (State.Leads.skip hr).trans hl₁
  refine clause_spells hx fun condition s₂ hl₂ => spells_expect fun c rest₂ hr₂ _ => ?_
  have hleads₂ := (hleads₁.trans hl₂).trans (.skip hr₂)
  refine clause_spells hx fun increment s₃ hl₃ => spells_expect fun r rest₃ hr₃ _ => ?_
  have hleads₃ := (hleads₂.trans hl₃).trans (.skip hr₃)
  refine (hy _ hleads₃).bind fun body s₄ _ _ => bodyThen_spells.bind fun body' s₅ _ _ => ?_
  refine conditionOrTrue_spells.bind fun condition' s₆ _ _ => spells_fresh ?_
  refine initializerThen_spells.mono ?_
  rintro w st rest ⟨rfl, hst⟩ _ ⟨rfl, hcondition'⟩ _ ⟨rfl, hbody'⟩ w₄ hbody w₃ hincrement w₂ hcondition
    w₁ hinitializer k hfor
  have shaped : ∀ T : Token → Prop, (∀ u ∈ k :: l :: (w₁ ++ (w₂ ++ c :: (w₃ ++ r :: w₄))), T u) →
      Shaped T rest st := by
    intro T hT
    have hholds : ∀ w' : List Token, (∀ u ∈ w', u ∈ k :: l :: (w₁ ++ (w₂ ++ c :: (w₃ ++ r :: w₄)))) →
        ∀ u ∈ w', T u := fun w' h u hu => hT u (h u hu)
    have hloopBody := hbody' T
      ⟨hbody.spelled.canonical, hbody.plain, hbody.closed,
        hbody.spelled.holds T (hholds w₄ fun u hu => by simp [hu])⟩
      hincrement.fits (hincrement.holds T (hholds w₃ fun u hu => by simp [hu]))
    obtain ⟨hfits, hcond⟩ := hcondition' T hcondition.fits
      (hcondition.holds T (hholds w₂ fun u hu => by simp [hu]))
    exact hst T hinitializer.1 (hinitializer.2 T (hholds w₁ fun u hu => by simp [hu]))
      ⟨.loop _ hfits hloopBody.canonical hloopBody.plain, rfl, hloopBody.closed, hcond,
        hloopBody.holds⟩
  simp only [List.append_nil]
  have hany := shaped (fun _ => True) fun _ _ => trivial
  refine ⟨⟨hany.canonical, fun T hT => (shaped T hT).holds, fun hnone => ?_⟩, hany.plain, hany.closed⟩
  exact absurd hfor (hnone k List.mem_cons_self)

-- ==== Functions

/-- The tokens `w` spell the parameters, written as `ts`. -/
structure SpelledParams (w params ts : List Token) : Prop where
  kinds : ∀ p ∈ params, p.kind = .identifier
  held : ∀ p ∈ params, p ∈ w
  gives : Gives w ts

/-- One more parameter at the end. -/
theorem SpelledParams.snoc {w params ts : List Token} {p : Token} (h : SpelledParams w params ts)
    (hp : p.kind = .identifier) : SpelledParams (w ++ [p]) (params ++ [p]) (ts ++ [p]) where
  kinds := by
    intro p' hp'
    rcases List.mem_append.mp hp' with hp' | hp'
    · exact h.kinds p' hp'
    · rw [List.mem_singleton.mp hp', hp]
  held := by
    intro p' hp'
    rcases List.mem_append.mp hp' with hp' | hp'
    · exact List.mem_append_left _ (h.held p' hp')
    · exact List.mem_append_right _ hp'
  gives := h.gives.append (.single (Token.gives_self (by simp [hp])))

/-- A comma after the parameters. -/
theorem SpelledParams.comma {w params ts : List Token} {c : Token} (h : SpelledParams w params ts)
    (hc : c.kind = .comma) : SpelledParams (w ++ [c]) params (ts ++ [.mark .comma ","]) where
  kinds := h.kinds
  held p hp := List.mem_append_left _ (h.held p hp)
  gives := h.gives.append (.single (Token.gives_mark hc (by decide)))

/-- The parameters are those before and one more, if there are not too many. By induction on the
depth, with the tokens of those before carried along. -/
theorem parameters_spells (n : Nat) (before : List Token) (s : State) :
    Spells (parameters n before) setting s fun w params _ =>
      ∀ w₀, SpelledParams w₀ before (trailed (before.map fun p => [p])) →
        SpelledParams (w₀ ++ w) params (Token.listed (params.map fun p => [p])) ∧
          params.length ≤ maxArity := by
  induction n generalizing before s with
  | zero => exact spells_none rfl
  | succ n ih =>
      have next : ∀ s₁, Spells (do let param ← expect .identifier .noParameterName
                                   if ← accept .comma then parameters n (before ++ [param])
                                   else return before ++ [param]) setting s₁ fun w params _ =>
          ∀ w₀, before.length < maxArity →
            SpelledParams w₀ before (trailed (before.map fun p => [p])) →
            SpelledParams (w₀ ++ w) params (Token.listed (params.map fun p => [p])) ∧
              params.length ≤ maxArity := by
        intro s₁
        refine spells_expect fun p rest hr hp => ?_
        refine spells_accept .comma (fun c rest' hr' hc => ?_) fun _ => spells_pure ?_
        · rw [if_pos rfl]
          refine (ih _ _).mono fun w params _ hparams w₀ _ hbefore => ?_
          have hmore := (hbefore.snoc hp).comma hc
          rw [← trailed_append, ← List.map_singleton (f := fun p : Token => [p]),
            ← List.map_append] at hmore
          obtain ⟨hall, hfew⟩ := hparams _ hmore
          simp only [List.append_assoc, List.singleton_append] at hall
          exact ⟨hall, hfew⟩
        · intro w₀ hshort hbefore
          have hall := hbefore.snoc hp
          rw [← listed_append, ← List.map_singleton (f := fun p : Token => [p]),
            ← List.map_append] at hall
          rw [List.length_append, List.length_singleton]
          exact ⟨hall, hshort⟩
      rw [parameters]
      split
      · exact spells_look (spells_note fun s₁ _ _ => (next s₁).mono fun _ _ _ _ => trivial)
      next hshort =>
        exact (next s).mono fun w params _ h w₀ hbefore => h w₀ (Nat.lt_of_not_le hshort) hbefore

/-- The tokens `w` spell the statements. -/
structure SpelledBody (w : List Token) (body : List Stmt) : Prop where
  canonical : ∀ st ∈ body, st.Canonical
  holds : ∀ T : Token → Prop, (∀ t ∈ w, T t) → Stmt.HoldsAll T body
  gives : (∀ t ∈ w, t.kind ≠ .for) → Gives w (Stmt.tokensAll body)

/-- A body and the brace after it. -/
def ClosesBody (w : List Token) (body : List Stmt) : Prop :=
  ∃ w' r, w = w' ++ [r] ∧ r.kind = .rightBrace ∧ SpelledBody w' body

/-- A function declaration, with its keyword in front. All of its tokens come back: the name and the
parameters as they are, the brackets by their kinds, and the body as a block. -/
theorem functionDeclaration_spells {block : Reader (List Stmt)}
    (hb : ∀ s₁, s.Leads s₁ → Spells block setting s₁ fun w body _ => ClosesBody w body) :
    Spells (functionDeclaration (parameters n []) block) setting s fun w st _ =>
      ∀ k, k.kind = .fun → st.Spelled (k :: w) := by
  refine spells_expect fun name rest hr hname => spells_expect fun l rest₁ hr₁ hl => ?_
  have hleads₁ := (State.Leads.skip hr).trans (.skip hr₁)
  have close : ∀ params s₂, s.Leads s₂ →
      Spells (do let _ ← expect .rightParen .unclosedParameters
                 let _ ← expect .leftBrace .unopenedBody
                 let body ← block
                 return Stmt.function (← fresh) name params body) setting s₂ fun w st _ =>
        ∀ w₁ k, SpelledParams w₁ params (Token.listed (params.map fun p => [p])) →
          params.length ≤ maxArity → k.kind = .fun → st.Spelled (k :: name :: l :: (w₁ ++ w)) := by
    intro params s₂ hl₂
    refine spells_expect fun r rest₃ hr₃ hrk => spells_expect fun b rest₄ hr₄ hbk => ?_
    refine (hb _ ((hl₂.trans (.skip hr₃)).trans (.skip hr₄))).bind fun body s₅ _ _ =>
      spells_fresh (spells_pure ?_)
    rintro _ ⟨w', z, rfl, hz, hbody⟩ w₁ k hparams hfew hfun
    rw [List.append_nil]
    refine ⟨.function _ hname hparams.kinds (maxArity_eq ▸ hfew) hbody.canonical, fun T hT => ⟨?_, ?_, ?_⟩,
      fun hfor => ?_⟩
    · exact hT name (by simp)
    · exact fun p hp => hT p (by simp [hparams.held p hp])
    · exact hbody.holds T fun u hu => hT u (by simp [hu])
    · have hgives := hbody.gives fun u hu => hfor u (by simp [hu])
      exact .cons (Token.gives_mark hfun (by decide)) (.cons (Token.gives_self (by simp [hname]))
        (.cons (Token.gives_mark hl (by decide)) (hparams.gives.append
          (.cons (Token.gives_mark hrk (by decide)) (.cons (Token.gives_mark hbk (by decide))
            (hgives.append (.single (Token.gives_mark hz (by decide)))))))))
  have none : SpelledParams [] [] (trailed ([].map fun p => [p])) :=
    ⟨List.forall_mem_nil _, List.forall_mem_nil _, .nil⟩
  refine spells_sees .rightParen (fun t rest hr _ => ?_) fun _ => ?_
  · exact (close [] _ hleads₁).mono fun w st _ h k hk => h [] k none (Nat.zero_le _) hk
  · rw [if_neg Bool.false_ne_true]
    refine (parameters_spells n [] _).bind fun params s₂ _ hl₂ => ?_
    refine (close params s₂ (hleads₁.trans hl₂)).mono fun w st _ h w₁ hparams k hk => ?_
    obtain ⟨hall, hfew⟩ := hparams [] none
    exact h w₁ k hall hfew hk

-- ==== Readers that call each other

/-- All readers of statements at one bound, which is not reached. Without faults, the tokens that a
reader takes are those of the statement that it yields. -/
structure StatementSpells (setting : Setting) (n : Nat) : Prop where
  statement : ∀ s, 10 * s.rest.length + 5 ≤ n → Spells (statement n) setting s Plain
  declaration : ∀ s, 10 * s.rest.length + 6 ≤ n →
    Spells (declaration n) setting s fun w st _ => st.Spelled w
  block : ∀ s, 10 * s.rest.length + 8 ≤ n →
    Spells (block n) setting s fun w body _ => ClosesBody w body
  declarations : ∀ enclosed s, 10 * s.rest.length + 7 ≤ n →
    Spells (declarations n enclosed) setting s fun w ss rest =>
      SpelledBody w ss ∧ (enclosed = false → rest = [])

namespace StatementSpells

/-- A statement is told by its first token, which is its keyword. With the room that is asked for,
the blocks inside drop no declaration without a note. -/
theorem statement_succ (h : StatementSpells setting n) (heof : setting.eof.kind = .eof) (s : State)
    (hroom : 10 * s.rest.length + 5 ≤ n + 1) : Spells (Reader.statement (n + 1)) setting s Plain := by
  have hx : SpellsExpression setting (expression n) := (expressionSpells heof n).expression
  rw [Reader.statement]
  cases hr : s.rest with
  | nil =>
      refine spells_look ?_
      rw [hr, List.headD_nil, heof]
      exact expressionStatement_spells hx
  | cons t rest =>
      have hlen : s.rest.length = rest.length + 1 := by rw [hr, List.length_cons]
      have hy : ∀ s₁, State.Leads { s with rest := rest } s₁ →
          Spells (Reader.statement n) setting s₁ Plain := by
        intro s₁ hl
        have hle : s₁.rest.length ≤ rest.length := hl.length_le
        exact h.statement s₁ (by omega)
      refine spells_peek hr ?_
      split
      next hk => exact spells_skip hr ((forStatement_spells hx hy).mono fun _ _ _ h => h t hk)
      next hk => exact spells_skip hr ((ifStatement_spells hx hy).mono fun _ _ _ h => h t hk)
      next hk => exact spells_skip hr ((printStatement_spells hx).mono fun _ _ _ h => h t hk)
      next hk => exact spells_skip hr (returnStatement_spells hk hx)
      next hk => exact spells_skip hr ((whileStatement_spells hx hy).mono fun _ _ _ h => h t hk)
      next hk =>
        refine spells_skip hr ((h.block _ (by simp only; omega)).bind fun body s₁ _ _ =>
          spells_fresh (spells_pure ?_))
        rintro _ ⟨w, r, rfl, hrk, hbody⟩
        rw [List.append_nil]
        refine ⟨⟨.block _ hbody.canonical, fun T hT => ?_, fun hfor => ?_⟩, rfl, .of_shut rfl⟩
        · exact hbody.holds T fun u hu => hT u (by simp [hu])
        · have hgives := hbody.gives fun u hu => hfor u (by simp [hu])
          exact .cons (Token.gives_mark hk (by decide))
            (hgives.append (.single (Token.gives_mark hrk (by decide))))
      next => exact expressionStatement_spells hx

/-- A declaration is told by its keyword, or is a statement. Statements say in addition that no
`else` follows where they are open; that is given up here. -/
theorem declaration_succ (h : StatementSpells setting n) (heof : setting.eof.kind = .eof) (s : State)
    (hroom : 10 * s.rest.length + 6 ≤ n + 1) :
    Spells (Reader.declaration (n + 1)) setting s fun w st _ => st.Spelled w := by
  have plain : Spells (Reader.statement n) setting s fun w st _ => st.Spelled w :=
    (h.statement s (by omega)).mono fun _ _ _ h => h.spelled
  rw [Reader.declaration]
  cases hr : s.rest with
  | nil =>
      refine spells_look ?_
      rw [hr, List.headD_nil, heof]
      exact plain
  | cons t rest =>
      have hlen : s.rest.length = rest.length + 1 := by rw [hr, List.length_cons]
      refine spells_peek hr ?_
      split
      next hk =>
        refine spells_skip hr ((functionDeclaration_spells fun s₁ hl => h.block s₁ ?_).mono
          fun _ _ _ h => h t hk)
        have hle : s₁.rest.length ≤ rest.length := hl.length_le
        omega
      next hk =>
        exact spells_skip hr ((varDeclaration_spells (expressionSpells heof n).expression).mono
          fun _ _ _ h => h t hk)
      next => exact plain

/-- The declarations up to a closing brace, and the brace. -/
theorem block_succ (h : StatementSpells setting n) (s : State)
    (hroom : 10 * s.rest.length + 8 ≤ n + 1) :
    Spells (Reader.block (n + 1)) setting s fun w body _ => ClosesBody w body := by
  rw [Reader.block]
  refine (h.declarations true s (by omega)).bind fun body s₁ _ _ =>
    spells_expect fun r rest hr hk => spells_pure ?_
  exact fun w hbody => ⟨w, r, rfl, hk, hbody.1⟩

/-- A declaration is dropped only with a note. So without notes there is one, and it is spelled by
the tokens that were taken. -/
theorem recover_spells (h : StatementSpells setting n) (heof : setting.eof.kind = .eof) (s : State)
    (hroom : 10 * s.rest.length + 6 ≤ n) :
    Spells (recover (Reader.declaration n)) setting s fun w first _ =>
      ∃ st, first = some st ∧ st.Spelled w := by
  intro first s₁ hrun
  unfold recover at hrun
  rcases hd : Reader.declaration n setting s with ⟨_ | st, s₂⟩
  · rw [hd] at hrun
    obtain ⟨-, rfl⟩ := Prod.mk.inj hrun
    have gave := ((statementReaders n).declaration setting s heof).stopped hd
    refine ⟨⟨(resume_suffix _).trans gave.leads.rest, gave.leads.issued, gave.leads.faults⟩,
      fun hclean => ?_⟩
    have hnoted := gave.noted hroom
    simp only at hclean
    rw [hclean, List.length_nil] at hnoted
    exact absurd hnoted (Nat.not_lt_zero _)
  · rw [hd] at hrun
    obtain ⟨hfirst, rfl⟩ := Prod.mk.inj hrun
    obtain rfl := Option.some.inj hfirst
    obtain ⟨hl, hrel⟩ := h.declaration s hroom st s₂ hd
    refine ⟨hl, fun hclean => ?_⟩
    obtain ⟨w, hw, hst⟩ := hrel hclean
    exact ⟨w, hw, st, rfl, hst⟩

/-- Declarations in a row are spelled one after the other. At top level they go on to the end of the
tokens, and in a block to its brace. -/
theorem declarations_succ (h : StatementSpells setting n) (heof : setting.eof.kind = .eof)
    (enclosed : Bool) (s : State) (hroom : 10 * s.rest.length + 7 ≤ n + 1) :
    Spells (Reader.declarations (n + 1) enclosed) setting s fun w ss rest =>
      SpelledBody w ss ∧ (enclosed = false → rest = []) := by
  have stops : (enclosed = false → s.rest = []) → Spells (pure []) setting s fun w ss rest =>
      SpelledBody w ss ∧ (enclosed = false → rest = []) :=
    fun hend => spells_pure ⟨⟨List.forall_mem_nil _, fun _ _ => trivial, fun _ => .nil⟩, hend⟩
  have goes : s.rest ≠ [] → Spells (do let first ← recover (Reader.declaration n)
                                       let others ← Reader.declarations n enclosed
                                       return first.toList ++ others) setting s
      fun w ss rest => SpelledBody w ss ∧ (enclosed = false → rest = []) := by
    intro hne
    refine (h.recover_spells heof s (by omega)).bind fun first s₁ hrun _ => ?_
    have hshort := recover_shorter heof hne hrun
    refine (h.declarations enclosed s₁ (by omega)).bind fun others s₂ _ _ => spells_pure ?_
    rintro w₂ ⟨hothers, hend⟩ w₁ ⟨st, rfl, hst⟩
    rw [List.append_nil]
    refine ⟨⟨?_, fun T hT => ⟨?_, ?_⟩, fun hfor => ?_⟩, hend⟩
    · exact List.forall_mem_cons.mpr ⟨hst.canonical, hothers.canonical⟩
    · exact hst.holds T fun u hu => hT u (by simp [hu])
    · exact hothers.holds T fun u hu => hT u (by simp [hu])
    · exact (hst.gives fun u hu => hfor u (by simp [hu])).append
        (hothers.gives fun u hu => hfor u (by simp [hu]))
  rw [Reader.declarations]
  refine spells_atEnd ?_
  split
  next hend => exact stops fun _ => by simpa using hend
  next hend =>
    have hne : s.rest ≠ [] := by simpa using hend
    cases enclosed with
    | false => exact goes hne
    | true =>
        refine spells_sees .rightBrace (fun t rest hr _ => ?_) fun _ => ?_
        · exact stops Bool.noConfusion
        · exact goes hne

/-- At bound zero there is no room. -/
theorem zero : StatementSpells setting 0 where
  statement _ _ := spells_none rfl
  declaration _ _ := spells_none rfl
  block _ _ := spells_none rfl
  declarations _ _ _ := spells_none rfl

end StatementSpells

/-- Every reader of statements spells what it yields, at every bound that is not reached. -/
theorem statementSpells (heof : setting.eof.kind = .eof) (n : Nat) : StatementSpells setting n := by
  induction n with
  | zero => exact .zero
  | succ n ih =>
      exact ⟨ih.statement_succ heof, ih.declaration_succ heof, ih.block_succ,
        ih.declarations_succ heof⟩

end Reader

-- ==== A whole parse

variable {tokens : List Token} {issued : Nat} {form : LoopForm}

/-- Without diagnostics, all tokens before the end spell the program. -/
theorem parse_spells (h : (parse tokens issued form).diagnostics = []) :
    Reader.SpelledBody (Token.body tokens) (parse tokens issued form).program := by
  obtain ⟨s, hrun, hclean, -⟩ := parse_clean h
  have hspells : Reader.StatementSpells ⟨Token.ending tokens, form⟩
      (Reader.depthBound (Token.body tokens).length) :=
    Reader.statementSpells (Token.ending_kind tokens) _
  obtain ⟨-, hrel⟩ := hspells.declarations false ⟨Token.body tokens, issued, []⟩
    (by dsimp only [Reader.depthBound]; omega) _ _ hrun
  obtain ⟨w, hw, hbody, hend⟩ := hrel hclean
  have hall : Token.body tokens = w := by rw [← List.append_nil w, ← hend rfl, ← hw]
  rw [hall]
  exact hbody

/-- The constant of a number or a string is one that is written as such a token. -/
def Token.Fitting (t : Token) : Prop :=
  t.kind = .number ∨ t.kind = .string → t.literal.token.kind = t.kind

/-- A token comes back as it was exactly if its constant fits its kind. -/
theorem Token.gist_returned_eq (t : Token) : t.returned.gist = t.gist ↔ t.Fitting := by
  by_cases hk : t.kind = .number ∨ t.kind = .string
  · rw [Token.returned, if_pos hk]
    refine ⟨fun h _ => congrArg Prod.fst h, fun hfits => ?_⟩
    have hkind := hfits hk
    obtain ⟨kind, lexeme, literal, line⟩ := t
    simp only at hk hkind
    subst hkind
    cases literal with
    | bool b => cases b <;> simp [Literal.token, Token.mark] at hk
    | nil => simp [Literal.token, Token.mark] at hk
    | _ => rfl
  · rw [Token.returned, if_neg hk]
    exact ⟨fun _ h => absurd h hk, fun _ => rfl⟩

/-- What is given back, as a whole. -/
theorem Gives.map_gist {w ts : List Token} (h : Gives w ts) :
    ts.map Token.gist = w.map fun t => t.returned.gist := by
  induction h with
  | nil => rfl
  | cons h _ ih => rw [List.map_cons, List.map_cons, ih, h]

/-- A parse without diagnostics of tokens without a `for` loses and makes up nothing. The program
has the shape that the grammar gives, and writing it gives back the tokens before the end, one for
one: the same kinds in the same order, with the same names of identifiers and the same constants. A
number or a string comes back as the token that its constant is written as, which is the same token
exactly when the constant fits the kind. -/
theorem parse_gives_back (tokens : List Token) (issued : Nat) (form : LoopForm)
    (hfor : ∀ t ∈ Token.body tokens, t.kind ≠ .for)
    (h : (parse tokens issued form).diagnostics = []) :
    (∀ s ∈ (parse tokens issued form).program, s.Canonical) ∧
      (Stmt.tokensAll (parse tokens issued form).program).map Token.gist =
        (Token.body tokens).map (fun t => t.returned.gist) ∧
      ((Stmt.tokensAll (parse tokens issued form).program).map Token.gist =
        (Token.body tokens).map Token.gist ↔ ∀ t ∈ Token.body tokens, t.Fitting) := by
  have hspelled := parse_spells h
  have hgives := (hspelled.gives hfor).map_gist
  refine ⟨hspelled.canonical, hgives, ?_⟩
  rw [hgives, List.map_inj_left]
  exact forall₂_congr fun t _ => t.gist_returned_eq

/-- `fun f(x) { return x - "s"; }` comes back as it stands; the `for` after the end is not read. -/
theorem parse_gives_back_function :
    let name (text : String) : Token := ⟨.identifier, utf8 text, .nil, 1⟩
    let string : Token := ⟨.string, utf8 "\"s\"", .string (utf8 "s"), 2⟩
    let function : List Token :=
      [.mark .fun "fun", name "f", .mark .leftParen "(", name "x", .mark .rightParen ")",
        .mark .leftBrace "\x7b", .mark .return "return", name "x", .mark .minus "-", string,
        .mark .semicolon ";", .mark .rightBrace "\x7d"]
    let tokens : List Token := function ++ [.mark .eof "", .mark .for "for"]
    (∀ t ∈ Token.body tokens, t.kind ≠ .for) ∧ (parse tokens 0 .compact).diagnostics = [] ∧
      (Stmt.tokensAll (parse tokens 0 .compact).program).map Token.gist =
        function.map Token.gist := by
  intro name string function tokens
  have hfor : ∀ t ∈ Token.body tokens, t.kind ≠ .for := by decide +kernel
  have hclean : (parse tokens 0 .compact).diagnostics = [] := by decide +kernel
  have hfits : ∀ t ∈ Token.body tokens, t.Fitting := by
    unfold Token.Fitting
    decide +kernel
  have hbody : Token.body tokens = function := rfl
  refine ⟨hfor, hclean, ?_⟩
  rw [← hbody]
  exact (parse_gives_back tokens 0 .compact hfor hclean).2.2.mpr hfits

/-- A number without a constant is read as `nil` is, without a diagnostic. So no way to write
programs gives both lists of tokens back. -/
theorem parse_of_number_without_constant :
    let number : Token := ⟨.number, utf8 "1", .nil, 1⟩
    let tokens : List Token := [number, .mark .semicolon ";", .mark .eof ""]
    let others : List Token := [.mark .nil "nil", .mark .semicolon ";", .mark .eof ""]
    (∀ t ∈ Token.body tokens, t.kind ≠ .for) ∧ (parse tokens 0 .compact).diagnostics = [] ∧
      (parse tokens 0 .compact).program = (parse others 0 .compact).program ∧
      (Stmt.tokensAll (parse tokens 0 .compact).program).map Token.gist ≠
        (Token.body tokens).map Token.gist := by
  refine ⟨by decide +kernel, by decide +kernel, rfl, fun h => ?_⟩
  have hkinds := congrArg (List.map Prod.fst) h
  revert hkinds
  decide +kernel

end Lox
