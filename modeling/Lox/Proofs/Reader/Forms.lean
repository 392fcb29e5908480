/-
Reading loops in the two forms.

# What the form decides

The form in which `for` statements are written decides only which nodes are made of what was read.
So with either form the same tokens are gone over and the same faults noted, and what is read in the
full form is what is read in the compact form with blocks added (`parse_padded`).

# The judgement

`Pads R x y` says this of a reader `x` in the compact form and a reader `y` in the full form, where
`R` relates what they yield: the same expression up to identities (`Expr.Like`), or a statement with
blocks added (`Stmt.Padded`). Identities are of no account, since the full form takes more of them;
so the two readings start from states that agree in the tokens left and in the faults, and each ends
in such a state.

# The grammar

There is one lemma for each reader, in the order of the grammar. Only two of them look at the form,
`pads_bodyThen` and `pads_initializerThen`, and these are where blocks are added: around the body of
a loop that has no increment, and around a loop that has no initializer. A block may be added around
a statement that declares nothing, so it is carried along that statements do (`PadsPlain`). A
declaration that cannot be read is dropped at the same place in both readings (`pads_recover`),
since the tokens that are left are the same.
-/
import Lox.Proofs.Tree.Padded
import Lox.Tree.Parse

namespace Lox.Reader

variable {α β : Type}

-- ==== The judgement

/-- The two answers are related or both missing, and leave the same tokens and faults. -/
structure Paired (R : α → α → Prop) (p q : Option α × State) : Prop where
  value : Option.Rel R p.1 q.1
  rest : q.2.rest = p.2.rest
  faults : q.2.faults = p.2.faults

/-- The second reader does in the full form what the first does in the compact form. -/
def Pads (R : α → α → Prop) (x y : Reader α) : Prop :=
  ∀ eof s s', s'.rest = s.rest → s'.faults = s.faults →
    Paired R (x ⟨eof, .compact⟩ s) (y ⟨eof, .full⟩ s')

section Rules

variable {R : α → α → Prop} {S : β → β → Prop} {x x' y y' : Reader α}

theorem pads_pure {a a' : α} (h : R a a') : Pads R (pure a) (pure a') :=
  fun _ _ _ hr hf => ⟨.some h, hr, hf⟩

/-- Two readers, one after the other, in both forms. -/
theorem Pads.bind {f g : α → Reader β} (hx : Pads R x y)
    (hf : ∀ a a', R a a' → Pads S (f a) (g a')) : Pads S (x >>= f) (y >>= g) := by
  intro eof s s' hr hfaults
  have h := hx eof s s' hr hfaults
  simp only [Bind.bind]
  revert h
  generalize x ⟨eof, .compact⟩ s = p, y ⟨eof, .full⟩ s' = q
  rintro ⟨hvalue, hrest, hfaults⟩
  obtain ⟨a, s₁⟩ := p
  obtain ⟨a', s₁'⟩ := q
  cases hvalue with
  | none => exact ⟨.none, hrest, hfaults⟩
  | some hR => exact hf _ _ hR eof s₁ s₁' hrest hfaults

/-- Less may be said of what is yielded. -/
theorem Pads.mono {R' : α → α → Prop} (h : Pads R x y) (hR : ∀ a a', R a a' → R' a a') :
    Pads R' x y := by
  intro eof s s' hr hfaults
  obtain ⟨hvalue, hrest, hfaults⟩ := h eof s s' hr hfaults
  refine ⟨?_, hrest, hfaults⟩
  revert hvalue
  generalize (x _ s).1 = a, (y _ s').1 = a'
  intro hvalue
  cases hvalue with
  | none => exact .none
  | some h => exact .some (hR _ _ h)

theorem pads_stop : Pads R stop stop := fun _ _ _ hr hf => ⟨.none, hr, hf⟩

/-- Both see the same token. -/
theorem pads_peek : Pads Eq peek peek := by
  intro eof s s' hr hf
  refine ⟨?_, hr, hf⟩
  simp only [peek, hr]
  exact .some rfl

theorem pads_skip : Pads Eq skip skip := by
  intro eof s s' hr hf
  refine ⟨.some rfl, ?_, hf⟩
  simp only [skip, hr]

theorem pads_note (token : Token) (problem : ParseProblem) :
    Pads Eq (note token problem) (note token problem) := by
  intro eof s s' hr hf
  refine ⟨.some rfl, hr, ?_⟩
  simp only [note, hf]

/-- Both note the same fault. -/
theorem pads_fail (problem : ParseProblem) : Pads R (fail problem) (fail problem) := by
  refine pads_peek.bind fun t t' ht => ?_
  subst ht
  exact (pads_note t problem).bind fun _ _ _ => pads_stop

/-- Which identity is taken is left open. -/
theorem pads_fresh : Pads (fun _ _ => True) fresh fresh :=
  fun _ _ _ hr hf => ⟨.some trivial, hr, hf⟩

/-- Both find the kind, or neither does. -/
theorem pads_sees (kind : Kind) : Pads Eq (sees kind) (sees kind) := by
  intro eof s s' hr hf
  refine ⟨?_, hr, hf⟩
  simp only [sees, hr]
  exact .some rfl

theorem pads_atEnd : Pads Eq atEnd atEnd := by
  intro eof s s' hr hf
  refine ⟨?_, hr, hf⟩
  simp only [atEnd, hr]
  exact .some rfl

/-- A choice that comes out the same. -/
theorem pads_ite {c c' : Prop} [Decidable c] [Decidable c'] (hc : c ↔ c') (hx : Pads R x y)
    (hx' : Pads R x' y') : Pads R (if c then x else x') (if c' then y else y') := by
  by_cases h : c
  · rw [if_pos h, if_pos (hc.mp h)]
    exact hx
  · rw [if_neg h, if_neg (h ∘ hc.mpr)]
    exact hx'

/-- A choice by an answer that is the same for both. -/
theorem Pads.choose {look look' : Reader Bool} (hlook : Pads Eq look look') (hx : Pads R x y)
    (hx' : Pads R x' y') :
    Pads R (do if ← look then x else x') (do if ← look' then y else y') := by
  refine hlook.bind fun b b' hb => ?_
  subst hb
  exact pads_ite Iff.rfl hx hx'

/-- Both take a token of the kind, or neither does. -/
theorem pads_accept (kind : Kind) : Pads Eq (accept kind) (accept kind) :=
  (pads_sees kind).choose (pads_skip.bind fun _ _ _ => pads_pure rfl) (pads_pure rfl)

/-- Both take the token that is expected, or both note that it is missing. -/
theorem pads_expect (kind : Kind) (problem : ParseProblem) :
    Pads Eq (expect kind problem) (expect kind problem) := by
  refine pads_peek.bind fun t t' ht => ?_
  subst ht
  exact (pads_sees kind).choose (pads_skip.bind fun _ _ _ => pads_pure rfl) (pads_fail problem)

/-- Both make a node last, each with an identity of its own. -/
theorem pads_made {make make' : Nat → α} (h : ∀ id id', R (make id) (make' id')) :
    Pads R (do return make (← fresh)) (do return make' (← fresh)) :=
  pads_fresh.bind fun id id' _ => pads_pure (h id id')

end Rules

-- ==== Expressions

theorem pads_join {left left' right right' : Expr} (operator : Token) (hl : left.Like left')
    (hr : right.Like right') :
    Pads Expr.Like (join left operator right) (join left' operator right') :=
  pads_fresh.bind fun _ _ _ => pads_ite Iff.rfl (pads_pure (.logical _ _ operator hl hr))
    (pads_pure (.binary _ _ operator hl hr))

/-- An expression that needs no operator. -/
theorem pads_primary {inner inner' : Reader Expr} (h : Pads Expr.Like inner inner') :
    Pads Expr.Like (primary inner) (primary inner') := by
  refine pads_peek.bind fun t t' ht => ?_
  subst ht
  cases t.kind with
  | «false» => exact pads_skip.bind fun _ _ _ => pads_made fun _ _ => .literal _ _ _
  | «true» => exact pads_skip.bind fun _ _ _ => pads_made fun _ _ => .literal _ _ _
  | nil => exact pads_skip.bind fun _ _ _ => pads_made fun _ _ => .literal _ _ _
  | number => exact pads_skip.bind fun _ _ _ => pads_made fun _ _ => .literal _ _ _
  | string => exact pads_skip.bind fun _ _ _ => pads_made fun _ _ => .literal _ _ _
  | identifier => exact pads_skip.bind fun _ _ _ => pads_made fun _ _ => .ident _ _ _
  | leftParen =>
      exact pads_skip.bind fun _ _ _ => h.bind fun _ _ he => (pads_expect _ _).bind fun _ _ _ =>
        pads_made fun _ _ => .grouping _ _ he
  | _ => exact pads_fail _

/-- A target can be assigned to in both forms or in neither. -/
theorem pads_assignment {target target' : Expr} {value value' : Reader Expr}
    (ht : target.Like target') (h : Pads Expr.Like value value') :
    Pads Expr.Like (assignment target value) (assignment target' value') := by
  refine pads_peek.bind fun equals equals' hequals => ?_
  subst hequals
  refine (pads_accept _).choose (h.bind fun v v' hv => ?_) (pads_pure ht)
  have invalid : Pads Expr.Like (do note equals .invalidTarget; return target)
      (do note equals .invalidTarget; return target') :=
    (pads_note _ _).bind fun _ _ _ => pads_pure ht
  cases ht with
  | ident id id' name => exact pads_made fun _ _ => .assign _ _ name hv
  | _ => exact invalid

mutual

/-- Expressions are the same in both forms, up to identities. -/
theorem pads_expression : ∀ n, Pads Expr.Like (expression n) (expression n)
  | 0 => pads_stop
  | n + 1 =>
      (pads_operation n 1).bind fun _ _ ht => pads_assignment ht (pads_expression n)

theorem pads_operation : ∀ n least, Pads Expr.Like (operation n least) (operation n least)
  | 0, _ => pads_stop
  | n + 1, least => (pads_unary n).bind fun _ _ hl => pads_operators n least hl

theorem pads_operators : ∀ n least {left left' : Expr}, left.Like left' →
    Pads Expr.Like (operators n least left) (operators n least left')
  | 0, _, _, _, _ => pads_stop
  | n + 1, least, left, left', hl => by
      refine pads_peek.bind fun t t' ht => ?_
      subst ht
      cases t.kind.precedence? with
      | none => exact pads_pure hl
      | some precedence =>
          refine pads_ite Iff.rfl (pads_skip.bind fun _ _ _ => ?_) (pads_pure hl)
          exact (pads_operation n _).bind fun _ _ hr => (pads_join t hl hr).bind fun _ _ he =>
            pads_operators n least he

theorem pads_unary : ∀ n, Pads Expr.Like (unary n) (unary n)
  | 0 => pads_stop
  | n + 1 => by
      refine pads_peek.bind fun t t' ht => ?_
      subst ht
      refine pads_ite Iff.rfl (pads_skip.bind fun _ _ _ => ?_) ?_
      · exact (pads_unary n).bind fun _ _ he => pads_made fun _ _ => .unary _ _ t he
      · exact (pads_primary (pads_expression n)).bind fun _ _ hc => pads_calls n hc

theorem pads_calls : ∀ n {callee callee' : Expr}, callee.Like callee' →
    Pads Expr.Like (calls n callee) (calls n callee')
  | 0, _, _, _ => pads_stop
  | n + 1, callee, callee', hc => by
      have close : ∀ args args', Expr.LikeAll args args' → Pads Expr.Like
          (do let paren ← expect .rightParen .unclosedArguments
              calls n (.call (← fresh) callee paren args))
          (do let paren ← expect .rightParen .unclosedArguments
              calls n (.call (← fresh) callee' paren args')) := by
        intro args args' hargs
        refine (pads_expect _ _).bind fun paren paren' hparen => ?_
        subst hparen
        exact pads_fresh.bind fun _ _ _ => pads_calls n (.call _ _ paren hc hargs)
      refine (pads_accept _).choose ?_ (pads_pure hc)
      exact (pads_sees _).choose (close [] [] .nil)
        ((pads_arguments n .nil).bind fun args args' hargs => close args args' hargs)

theorem pads_arguments : ∀ n {before before' : List Expr}, Expr.LikeAll before before' →
    Pads Expr.LikeAll (arguments n before) (arguments n before')
  | 0, _, _, _ => pads_stop
  | n + 1, before, before', hb => by
      have next : Pads Expr.LikeAll
          (do let arg ← expression n
              if ← accept .comma then arguments n (before ++ [arg]) else return before ++ [arg])
          (do let arg ← expression n
              if ← accept .comma then arguments n (before' ++ [arg])
              else return before' ++ [arg]) := by
        refine (pads_expression n).bind fun arg arg' harg => ?_
        have happend := hb.append (.cons harg .nil)
        exact (pads_accept _).choose (pads_arguments n happend) (pads_pure happend)
      rw [arguments, arguments, hb.length_eq]
      refine pads_ite Iff.rfl (pads_peek.bind fun t t' ht => ?_) next
      subst ht
      exact (pads_note _ _).bind fun _ _ _ => next

end

-- ==== Statements

/-- A statement that was read as such: it declares nothing, and blocks may be added. -/
def PadsPlain (s s' : Stmt) : Prop := s.Padded s' ∧ s.Plain

/-- The first clause of a loop, which is missing in both or in none. -/
def PadsClause (s s' : Stmt) : Prop := s.Padded s' ∧ s'.isAbsent = s.isAbsent

section Statements

variable {expression expression' : Reader Expr} {statement statement' : Reader Stmt}

/-- An expression that may be left out. -/
theorem pads_clause {R : Stmt → Stmt → Prop} (he : Pads Expr.Like expression expression')
    {look : Reader Bool} (hlook : Pads Eq look look) {k k' : Expr → Reader Stmt}
    (hk : ∀ e e', e.Like e' → Pads R (k e) (k' e')) :
    Pads R (do if ← look then k .absent else k (← expression))
      (do if ← look then k' .absent else k' (← expression')) :=
  hlook.choose (hk .absent .absent .absent) (he.bind hk)

/-- A variable declaration, which may be the first clause of a loop. -/
theorem pads_varDeclaration (he : Pads Expr.Like expression expression') :
    Pads PadsClause (varDeclaration expression) (varDeclaration expression') := by
  refine (pads_expect _ _).bind fun name name' hname => ?_
  subst hname
  have close : ∀ e e', e.Like e' → Pads PadsClause
      (do let _ ← expect .semicolon .unendedVariable
          return .var (← fresh) name e)
      (do let _ ← expect .semicolon .unendedVariable
          return .var (← fresh) name e') :=
    fun e e' h => (pads_expect _ _).bind fun _ _ _ => pads_made fun _ _ => ⟨.var _ _ name h, rfl⟩
  exact (pads_accept _).choose (he.bind close) (close .absent .absent .absent)

theorem pads_parameters : ∀ n before, Pads Eq (parameters n before) (parameters n before)
  | 0, _ => pads_stop
  | n + 1, before => by
      have next : Pads Eq
          (do let param ← expect .identifier .noParameterName
              if ← accept .comma then parameters n (before ++ [param])
              else return before ++ [param])
          (do let param ← expect .identifier .noParameterName
              if ← accept .comma then parameters n (before ++ [param])
              else return before ++ [param]) := by
        refine (pads_expect _ _).bind fun param param' hparam => ?_
        subst hparam
        exact (pads_accept _).choose (pads_parameters n _) (pads_pure rfl)
      refine pads_ite Iff.rfl (pads_peek.bind fun t t' ht => ?_) next
      subst ht
      exact (pads_note _ _).bind fun _ _ _ => next

/-- A function. Blocks may be added in its body, where there are loops, and nowhere else: its name
and its parameters are the same tokens. -/
theorem pads_functionDeclaration {params params' : Reader (List Token)}
    {block block' : Reader (List Stmt)} (hp : Pads Eq params params')
    (hb : Pads Stmt.PaddedAll block block') :
    Pads Stmt.Padded (functionDeclaration params block) (functionDeclaration params' block') := by
  refine (pads_expect _ _).bind fun name name' hname => ?_
  subst hname
  have close : ∀ ps, Pads Stmt.Padded
      (do let _ ← expect .rightParen .unclosedParameters
          let _ ← expect .leftBrace .unopenedBody
          let body ← block
          return .function (← fresh) name ps body)
      (do let _ ← expect .rightParen .unclosedParameters
          let _ ← expect .leftBrace .unopenedBody
          let body ← block'
          return .function (← fresh) name ps body) :=
    fun ps => (pads_expect _ _).bind fun _ _ _ => (pads_expect _ _).bind fun _ _ _ =>
      hb.bind fun _ _ h => pads_made fun _ _ => .function _ _ name ps h
  refine (pads_expect _ _).bind fun _ _ _ => (pads_sees _).choose (close []) ?_
  refine hp.bind fun ps ps' hps => ?_
  subst hps
  exact close ps

/-- An expression statement, which may be the first clause of a loop. -/
theorem pads_expressionStatement (he : Pads Expr.Like expression expression') :
    Pads (fun s s' => PadsPlain s s' ∧ PadsClause s s') (expressionStatement expression)
      (expressionStatement expression') :=
  he.bind fun _ _ h => (pads_expect _ _).bind fun _ _ _ =>
    pads_made fun _ _ => ⟨⟨.expression _ _ h, trivial⟩, .expression _ _ h, rfl⟩

theorem pads_printStatement (he : Pads Expr.Like expression expression') :
    Pads PadsPlain (printStatement expression) (printStatement expression') :=
  he.bind fun _ _ h => (pads_expect _ _).bind fun _ _ _ =>
    pads_made fun _ _ => ⟨.print _ _ h, trivial⟩

theorem pads_returnStatement (keyword : Token) (he : Pads Expr.Like expression expression') :
    Pads PadsPlain (returnStatement keyword expression) (returnStatement keyword expression') :=
  pads_clause he (pads_sees _) fun _ _ h => (pads_expect _ _).bind fun _ _ _ =>
    pads_made fun _ _ => ⟨.result _ _ keyword h, trivial⟩

/-- A `while` statement. The full form adds nothing of its own. -/
theorem pads_whileStatement (he : Pads Expr.Like expression expression')
    (hs : Pads PadsPlain statement statement') :
    Pads PadsPlain (whileStatement expression statement) (whileStatement expression' statement') :=
  (pads_expect _ _).bind fun _ _ _ => he.bind fun _ _ hc => (pads_expect _ _).bind fun _ _ _ =>
    hs.bind fun _ _ hb => pads_made fun _ _ => ⟨.loop _ _ hc hb.1, hb.2⟩

theorem pads_ifStatement (he : Pads Expr.Like expression expression')
    (hs : Pads PadsPlain statement statement') :
    Pads PadsPlain (ifStatement expression statement) (ifStatement expression' statement') := by
  refine (pads_expect _ _).bind fun _ _ _ => he.bind fun c c' hc => ?_
  refine (pads_expect _ _).bind fun _ _ _ => hs.bind fun p p' hp => ?_
  have close : ∀ t t', PadsPlain t t' → Pads PadsPlain
      (do return .branch (← fresh) c p t) (do return .branch (← fresh) c' p' t') :=
    fun t t' ht => pads_made fun _ _ => ⟨.branch _ _ hc hp.1 ht.1, hp.2, ht.2⟩
  exact (pads_accept _).choose (hs.bind close) (close .absent .absent ⟨.absent, trivial⟩)

/-- The first clause of a loop. -/
theorem pads_forInitializer (he : Pads Expr.Like expression expression') :
    Pads PadsClause (forInitializer expression) (forInitializer expression') :=
  (pads_accept _).choose (pads_pure ⟨.absent, rfl⟩) <|
    (pads_accept _).choose (pads_varDeclaration he)
      ((pads_expressionStatement he).mono fun _ _ h => h.2)

/-- Without an increment the full form has a block around the body. -/
theorem pads_bodyThen {body body' : Stmt} {increment increment' : Expr}
    (hb : PadsPlain body body') (hi : increment.Like increment') :
    Pads PadsPlain (bodyThen body increment) (bodyThen body' increment') := by
  rw [bodyThen, bodyThen, hi.isAbsent_eq]
  refine pads_ite Iff.rfl ?_ ?_
  · intro eof s s' hr hf
    exact ⟨.some ⟨.wrap _ hb.2 hb.1, hb.2⟩, hr, hf⟩
  · refine pads_fresh.bind fun _ _ _ => pads_made fun _ _ => ⟨.block _ _ ?_, trivial⟩
    exact .cons hb.1 (.cons (.expression _ _ hi) .nil)

theorem pads_conditionOrTrue {condition condition' : Expr} (h : condition.Like condition') :
    Pads Expr.Like (conditionOrTrue condition) (conditionOrTrue condition') := by
  rw [conditionOrTrue, conditionOrTrue, h.isAbsent_eq]
  exact pads_ite Iff.rfl (pads_made fun _ _ => .literal _ _ _) (pads_pure h)

/-- Without an initializer the full form has a block around the loop. -/
theorem pads_initializerThen {initializer initializer' loop loop' : Stmt}
    (hi : PadsClause initializer initializer') (hl : PadsPlain loop loop') :
    Pads PadsPlain (initializerThen initializer loop) (initializerThen initializer' loop') := by
  rw [initializerThen, initializerThen, hi.2]
  refine pads_ite Iff.rfl ?_ ?_
  · intro eof s s' hr hf
    exact ⟨.some ⟨.wrap _ hl.2 hl.1, hl.2⟩, hr, hf⟩
  · exact pads_made fun _ _ => ⟨.block _ _ (.cons hi.1 (.cons hl.1 .nil)), trivial⟩

/-- A `for` statement. -/
theorem pads_forStatement (he : Pads Expr.Like expression expression')
    (hs : Pads PadsPlain statement statement') :
    Pads PadsPlain (forStatement expression statement) (forStatement expression' statement') := by
  refine (pads_expect _ _).bind fun _ _ _ => (pads_forInitializer he).bind fun _ _ hi => ?_
  refine pads_clause he (pads_sees _) fun _ _ hc => (pads_expect _ _).bind fun _ _ _ => ?_
  refine pads_clause he (pads_sees _) fun _ _ hn => (pads_expect _ _).bind fun _ _ _ => ?_
  refine hs.bind fun _ _ hb => (pads_bodyThen hb hn).bind fun _ _ hb => ?_
  refine (pads_conditionOrTrue hc).bind fun _ _ hc => pads_fresh.bind fun _ _ _ => ?_
  exact pads_initializerThen hi ⟨.loop _ _ hc hb.1, hb.2⟩

/-- A declaration that is dropped is dropped at the same place. -/
theorem pads_recover (hs : Pads Stmt.Padded statement statement') :
    Pads (Option.Rel Stmt.Padded) (recover statement) (recover statement') := by
  intro eof s s' hr hf
  have h := hs eof s s' hr hf
  unfold recover
  revert h
  generalize statement _ s = p, statement' _ s' = q
  rintro ⟨hvalue, hrest, hfaults⟩
  obtain ⟨a, s₁⟩ := p
  obtain ⟨a', s₁'⟩ := q
  cases hvalue with
  | none => exact ⟨.some .none, congrArg resume hrest, hfaults⟩
  | some h => exact ⟨.some (.some h), hrest, hfaults⟩

end Statements

mutual

/-- Statements declare nothing in either form. -/
theorem pads_statement : ∀ n, Pads PadsPlain (statement n) (statement n)
  | 0 => pads_stop
  | n + 1 => by
      refine pads_peek.bind fun t t' ht => ?_
      subst ht
      cases t.kind with
      | «for» =>
          exact pads_skip.bind fun _ _ _ => pads_forStatement (pads_expression n) (pads_statement n)
      | «if» =>
          exact pads_skip.bind fun _ _ _ => pads_ifStatement (pads_expression n) (pads_statement n)
      | print => exact pads_skip.bind fun _ _ _ => pads_printStatement (pads_expression n)
      | «return» => exact pads_skip.bind fun _ _ _ => pads_returnStatement t (pads_expression n)
      | «while» =>
          exact pads_skip.bind fun _ _ _ =>
            pads_whileStatement (pads_expression n) (pads_statement n)
      | leftBrace =>
          exact pads_skip.bind fun _ _ _ => (pads_block n).bind fun _ _ hb =>
            pads_made fun _ _ => ⟨.block _ _ hb, trivial⟩
      | _ => exact (pads_expressionStatement (pads_expression n)).mono fun _ _ h => h.1

/-- Declarations and statements are the same up to added blocks. -/
theorem pads_declaration : ∀ n, Pads Stmt.Padded (declaration n) (declaration n)
  | 0 => pads_stop
  | n + 1 => by
      refine pads_peek.bind fun t t' ht => ?_
      subst ht
      cases t.kind with
      | «fun» =>
          exact pads_skip.bind fun _ _ _ =>
            pads_functionDeclaration (pads_parameters n []) (pads_block n)
      | var =>
          exact pads_skip.bind fun _ _ _ =>
            (pads_varDeclaration (pads_expression n)).mono fun _ _ h => h.1
      | _ => exact (pads_statement n).mono fun _ _ h => h.1

theorem pads_block : ∀ n, Pads Stmt.PaddedAll (block n) (block n)
  | 0 => pads_stop
  | n + 1 =>
      (pads_declarations n true).bind fun _ _ hb => (pads_expect _ _).bind fun _ _ _ => pads_pure hb

/-- Declarations in a row, of which some may be dropped. -/
theorem pads_declarations : ∀ n enclosed,
    Pads Stmt.PaddedAll (declarations n enclosed) (declarations n enclosed)
  | 0, _ => pads_stop
  | n + 1, enclosed => by
      have more : Pads Stmt.PaddedAll
          (do let first ← recover (declaration n)
              let others ← declarations n enclosed
              return first.toList ++ others)
          (do let first ← recover (declaration n)
              let others ← declarations n enclosed
              return first.toList ++ others) := by
        refine (pads_recover (pads_declaration n)).bind fun first first' hfirst => ?_
        refine (pads_declarations n enclosed).bind fun others others' hothers => pads_pure ?_
        cases hfirst with
        | none => exact hothers
        | some h => exact .cons h hothers
      exact pads_atEnd.choose (pads_pure .nil) <|
        pads_ite Iff.rfl ((pads_sees _).choose (pads_pure .nil) more) more

end

end Lox.Reader

namespace Lox

/-- In the full form a parse finds the same faults, and the program with blocks added. -/
theorem parse_padded (tokens : List Token) (issued issued' : Nat) :
    Stmt.PaddedAll (parse tokens issued .compact).program (parse tokens issued' .full).program ∧
      (parse tokens issued' .full).diagnostics = (parse tokens issued .compact).diagnostics := by
  have h := Reader.pads_declarations (Reader.depthBound (Token.body tokens).length) false
    (Token.ending tokens) ⟨Token.body tokens, issued, []⟩ ⟨Token.body tokens, issued', []⟩ rfl rfl
  unfold parse
  dsimp only
  revert h
  generalize Reader.declarations _ false ⟨_, .compact⟩ _ = p,
    Reader.declarations _ false ⟨_, .full⟩ _ = q
  rintro ⟨hvalue, -, hfaults⟩
  obtain ⟨a, s⟩ := p
  obtain ⟨a', s'⟩ := q
  refine ⟨?_, congrArg _ hfaults⟩
  cases hvalue with
  | none => exact .nil
  | some h => exact h

end Lox
