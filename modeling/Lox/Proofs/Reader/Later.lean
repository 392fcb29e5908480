/-
Reading after other identities have been taken and other faults noted.

# What is shown

Identities are taken from a counter and used for nothing else while a tree is read, and a fault that
was noted is not looked at again. So a reading that starts `d` identities later notes the same
faults after those that were there, goes over the same tokens and yields the same tree with each
identity `d` greater, and that also where it drops declarations that it cannot read (`parse_later`).

# The judgement

`Later d f x x'` says so of two readers: what `x` yields, `x'` yields with `f` applied to it. For a
reader that yields a tree `f` is the renaming that adds `d`, for one that yields a token it is the
identity. Two readers are needed since some go on from a tree that was made before, which is another
one in the second reading.

Readers that take no identity are the same function in both readings and ask for no proof but `rfl`.
The only one that looks at the counter is `fresh`. All others are put together from these, and there
is one lemma for each of them, in the order of the grammar.
-/
import Lox.Proofs.Tree.Renamed
import Lox.Tree.Parse

namespace Lox.Reader

variable {α β : Type} {d : Nat}

-- ==== The judgement

/-- The state in which `d` more identities have been taken, and faults noted before. -/
def State.later (d : Nat) (noted : List ParseFault) (s : State) : State :=
  { s with issued := s.issued + d, faults := noted ++ s.faults }

/-- Started `d` identities later and after any faults, `x'` does what `x` does and yields the same but
for `f`. -/
def Later (d : Nat) (f : α → α) (x x' : Reader α) : Prop :=
  ∀ noted setting s,
    x' setting (s.later d noted) = ((x setting s).1.map f, (x setting s).2.later d noted)

section Rules

variable {f : α → α} {g : β → β}

theorem later_pure {a a' : α} (h : a' = f a) : Later d f (pure a) (pure a') := by
  subst h
  exact fun _ _ _ => rfl

/-- Two readers, one after the other. -/
theorem Later.bind {x x' : Reader α} {k k' : α → Reader β} (hx : Later d f x x')
    (hk : ∀ a, Later d g (k a) (k' (f a))) : Later d g (x >>= k) (x' >>= k') := by
  intro noted setting s
  simp only [Bind.bind, hx noted setting s]
  obtain ⟨_ | a, s₁⟩ := x setting s
  · rfl
  · exact hk a noted setting s₁

theorem later_stop : Later d f stop stop := fun _ _ _ => rfl

theorem later_peek : Later d id peek peek := fun _ _ _ => rfl

theorem later_skip : Later d id skip skip := fun _ _ _ => rfl

/-- A fault is noted after those that were there. -/
theorem later_note (token : Token) (problem : ParseProblem) :
    Later d id (note token problem) (note token problem) := by
  intro noted setting s
  simp only [note, State.later, List.append_assoc, Option.map_some, id_eq]

theorem later_fail (problem : ParseProblem) : Later d f (fail problem) (fail problem) :=
  later_peek.bind fun token => (later_note token problem).bind fun _ => later_stop

/-- The identity that is taken is `d` greater. -/
theorem later_fresh : Later d (· + d) fresh fresh := by
  intro noted setting s
  simp only [fresh, State.later, Option.map_some, Nat.add_right_comm]

theorem later_form : Later d id form form := fun _ _ _ => rfl

theorem later_sees (kind : Kind) : Later d id (sees kind) (sees kind) := fun _ _ _ => rfl

theorem later_atEnd : Later d id atEnd atEnd := fun _ _ _ => rfl

/-- A choice that comes out the same. -/
theorem later_ite {c : Prop} [Decidable c] {x x' y y' : Reader α} (hx : Later d f x x')
    (hy : Later d f y y') : Later d f (if c then x else y) (if c then x' else y') := by
  split
  · exact hx
  · exact hy

theorem later_accept (kind : Kind) : Later d id (accept kind) (accept kind) :=
  (later_sees kind).bind fun _ =>
    later_ite (later_skip.bind fun _ => later_pure rfl) (later_pure rfl)

/-- A token that is expected is found in both readings, or noted as missing in both. -/
theorem later_expect (kind : Kind) (problem : ParseProblem) :
    Later d id (expect kind problem) (expect kind problem) :=
  later_peek.bind fun _ => (later_sees kind).bind fun _ =>
    later_ite (later_skip.bind fun _ => later_pure rfl) (later_fail problem)

end Rules

/-- An expression `d` identities later. -/
abbrev laterExpr (d : Nat) : Expr → Expr := Expr.renamed (· + d)

/-- Expressions `d` identities later. -/
abbrev laterExprs (d : Nat) : List Expr → List Expr := Expr.renamedAll (· + d)

/-- A statement `d` identities later. -/
abbrev laterStmt (d : Nat) : Stmt → Stmt := Stmt.renamed (· + d)

/-- Statements `d` identities later. -/
abbrev laterStmts (d : Nat) : List Stmt → List Stmt := Stmt.renamedAll (· + d)

-- ==== Expressions

/-- The node of an operator between two operands. -/
theorem later_join (left : Expr) (operator : Token) (right : Expr) :
    Later d (laterExpr d) (join left operator right)
      (join (laterExpr d left) operator (laterExpr d right)) :=
  later_fresh.bind fun _ => later_ite (later_pure rfl) (later_pure rfl)

/-- A leaf of the tree, made from one token. -/
theorem later_leaf {make : Nat → Expr} (h : ∀ id, make (id + d) = laterExpr d (make id)) :
    Later d (laterExpr d) (do skip; return make (← fresh)) (do skip; return make (← fresh)) :=
  later_skip.bind fun _ => later_fresh.bind fun id => later_pure (h id)

/-- An expression that needs no operator. -/
theorem later_primary {inner : Reader Expr} (h : Later d (laterExpr d) inner inner) :
    Later d (laterExpr d) (primary inner) (primary inner) := by
  refine later_peek.bind fun t => ?_
  rw [id_eq]
  cases t.kind with
  | «false» => exact later_leaf fun _ => rfl
  | «true» => exact later_leaf fun _ => rfl
  | nil => exact later_leaf fun _ => rfl
  | number => exact later_leaf fun _ => rfl
  | string => exact later_leaf fun _ => rfl
  | identifier => exact later_leaf fun _ => rfl
  | leftParen =>
      exact later_skip.bind fun _ => h.bind fun _ => (later_expect _ _).bind fun _ =>
        later_fresh.bind fun _ => later_pure rfl
  | _ => exact later_fail _

/-- Whether a target can be assigned to does not depend on its identity. -/
theorem later_assignment (target : Expr) {value : Reader Expr}
    (h : Later d (laterExpr d) value value) :
    Later d (laterExpr d) (assignment target value) (assignment (laterExpr d target) value) := by
  refine later_peek.bind fun equals => (later_accept _).bind fun found => ?_
  refine later_ite ?_ (later_pure rfl)
  refine h.bind fun v => ?_
  cases target with
  | ident id name => exact later_fresh.bind fun _ => later_pure rfl
  | _ => exact (later_note _ _).bind fun _ => later_pure rfl

mutual

/-- Expressions have all their identities `d` greater. -/
theorem later_expression : ∀ n, Later d (laterExpr d) (expression n) (expression n)
  | 0 => later_stop
  | n + 1 =>
      (later_operation n 1).bind fun target => later_assignment target (later_expression n)

theorem later_operation : ∀ n least, Later d (laterExpr d) (operation n least) (operation n least)
  | 0, _ => later_stop
  | n + 1, least => (later_unary n).bind fun left => later_operators n least left

theorem later_operators : ∀ n least left,
    Later d (laterExpr d) (operators n least left) (operators n least (laterExpr d left))
  | 0, _, _ => later_stop
  | n + 1, least, left => by
      refine later_peek.bind fun t => ?_
      rw [id_eq]
      cases t.kind.precedence? with
      | none => exact later_pure rfl
      | some precedence =>
          refine later_ite (later_skip.bind fun _ => ?_) (later_pure rfl)
          exact (later_operation n _).bind fun right => (later_join left t right).bind fun e =>
            later_operators n least e

theorem later_unary : ∀ n, Later d (laterExpr d) (unary n) (unary n)
  | 0 => later_stop
  | n + 1 =>
      later_peek.bind fun _ => later_ite
        (later_skip.bind fun _ => (later_unary n).bind fun _ =>
          later_fresh.bind fun _ => later_pure rfl)
        ((later_primary (later_expression n)).bind fun callee => later_calls n callee)

theorem later_calls : ∀ n callee,
    Later d (laterExpr d) (calls n callee) (calls n (laterExpr d callee))
  | 0, _ => later_stop
  | n + 1, callee => by
      have close : ∀ args, Later d (laterExpr d)
          (do let paren ← expect .rightParen .unclosedArguments
              calls n (.call (← fresh) callee paren args))
          (do let paren ← expect .rightParen .unclosedArguments
              calls n (.call (← fresh) (laterExpr d callee) paren (laterExprs d args))) :=
        fun args => (later_expect _ _).bind fun _ => later_fresh.bind fun _ => later_calls n _
      refine (later_accept _).bind fun _ => later_ite ?_ (later_pure rfl)
      exact (later_sees _).bind fun _ =>
        later_ite (close []) ((later_arguments n []).bind fun args => close args)

theorem later_arguments : ∀ n before,
    Later d (laterExprs d) (arguments n before) (arguments n (laterExprs d before))
  | 0, _ => later_stop
  | n + 1, before => by
      have next : Later d (laterExprs d)
          (do let arg ← expression n
              if ← accept .comma then arguments n (before ++ [arg]) else return before ++ [arg])
          (do let arg ← expression n
              if ← accept .comma then arguments n (laterExprs d before ++ [arg])
              else return laterExprs d before ++ [arg]) := by
        refine (later_expression n).bind fun arg => (later_accept _).bind fun _ => ?_
        have happend := Expr.renamedAll_append (g := (· + d)) before [arg]
        exact later_ite (happend ▸ later_arguments n (before ++ [arg])) (later_pure happend.symm)
      rw [arguments, arguments, Expr.length_renamedAll]
      exact later_ite (later_peek.bind fun _ => (later_note _ _).bind fun _ => next) next

end

-- ==== Statements

section Statements

variable {expression : Reader Expr} {statement : Reader Stmt}

/-- An expression that may be left out. -/
theorem later_clause (he : Later d (laterExpr d) expression expression) {look : Reader Bool}
    (hlook : Later d id look look) {k k' : Expr → Reader Stmt}
    (hk : ∀ e, Later d (laterStmt d) (k e) (k' (laterExpr d e))) :
    Later d (laterStmt d) (do if ← look then k .absent else k (← expression))
      (do if ← look then k' .absent else k' (← expression)) :=
  hlook.bind fun _ => later_ite (hk .absent) (he.bind fun e => hk e)

/-- A variable declaration, with or without an initializer. -/
theorem later_varDeclaration (he : Later d (laterExpr d) expression expression) :
    Later d (laterStmt d) (varDeclaration expression) (varDeclaration expression) := by
  have close : ∀ name initializer, Later d (laterStmt d)
      (do let _ ← expect .semicolon .unendedVariable
          return .var (← fresh) name initializer)
      (do let _ ← expect .semicolon .unendedVariable
          return .var (← fresh) name (laterExpr d initializer)) :=
    fun _ _ => (later_expect _ _).bind fun _ => later_fresh.bind fun _ => later_pure rfl
  exact (later_expect _ _).bind fun name => (later_accept _).bind fun _ =>
    later_ite (he.bind fun e => close name e) (close name .absent)

/-- Parameters have no identities. -/
theorem later_parameters : ∀ n before, Later d id (parameters n before) (parameters n before)
  | 0, _ => later_stop
  | n + 1, before => by
      have next : Later d id
          (do let param ← expect .identifier .noParameterName
              if ← accept .comma then parameters n (before ++ [param])
              else return before ++ [param])
          (do let param ← expect .identifier .noParameterName
              if ← accept .comma then parameters n (before ++ [param])
              else return before ++ [param]) :=
        (later_expect _ _).bind fun _ => (later_accept _).bind fun _ =>
          later_ite (later_parameters n _) (later_pure rfl)
      exact later_ite (later_peek.bind fun _ => (later_note _ _).bind fun _ => next) next

/-- A function declaration. -/
theorem later_functionDeclaration {params : Reader (List Token)} {block : Reader (List Stmt)}
    (hp : Later d id params params) (hb : Later d (laterStmts d) block block) :
    Later d (laterStmt d) (functionDeclaration params block)
      (functionDeclaration params block) := by
  have close : ∀ name ps, Later d (laterStmt d)
      (do let _ ← expect .rightParen .unclosedParameters
          let _ ← expect .leftBrace .unopenedBody
          let body ← block
          return .function (← fresh) name ps body)
      (do let _ ← expect .rightParen .unclosedParameters
          let _ ← expect .leftBrace .unopenedBody
          let body ← block
          return .function (← fresh) name ps body) :=
    fun name ps => (later_expect _ _).bind fun _ => (later_expect _ _).bind fun _ =>
      hb.bind fun _ => later_fresh.bind fun _ => later_pure rfl
  exact (later_expect _ _).bind fun name => (later_expect _ _).bind fun _ =>
    (later_sees _).bind fun _ => later_ite (close name []) (hp.bind fun ps => close name ps)

theorem later_expressionStatement (he : Later d (laterExpr d) expression expression) :
    Later d (laterStmt d) (expressionStatement expression) (expressionStatement expression) :=
  he.bind fun _ => (later_expect _ _).bind fun _ => later_fresh.bind fun _ => later_pure rfl

theorem later_printStatement (he : Later d (laterExpr d) expression expression) :
    Later d (laterStmt d) (printStatement expression) (printStatement expression) :=
  he.bind fun _ => (later_expect _ _).bind fun _ => later_fresh.bind fun _ => later_pure rfl

theorem later_returnStatement (keyword : Token) (he : Later d (laterExpr d) expression expression) :
    Later d (laterStmt d) (returnStatement keyword expression)
      (returnStatement keyword expression) :=
  later_clause he (later_sees _) fun _ =>
    (later_expect _ _).bind fun _ => later_fresh.bind fun _ => later_pure rfl

theorem later_whileStatement (he : Later d (laterExpr d) expression expression)
    (hs : Later d (laterStmt d) statement statement) :
    Later d (laterStmt d) (whileStatement expression statement)
      (whileStatement expression statement) :=
  (later_expect _ _).bind fun _ => he.bind fun _ => (later_expect _ _).bind fun _ =>
    hs.bind fun _ => later_fresh.bind fun _ => later_pure rfl

/-- An `if` statement, with or without an `else`. -/
theorem later_ifStatement (he : Later d (laterExpr d) expression expression)
    (hs : Later d (laterStmt d) statement statement) :
    Later d (laterStmt d) (ifStatement expression statement)
      (ifStatement expression statement) := by
  have close : ∀ condition positive negative, Later d (laterStmt d)
      (do return .branch (← fresh) condition positive negative)
      (do return .branch (← fresh) (laterExpr d condition) (laterStmt d positive)
            (laterStmt d negative)) :=
    fun condition positive negative => later_fresh.bind fun _ => later_pure rfl
  exact (later_expect _ _).bind fun _ => he.bind fun condition => (later_expect _ _).bind fun _ =>
    hs.bind fun positive => (later_accept _).bind fun _ =>
      later_ite (hs.bind fun negative => close condition positive negative)
        (close condition positive .absent)

theorem later_forInitializer (he : Later d (laterExpr d) expression expression) :
    Later d (laterStmt d) (forInitializer expression) (forInitializer expression) :=
  (later_accept _).bind fun _ => later_ite (later_pure rfl) <| (later_accept _).bind fun _ =>
    later_ite (later_varDeclaration he) (later_expressionStatement he)

/-- What is missing in a loop stays missing, so the same nodes are added. -/
theorem later_bodyThen (body : Stmt) (increment : Expr) :
    Later d (laterStmt d) (bodyThen body increment)
      (bodyThen (laterStmt d body) (laterExpr d increment)) := by
  rw [bodyThen, bodyThen, Expr.isAbsent_renamed]
  refine later_ite (later_form.bind fun form => ?_) ?_
  · cases form with
    | compact => exact later_pure rfl
    | full => exact later_fresh.bind fun _ => later_pure rfl
  · exact later_fresh.bind fun _ => later_fresh.bind fun _ => later_pure rfl

theorem later_conditionOrTrue (condition : Expr) :
    Later d (laterExpr d) (conditionOrTrue condition)
      (conditionOrTrue (laterExpr d condition)) := by
  rw [conditionOrTrue, conditionOrTrue, Expr.isAbsent_renamed]
  exact later_ite (later_fresh.bind fun _ => later_pure rfl) (later_pure rfl)

theorem later_initializerThen (initializer loop : Stmt) :
    Later d (laterStmt d) (initializerThen initializer loop)
      (initializerThen (laterStmt d initializer) (laterStmt d loop)) := by
  rw [initializerThen, initializerThen, Stmt.isAbsent_renamed]
  refine later_ite (later_form.bind fun form => ?_) (later_fresh.bind fun _ => later_pure rfl)
  cases form with
  | compact => exact later_pure rfl
  | full => exact later_fresh.bind fun _ => later_pure rfl

/-- A `for` statement, whatever clauses it has. -/
theorem later_forStatement (he : Later d (laterExpr d) expression expression)
    (hs : Later d (laterStmt d) statement statement) :
    Later d (laterStmt d) (forStatement expression statement)
      (forStatement expression statement) := by
  refine (later_expect _ _).bind fun _ => (later_forInitializer he).bind fun initializer => ?_
  refine later_clause he (later_sees _) fun condition => (later_expect _ _).bind fun _ => ?_
  refine later_clause he (later_sees _) fun increment => (later_expect _ _).bind fun _ => ?_
  exact hs.bind fun body => (later_bodyThen body increment).bind fun _ =>
    (later_conditionOrTrue condition).bind fun _ => later_fresh.bind fun _ =>
      later_initializerThen initializer _

/-- A declaration that is dropped is dropped at the same place. -/
theorem later_recover (hs : Later d (laterStmt d) statement statement) :
    Later d (Option.map (laterStmt d)) (recover statement) (recover statement) := by
  intro noted setting s
  unfold recover
  rw [hs noted setting s]
  obtain ⟨_ | stmt, s₁⟩ := statement setting s
  · rfl
  · rfl

end Statements

mutual

/-- Statements have all their identities `d` greater. -/
theorem later_statement : ∀ n, Later d (laterStmt d) (statement n) (statement n)
  | 0 => later_stop
  | n + 1 => by
      refine later_peek.bind fun t => ?_
      rw [id_eq]
      cases t.kind with
      | «for» =>
          exact later_skip.bind fun _ => later_forStatement (later_expression n) (later_statement n)
      | «if» =>
          exact later_skip.bind fun _ => later_ifStatement (later_expression n) (later_statement n)
      | print => exact later_skip.bind fun _ => later_printStatement (later_expression n)
      | «return» => exact later_skip.bind fun _ => later_returnStatement t (later_expression n)
      | «while» =>
          exact later_skip.bind fun _ =>
            later_whileStatement (later_expression n) (later_statement n)
      | leftBrace =>
          exact later_skip.bind fun _ => (later_block n).bind fun _ =>
            later_fresh.bind fun _ => later_pure rfl
      | _ => exact later_expressionStatement (later_expression n)

theorem later_declaration : ∀ n, Later d (laterStmt d) (declaration n) (declaration n)
  | 0 => later_stop
  | n + 1 => by
      refine later_peek.bind fun t => ?_
      rw [id_eq]
      cases t.kind with
      | «fun» =>
          exact later_skip.bind fun _ =>
            later_functionDeclaration (later_parameters n []) (later_block n)
      | var => exact later_skip.bind fun _ => later_varDeclaration (later_expression n)
      | _ => exact later_statement n

theorem later_block : ∀ n, Later d (laterStmts d) (block n) (block n)
  | 0 => later_stop
  | n + 1 =>
      (later_declarations n true).bind fun _ => (later_expect _ _).bind fun _ => later_pure rfl

/-- Declarations in a row, of which some may be dropped. -/
theorem later_declarations : ∀ n enclosed,
    Later d (laterStmts d) (declarations n enclosed) (declarations n enclosed)
  | 0, _ => later_stop
  | n + 1, enclosed => by
      have more : Later d (laterStmts d)
          (do let first ← recover (declaration n)
              let others ← declarations n enclosed
              return first.toList ++ others)
          (do let first ← recover (declaration n)
              let others ← declarations n enclosed
              return first.toList ++ others) := by
        refine (later_recover (later_declaration n)).bind fun first => ?_
        refine (later_declarations n enclosed).bind fun others => later_pure ?_
        cases first <;> rfl
      exact later_atEnd.bind fun _ => later_ite (later_pure rfl) <|
        later_ite ((later_sees _).bind fun _ => later_ite (later_pure rfl) more) more

end

end Lox.Reader

namespace Lox

/-- With `d` more identities taken before, a parse finds the same faults and the same program, but
for identities that are `d` greater. -/
theorem parse_later (tokens : List Token) (issued d : Nat) (form : LoopForm) :
    parse tokens (issued + d) form =
      ⟨Stmt.renamedAll (· + d) (parse tokens issued form).program,
        (parse tokens issued form).diagnostics, (parse tokens issued form).issued + d⟩ := by
  have h := Reader.later_declarations (d := d) (Reader.depthBound (Token.body tokens).length) false
    [] ⟨Token.ending tokens, form⟩ ⟨Token.body tokens, issued, []⟩
  unfold parse
  simp only [Reader.State.later, List.nil_append] at h
  simp only [h]
  generalize Reader.declarations (Reader.depthBound (Token.body tokens).length) false
    ⟨Token.ending tokens, form⟩ ⟨Token.body tokens, issued, []⟩ = result
  obtain ⟨_ | program, s⟩ := result
  · rfl
  · rfl

end Lox
