/-
Brackets in a program that is read without a fault.

# What is shown

Going over the tokens of a program, the number of brackets that are open never falls below nought
and is nought at the end (`parse_climbs`). Parentheses and braces are counted together; that a
parenthesis is closed by a parenthesis is known of each reader that takes one, but is not needed
here.

# The judgement

`Kind.Climbs d e kinds` says that going over tokens of these kinds leads from depth `d` to depth
`e`, one token after the other, and that no bracket is closed that is not open. `Nests d e x` says
of a reader that the tokens it takes lead from depth `d` to depth `e`, if nothing was noted up to
its end. For each reader it is known how deep it ends if it begins at a depth: a reader of an
expression or a statement ends where it began, and that of a block one level further out, since it
takes the closing brace only.

# The readers

Most readers are followed token by token. A reader that takes a bracket begins the next one a level
deeper, and that is the whole argument; operators and keywords leave the depth as it is.
Declarations that are dropped would break the count, but they are dropped only with a note, as long
as the bound on the depth of calls is not reached (`recover_nests`); so for statements the induction
is on a bound that is large enough for the tokens that are left (`StatementNests`).
-/
import Lox.Proofs.Reader.SpellingStatement
import Lox.Repl.Chunk

namespace Lox

namespace Kind

variable {k : Kind} {d e f : Nat} {a b : List Kind}

-- ==== Going over tokens

/-- A token of this kind leads from one depth of brackets to another. -/
def Moves (k : Kind) (d e : Nat) : Prop := (e : Int) = d + k.nesting

/-- A token that is no bracket. -/
theorem moves_flat (h : k.nesting = 0) (d : Nat) : k.Moves d d := by
  rw [Moves, h, Int.add_zero]

/-- An opening bracket. -/
theorem moves_open (h : k.nesting = 1) (d : Nat) : k.Moves d (d + 1) := by
  rw [Moves, h, Int.natCast_succ]

/-- A closing bracket, for which one has to be open. -/
theorem moves_close (h : k.nesting = -1) (d : Nat) : k.Moves (d + 1) d := by
  rw [Moves, h, Int.natCast_succ]
  omega

/-- Going over tokens of these kinds leads from one depth of brackets to another, and no bracket is
closed that is not open. -/
def Climbs : Nat → Nat → List Kind → Prop
  | d, e, [] => d = e
  | d, e, k :: kinds => ∃ d', k.Moves d d' ∧ Climbs d' e kinds

/-- Tokens after others, from the depth where those ended. -/
theorem Climbs.append (ha : Climbs d e a) (hb : Climbs e f b) : Climbs d f (a ++ b) := by
  induction a generalizing d with
  | nil =>
      obtain rfl : d = e := ha
      exact hb
  | cons k a ih =>
      obtain ⟨d', hmoves, hrest⟩ := ha
      exact ⟨d', hmoves, ih hrest⟩

/-- Between two stretches of tokens there is some depth. -/
theorem Climbs.cut (h : Climbs d f (a ++ b)) : ∃ e, Climbs d e a ∧ Climbs e f b := by
  induction a generalizing d with
  | nil => exact ⟨d, rfl, h⟩
  | cons k a ih =>
      obtain ⟨d', hmoves, hrest⟩ := h
      obtain ⟨e, ha, hb⟩ := ih hrest
      exact ⟨e, ⟨d', hmoves, ha⟩, hb⟩

end Kind

namespace Reader

open Kind (Climbs Moves moves_flat moves_open moves_close)

variable {α β : Type} {n d e f : Nat} {setting : Setting} {s : State} {t : Token}
  {rest : List Token} {kind : Kind}

-- ==== The judgement

/-- If nothing was noted up to its end, the tokens that `x` takes lead from depth `d` to depth `e`. -/
def Nests (setting : Setting) (d e : Nat) (x : Reader α) (s : State) : Prop :=
  Spells x setting s fun w _ _ => Climbs d e (w.map Token.kind)

/-- The second reader begins at the depth where the first one ended. -/
theorem Nests.bind {x : Reader α} {g : α → Reader β} (hx : Nests setting d e x s)
    (hg : ∀ a s₁, s.Leads s₁ → Nests setting e f (g a) s₁) : Nests setting d f (x >>= g) s := by
  refine Spells.bind hx fun a s₁ _ hl => (hg a s₁ hl).mono fun w' b rest hb w ha => ?_
  rw [List.map_append]
  exact Climbs.append ha hb

theorem nests_pure (a : α) : Nests setting d d (pure a) s := spells_pure rfl

theorem nests_stop : Nests setting d e (stop : Reader α) s := spells_none rfl

theorem nests_fail (problem : ParseProblem) : Nests setting d e (fail problem : Reader α) s :=
  spells_none rfl

/-- A node takes the next identity. -/
theorem nests_made (make : Nat → α) : Nests setting d d (do return make (← fresh)) s :=
  spells_fresh (nests_pure _)

/-- After a note nothing is said of the tokens. -/
theorem nests_note {g : Unit → Reader α} (problem : ParseProblem)
    (h : ∀ s₁, Nests setting d e (g ()) s₁) : Nests setting d e (note t problem >>= g) s :=
  spells_note fun s₁ _ _ => (h s₁).mono fun _ _ _ _ => trivial

/-- A choice, where both ways end at the same depth. -/
theorem nests_ite {p : Prop} [Decidable p] {x y : Reader α} (hx : Nests setting d e x s)
    (hy : Nests setting d e y s) : Nests setting d e (if p then x else y) s := by
  split
  · exact hx
  · exact hy

/-- Going over a token. -/
theorem nests_skip {g : Unit → Reader α} (hr : s.rest = t :: rest) (hm : t.kind.Moves d e)
    (h : Nests setting e f (g ()) { s with rest := rest }) :
    Nests setting d f (skip >>= g) s :=
  spells_skip hr (h.mono fun _ _ _ hw => ⟨e, hm, hw⟩)

theorem nests_sees {g : Bool → Reader α} (kind : Kind) (h : ∀ found, Nests setting d e (g found) s) :
    Nests setting d e (sees kind >>= g) s :=
  spells_sees kind (fun _ _ _ _ => h true) fun _ => h false

/-- A token is taken, or the depth stays as it is. -/
theorem nests_accept {g : Bool → Reader α} (hm : kind.Moves d e)
    (found : ∀ s₁, s.Leads s₁ → Nests setting e f (g true) s₁)
    (missing : Nests setting d f (g false) s) : Nests setting d f (accept kind >>= g) s := by
  refine spells_accept kind (fun t rest hr hk => ?_) fun _ => missing
  exact (found _ (.skip hr)).mono fun _ _ _ hw => ⟨e, hk ▸ hm, hw⟩

/-- A token is taken. If it is missing, there is a fault. -/
theorem nests_expect {g : Token → Reader α} {problem : ParseProblem} (hm : kind.Moves d e)
    (h : ∀ t s₁, s.Leads s₁ → Nests setting e f (g t) s₁) :
    Nests setting d f (expect kind problem >>= g) s := by
  refine spells_expect fun t rest hr hk => ?_
  exact (h t _ (.skip hr)).mono fun _ _ _ hw => ⟨e, hk ▸ hm, hw⟩

/-- The next token is looked at. At the end it is the end-of-file token. -/
theorem nests_peek {g : Token → Reader α} (heof : setting.eof.kind = .eof)
    (hend : ∀ t, t.kind = .eof → Nests setting d e (g t) s)
    (h : ∀ t rest, s.rest = t :: rest → Nests setting d e (g t) s) :
    Nests setting d e (peek >>= g) s := by
  cases hr : s.rest with
  | nil =>
      refine spells_look ?_
      rw [hr]
      exact hend _ heof
  | cons t rest => exact spells_peek hr (h t rest hr)

-- ==== Expressions

theorem nests_join (left : Expr) (operator : Token) (right : Expr) :
    Nests setting d d (join left operator right) s :=
  spells_fresh (nests_ite (nests_pure _) (nests_pure _))

/-- A parenthesis that is opened is closed again. All other tokens that can stand here are no
brackets. -/
theorem nests_primary {inner : Reader Expr} (heof : setting.eof.kind = .eof)
    (h : ∀ d s, Nests setting d d inner s) (d : Nat) (s : State) :
    Nests setting d d (primary inner) s := by
  refine nests_peek heof (fun t hk => ?_) fun t rest hr => ?_
  · rw [hk]
    exact nests_fail _
  · have leaf : ∀ make : Nat → Expr, t.kind.nesting = 0 →
        Nests setting d d (do skip; return make (← fresh)) s :=
      fun make hflat => nests_skip hr (moves_flat hflat d) (nests_made make)
    cases hk : t.kind with
    | «false» => exact leaf _ (by rw [hk]; rfl)
    | «true» => exact leaf _ (by rw [hk]; rfl)
    | nil => exact leaf _ (by rw [hk]; rfl)
    | number => exact leaf _ (by rw [hk]; rfl)
    | string => exact leaf _ (by rw [hk]; rfl)
    | identifier => exact leaf _ (by rw [hk]; rfl)
    | leftParen =>
        refine nests_skip hr (moves_open (by rw [hk]; rfl) d) ((h (d + 1) _).bind fun _ _ _ => ?_)
        exact nests_expect (moves_close rfl d) fun _ _ _ => nests_made _
    | _ => exact nests_fail _

/-- An equals sign is no bracket. -/
theorem nests_assignment (target : Expr) {value : Reader Expr} (h : ∀ d s, Nests setting d d value s)
    (d : Nat) (s : State) : Nests setting d d (assignment target value) s := by
  refine spells_look (nests_accept (moves_flat rfl d) (fun s₁ _ => ?_) (nests_pure _))
  refine (h d s₁).bind fun v s₂ _ => ?_
  cases target with
  | ident id name => exact nests_made _
  | _ => exact nests_note _ fun _ => nests_pure _

/-- No operator between two operands is a bracket. -/
theorem nesting_of_precedence {p : Nat} (h : kind.precedence? = some p) : kind.nesting = 0 := by
  cases kind with
  | leftParen | rightParen | leftBrace | rightBrace => cases h
  | _ => rfl

mutual

/-- An expression ends at the depth where it began. -/
theorem nests_expression (heof : setting.eof.kind = .eof) :
    ∀ n d s, Nests setting d d (expression n) s
  | 0, _, _ => nests_stop
  | n + 1, d, s =>
      (nests_operation heof n 1 d s).bind fun target s₁ _ =>
        nests_assignment target (nests_expression heof n) d s₁

theorem nests_operation (heof : setting.eof.kind = .eof) :
    ∀ n least d s, Nests setting d d (operation n least) s
  | 0, _, _, _ => nests_stop
  | n + 1, least, d, s =>
      (nests_unary heof n d s).bind fun left s₁ _ => nests_operators heof n least left d s₁

theorem nests_operators (heof : setting.eof.kind = .eof) :
    ∀ n least left d s, Nests setting d d (operators n least left) s
  | 0, _, _, _, _ => nests_stop
  | n + 1, least, left, d, s => by
      refine nests_peek heof (fun t hk => ?_) fun t rest hr => ?_
      · rw [hk]
        exact nests_pure left
      · cases hp : t.kind.precedence? with
        | none => exact nests_pure left
        | some precedence =>
            refine nests_ite (nests_skip hr (moves_flat (nesting_of_precedence hp) d) ?_)
              (nests_pure left)
            exact (nests_operation heof n _ d _).bind fun right s₁ _ =>
              (nests_join left t right).bind fun joined s₂ _ =>
                nests_operators heof n least joined d s₂

theorem nests_unary (heof : setting.eof.kind = .eof) : ∀ n d s, Nests setting d d (unary n) s
  | 0, _, _ => nests_stop
  | n + 1, d, s => by
      have operand : Nests setting d d
          (do let callee ← primary (expression n)
              calls n callee) s :=
        (nests_primary heof (nests_expression heof n) d s).bind fun callee s₁ _ =>
          nests_calls heof n callee d s₁
      refine nests_peek heof (fun t hk => ?_) fun t rest hr => ?_
      · rw [hk, if_neg (by decide)]
        exact operand
      · split
        next hk =>
          have hflat : t.kind.nesting = 0 := by rcases hk with hk | hk <;> rw [hk] <;> rfl
          refine nests_skip hr (moves_flat hflat d) ?_
          exact (nests_unary heof n d _).bind fun operand s₁ _ => nests_made _
        next => exact operand

theorem nests_calls (heof : setting.eof.kind = .eof) :
    ∀ n callee d s, Nests setting d d (calls n callee) s
  | 0, _, _, _ => nests_stop
  | n + 1, callee, d, s => by
      have close : ∀ args s₁, Nests setting (d + 1) d
          (do let paren ← expect .rightParen .unclosedArguments
              calls n (.call (← fresh) callee paren args)) s₁ := fun args s₁ =>
        nests_expect (moves_close rfl d) fun paren s₂ _ =>
          spells_fresh (nests_calls heof n _ d _)
      refine nests_accept (moves_open rfl d) (fun s₁ _ => ?_) (nests_pure callee)
      exact nests_sees _ fun found => nests_ite (close [] s₁)
        ((nests_arguments heof n [] (d + 1) s₁).bind fun args s₂ _ => close args s₂)

theorem nests_arguments (heof : setting.eof.kind = .eof) :
    ∀ n before d s, Nests setting d d (arguments n before) s
  | 0, _, _, _ => nests_stop
  | n + 1, before, d, s => by
      have next : ∀ s₁, Nests setting d d
          (do let arg ← expression n
              if ← accept .comma then arguments n (before ++ [arg])
              else return before ++ [arg]) s₁ := fun s₁ =>
        (nests_expression heof n d s₁).bind fun arg s₂ _ =>
          nests_accept (moves_flat rfl d) (fun s₃ _ => nests_arguments heof n _ d s₃) (nests_pure _)
      exact nests_ite (spells_look (nests_note _ next)) (next s)

end

-- ==== Statements

section Statements

variable {x : Reader Expr} {y : Reader Stmt}

theorem nests_expressionStatement (hx : ∀ d s, Nests setting d d x s) (d : Nat) (s : State) :
    Nests setting d d (expressionStatement x) s :=
  (hx d s).bind fun _ _ _ => nests_expect (moves_flat rfl d) fun _ _ _ => nests_made _

theorem nests_printStatement (hx : ∀ d s, Nests setting d d x s) (d : Nat) (s : State) :
    Nests setting d d (printStatement x) s :=
  (hx d s).bind fun _ _ _ => nests_expect (moves_flat rfl d) fun _ _ _ => nests_made _

/-- An expression that is left out if the token after it comes at once. -/
theorem nests_clause {g : Expr → Reader α} (kind : Kind) (hx : ∀ d s, Nests setting d d x s)
    (h : ∀ v s₁, s.Leads s₁ → Nests setting d e (g v) s₁) :
    Nests setting d e (do if ← sees kind then g .absent else g (← x)) s :=
  nests_sees kind fun _ => nests_ite (h .absent s (.refl s)) ((hx d s).bind h)

theorem nests_returnStatement (keyword : Token) (hx : ∀ d s, Nests setting d d x s) (d : Nat)
    (s : State) : Nests setting d d (returnStatement keyword x) s :=
  nests_clause _ hx fun _ _ _ => nests_expect (moves_flat rfl d) fun _ _ _ => nests_made _

/-- A variable declaration, with or without an initializer. -/
theorem nests_varDeclaration (hx : ∀ d s, Nests setting d d x s) (d : Nat) (s : State) :
    Nests setting d d (varDeclaration x) s := by
  have close : ∀ name initializer s₁, Nests setting d d
      (do let _ ← expect .semicolon .unendedVariable
          return Stmt.var (← fresh) name initializer) s₁ := fun name initializer s₁ =>
    nests_expect (moves_flat rfl d) fun _ _ _ => nests_made _
  exact nests_expect (moves_flat rfl d) fun name s₁ _ =>
    nests_accept (moves_flat rfl d) (fun s₂ _ => (hx d s₂).bind fun v s₃ _ => close name v s₃)
      (close name .absent s₁)

theorem nests_parameters : ∀ n before d s, Nests setting d d (parameters n before) s
  | 0, _, _, _ => nests_stop
  | n + 1, before, d, s => by
      have next : ∀ s₁, Nests setting d d
          (do let param ← expect .identifier .noParameterName
              if ← accept .comma then parameters n (before ++ [param])
              else return before ++ [param]) s₁ := fun s₁ =>
        nests_expect (moves_flat rfl d) fun param s₂ _ =>
          nests_accept (moves_flat rfl d) (fun s₃ _ => nests_parameters n _ d s₃) (nests_pure _)
      exact nests_ite (spells_look (nests_note _ next)) (next s)

/-- A function. Its block closes the brace that was opened here. -/
theorem nests_functionDeclaration {params : Reader (List Token)} {block : Reader (List Stmt)}
    (hparams : ∀ d s, Nests setting d d params s)
    (hblock : ∀ s₁, s.Leads s₁ → Nests setting (d + 1) d block s₁) :
    Nests setting d d (functionDeclaration params block) s := by
  have close : ∀ name params s₁, s.Leads s₁ → Nests setting (d + 1) d
      (do let _ ← expect .rightParen .unclosedParameters
          let _ ← expect .leftBrace .unopenedBody
          let body ← block
          return Stmt.function (← fresh) name params body) s₁ := fun name params s₁ hl₁ =>
    nests_expect (moves_close rfl d) fun _ s₂ hl₂ =>
      nests_expect (moves_open rfl d) fun _ s₃ hl₃ =>
        (hblock s₃ ((hl₁.trans hl₂).trans hl₃)).bind fun body s₄ _ => nests_made _
  refine nests_expect (moves_flat rfl d) fun name s₁ hl₁ => ?_
  refine nests_expect (moves_open rfl d) fun _ s₂ hl₂ => nests_sees _ fun found => ?_
  have hl := hl₁.trans hl₂
  exact nests_ite (close name [] s₂ hl) ((hparams (d + 1) s₂).bind fun params s₃ hl₃ =>
    close name params s₃ (hl.trans hl₃))

theorem nests_whileStatement (hx : ∀ d s, Nests setting d d x s)
    (hy : ∀ s₁, s.Leads s₁ → Nests setting d d y s₁) :
    Nests setting d d (whileStatement x y) s :=
  nests_expect (moves_open rfl d) fun _ s₁ hl₁ => (hx (d + 1) s₁).bind fun _ _ hl₂ =>
    nests_expect (moves_close rfl d) fun _ s₃ hl₃ =>
      (hy s₃ ((hl₁.trans hl₂).trans hl₃)).bind fun _ _ _ => nests_made _

theorem nests_ifStatement (hx : ∀ d s, Nests setting d d x s)
    (hy : ∀ s₁, s.Leads s₁ → Nests setting d d y s₁) :
    Nests setting d d (ifStatement x y) s := by
  refine nests_expect (moves_open rfl d) fun _ s₁ hl₁ => (hx (d + 1) s₁).bind fun condition s₂ hl₂ => ?_
  refine nests_expect (moves_close rfl d) fun _ s₃ hl₃ => ?_
  have hl := (hl₁.trans hl₂).trans hl₃
  refine (hy s₃ hl).bind fun positive s₄ hl₄ => ?_
  have close : ∀ negative s₅, Nests setting d d
      (do return Stmt.branch (← fresh) condition positive negative) s₅ :=
    fun _ _ => nests_made _
  exact nests_accept (moves_flat rfl d)
    (fun s₅ hl₅ => (hy s₅ ((hl.trans hl₄).trans hl₅)).bind fun negative s₆ _ => close negative s₆)
    (close .absent s₄)

theorem nests_forInitializer (hx : ∀ d s, Nests setting d d x s) (d : Nat) (s : State) :
    Nests setting d d (forInitializer x) s :=
  nests_accept (moves_flat rfl d) (fun _ _ => nests_pure _) <|
    nests_accept (moves_flat rfl d) (fun s₁ _ => nests_varDeclaration hx d s₁)
      (nests_expressionStatement hx d s)

theorem nests_bodyThen (body : Stmt) (increment : Expr) :
    Nests setting d d (bodyThen body increment) s := by
  refine nests_ite (spells_form ?_) (spells_fresh (nests_made _))
  cases setting.form with
  | compact => exact nests_pure _
  | full => exact nests_made _

theorem nests_conditionOrTrue (condition : Expr) :
    Nests setting d d (conditionOrTrue condition) s :=
  nests_ite (nests_made _) (nests_pure _)

theorem nests_initializerThen (initializer loop : Stmt) :
    Nests setting d d (initializerThen initializer loop) s := by
  refine nests_ite (spells_form ?_) (nests_made _)
  cases setting.form with
  | compact => exact nests_pure _
  | full => exact nests_made _

/-- A `for` statement, whatever clauses it has. -/
theorem nests_forStatement (hx : ∀ d s, Nests setting d d x s)
    (hy : ∀ s₁, s.Leads s₁ → Nests setting d d y s₁) :
    Nests setting d d (forStatement x y) s := by
  refine nests_expect (moves_open rfl d) fun _ s₁ hl₁ => ?_
  refine (nests_forInitializer hx (d + 1) s₁).bind fun initializer s₂ hl₂ => ?_
  refine nests_clause _ hx fun condition s₃ hl₃ => ?_
  refine nests_expect (moves_flat rfl (d + 1)) fun _ s₄ hl₄ => ?_
  refine nests_clause _ hx fun increment s₅ hl₅ => ?_
  refine nests_expect (moves_close rfl d) fun _ s₆ hl₆ => ?_
  have hl := ((((hl₁.trans hl₂).trans hl₃).trans hl₄).trans hl₅).trans hl₆
  refine (hy s₆ hl).bind fun body _ _ => (nests_bodyThen body increment).bind fun _ _ _ => ?_
  refine (nests_conditionOrTrue condition).bind fun _ _ _ => spells_fresh ?_
  exact nests_initializerThen initializer _

end Statements

-- ==== Readers that call each other

/-- All readers of statements at one bound, which is not reached. A block starts one level further
in than it ends, since its opening brace has been taken before. -/
structure StatementNests (setting : Setting) (n : Nat) : Prop where
  statement : ∀ d s, 10 * s.rest.length + 5 ≤ n → Nests setting d d (statement n) s
  declaration : ∀ d s, 10 * s.rest.length + 6 ≤ n → Nests setting d d (declaration n) s
  block : ∀ d s, 10 * s.rest.length + 8 ≤ n → Nests setting (d + 1) d (block n) s
  declarations : ∀ enclosed d s, 10 * s.rest.length + 7 ≤ n →
    Nests setting d d (declarations n enclosed) s

namespace StatementNests

/-- A block is begun here and closed by its reader; all else ends at the depth where it began. With
the room that is asked for, nothing inside is dropped without a note. -/
theorem statement_succ (h : StatementNests setting n) (heof : setting.eof.kind = .eof) (d : Nat)
    (s : State) (hroom : 10 * s.rest.length + 5 ≤ n + 1) :
    Nests setting d d (Reader.statement (n + 1)) s := by
  have hx : ∀ d s, Nests setting d d (expression n) s := nests_expression heof n
  refine nests_peek heof (fun t hk => ?_) fun t rest hr => ?_
  · rw [hk]
    exact nests_expressionStatement hx d s
  · have hlen : s.rest.length = rest.length + 1 := by rw [hr, List.length_cons]
    have hy : ∀ s₁, State.Leads { s with rest := rest } s₁ →
        Nests setting d d (Reader.statement n) s₁ := by
      intro s₁ hl
      have hle : s₁.rest.length ≤ rest.length := hl.length_le
      exact h.statement d s₁ (by omega)
    split
    next hk => exact nests_skip hr (moves_flat (by rw [hk]; rfl) d) (nests_forStatement hx hy)
    next hk => exact nests_skip hr (moves_flat (by rw [hk]; rfl) d) (nests_ifStatement hx hy)
    next hk => exact nests_skip hr (moves_flat (by rw [hk]; rfl) d) (nests_printStatement hx d _)
    next hk => exact nests_skip hr (moves_flat (by rw [hk]; rfl) d) (nests_returnStatement t hx d _)
    next hk => exact nests_skip hr (moves_flat (by rw [hk]; rfl) d) (nests_whileStatement hx hy)
    next hk =>
      refine nests_skip hr (moves_open (by rw [hk]; rfl) d) ?_
      exact (h.block d _ (by simp only; omega)).bind fun body _ _ => nests_made _
    next => exact nests_expressionStatement hx d s

theorem declaration_succ (h : StatementNests setting n) (heof : setting.eof.kind = .eof) (d : Nat)
    (s : State) (hroom : 10 * s.rest.length + 6 ≤ n + 1) :
    Nests setting d d (Reader.declaration (n + 1)) s := by
  have hstatement : Nests setting d d (Reader.statement n) s := h.statement d s (by omega)
  refine nests_peek heof (fun t hk => ?_) fun t rest hr => ?_
  · rw [hk]
    exact hstatement
  · have hlen : s.rest.length = rest.length + 1 := by rw [hr, List.length_cons]
    split
    next hk =>
      refine nests_skip hr (moves_flat (by rw [hk]; rfl) d) ?_
      refine nests_functionDeclaration (nests_parameters n []) fun s₁ hl => h.block d s₁ ?_
      have hle : s₁.rest.length ≤ rest.length := hl.length_le
      omega
    next hk =>
      refine nests_skip hr (moves_flat (by rw [hk]; rfl) d) ?_
      exact nests_varDeclaration (nests_expression heof n) d _
    next => exact hstatement

theorem block_succ (h : StatementNests setting n) (d : Nat) (s : State)
    (hroom : 10 * s.rest.length + 8 ≤ n + 1) :
    Nests setting (d + 1) d (Reader.block (n + 1)) s :=
  (h.declarations true (d + 1) s (by omega)).bind fun _ _ _ =>
    nests_expect (moves_close rfl d) fun _ _ _ => nests_pure _

/-- A declaration is dropped only with a note. -/
theorem recover_nests (h : StatementNests setting n) (heof : setting.eof.kind = .eof) (d : Nat)
    (s : State) (hroom : 10 * s.rest.length + 6 ≤ n) :
    Nests setting d d (recover (Reader.declaration n)) s := by
  intro first s₁ hrun
  obtain ⟨hl, hspelled⟩ := (statementSpells heof n).recover_spells heof s hroom first s₁ hrun
  refine ⟨hl, fun hclean => ?_⟩
  obtain ⟨-, -, st, rfl, -⟩ := hspelled hclean
  unfold recover at hrun
  rcases hd : Reader.declaration n setting s with ⟨_ | st', s₂⟩
  · rw [hd] at hrun
    cases hrun
  · rw [hd] at hrun
    cases hrun
    exact (h.declaration d s hroom st s₁ hd).2 hclean

/-- Declarations in a row end at the depth where they began, each of them by itself. One that was
dropped has left a note, and then nothing is said. -/
theorem declarations_succ (h : StatementNests setting n) (heof : setting.eof.kind = .eof)
    (enclosed : Bool) (d : Nat) (s : State) (hroom : 10 * s.rest.length + 7 ≤ n + 1) :
    Nests setting d d (Reader.declarations (n + 1) enclosed) s := by
  have goes : s.rest ≠ [] → Nests setting d d
      (do let first ← recover (Reader.declaration n)
          let others ← Reader.declarations n enclosed
          return first.toList ++ others) s := by
    intro hne
    have hfirst := h.recover_nests heof d s (by omega)
    unfold Nests at hfirst ⊢
    refine hfirst.bind fun first s₁ hrun _ => ?_
    have hshort := recover_shorter heof hne hrun
    have hothers := (h.declarations enclosed d s₁ (by omega)).bind fun others s₂ _ =>
      nests_pure (s := s₂) (first.toList ++ others)
    refine hothers.mono fun w' ss rest hw' w hw => ?_
    rw [List.map_append]
    exact hw.append hw'
  rw [Reader.declarations]
  refine spells_atEnd ?_
  split
  next => exact nests_pure []
  next hend =>
    have hne : s.rest ≠ [] := by simpa using hend
    cases enclosed with
    | false => exact goes hne
    | true => exact nests_sees _ fun found => nests_ite (nests_pure []) (goes hne)

theorem zero : StatementNests setting 0 where
  statement _ _ _ := nests_stop
  declaration _ _ _ := nests_stop
  block _ _ _ := nests_stop
  declarations _ _ _ _ := nests_stop

end StatementNests

/-- Every reader of statements, at every bound. -/
theorem statementNests (heof : setting.eof.kind = .eof) (n : Nat) : StatementNests setting n := by
  induction n with
  | zero => exact .zero
  | succ n ih =>
      exact ⟨ih.statement_succ heof, ih.declaration_succ heof, ih.block_succ,
        ih.declarations_succ heof⟩

end Reader

-- ==== A whole parse

/-- Without diagnostics, the brackets among the tokens before the end are closed as they are opened.
The reader has come to the end of the tokens, so the ones that it took are all of them. -/
theorem parse_climbs {tokens : List Token} {issued : Nat} {form : LoopForm}
    (h : (parse tokens issued form).diagnostics = []) :
    Kind.Climbs 0 0 ((Token.body tokens).map Token.kind) := by
  obtain ⟨s, hrun, hclean, -⟩ := parse_clean h
  have heof := Token.ending_kind tokens
  have hroom : 10 * (Token.body tokens).length + 7 ≤
      Reader.depthBound (Token.body tokens).length := by
    unfold Reader.depthBound
    omega
  have hnests : Reader.StatementNests ⟨Token.ending tokens, form⟩
      (Reader.depthBound (Token.body tokens).length) := Reader.statementNests heof _
  have hspells : Reader.StatementSpells ⟨Token.ending tokens, form⟩
      (Reader.depthBound (Token.body tokens).length) := Reader.statementSpells heof _
  obtain ⟨w, hw, hclimbs⟩ := (hnests.declarations false 0 _ hroom _ _ hrun).2 hclean
  obtain ⟨-, -, -, hend⟩ := (hspells.declarations false _ hroom _ _ hrun).2 hclean
  have hbody : Token.body tokens = w := by
    rw [← List.append_nil w, ← hend rfl]
    exact hw
  rw [hbody]
  exact hclimbs

end Lox
