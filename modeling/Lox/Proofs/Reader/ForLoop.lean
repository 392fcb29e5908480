/-
A `for` statement and the loop that it stands for.

# What is shown

A `for` statement with all its clauses is read as the tree of the block
`{ initializer while (condition) { body increment; } }`, up to the identities of the nodes
(`parse_forText`, `parse_whileText`). The pieces are any tokens that are read as an initializer, two
expressions and a statement when they stand alone (`LoopClauses`); nothing is asked of the tokens
between them but their kinds.

# Pieces anywhere

Both texts are made of the same four pieces, which stand in a different order and before different
tokens. So the argument is about the pieces: each of them, read as a script of its own, is read the
same wherever it stands. For statements this is a replay with a tail after them (`ReadsIn`), for
expressions a fork at the token after them (`ReadsExpressionIn`). In both cases other identities
have been taken before, which changes nothing but identities (`Later`).

A piece that stands alone is a script of one statement, which is a declaration to the parser. That
it is a statement, a variable declaration or an expression before a semicolon has to be read back
from the tree that came of it (`statement_of_declaration`, `varDeclaration_of_stands`,
`expressionStatement_of_statement`).

# The two texts

Then both texts are gone over token by token: `statement_of_for` for the one, and for the other a
block of two declarations (`block_of_two`) of which the second is a loop (`declaration_of_while`)
over a block of two again (`statement_of_loopBody`).
-/
import Lox.Proofs.Reader.Fork
import Lox.Proofs.Reader.Join
import Lox.Proofs.Reader.Later
import Lox.Proofs.Reader.ReadBackStatement
import Lox.Proofs.Reader.SpellingStatement

namespace Lox

/-- The tokens, none of which ends the script, are read as this statement and nothing else. -/
structure Stands (form : LoopForm) (w : List Token) (st : Stmt) : Prop where
  inside : ∀ t ∈ w, t.kind ≠ .eof
  clean : (parse w 0 form).diagnostics = []
  program : (parse w 0 form).program = [st]

/-- The pieces of a `for` statement with all its clauses: a variable declaration or an expression
statement, two expressions, of which each makes a statement before a semicolon, and a statement. -/
structure LoopClauses (form : LoopForm) (initializer condition increment body : List Token)
    (i : Stmt) (c u : Expr) (b : Stmt) : Prop where
  initializer : Stands form initializer i
  clause : (∃ id name e, i = .var id name e) ∨ ∃ id e, i = .expression id e
  condition : ∃ id semicolon, Stands form (condition ++ [semicolon]) (.expression id c)
  increment : ∃ id semicolon, Stands form (increment ++ [semicolon]) (.expression id u)
  body : Stands form body b
  plain : b.declared? = none

/-- The text `for (initializer condition; increment) body`, where `mark` gives the tokens between
the pieces, by their places and kinds. -/
def forText (mark : Nat → Kind → Token) (initializer condition increment body : List Token) :
    List Token :=
  mark 0 .for :: mark 1 .leftParen :: (initializer ++ (condition ++ mark 2 .semicolon ::
    (increment ++ mark 3 .rightParen :: body)))

/-- The text `{ initializer while (condition) { body increment; } }`. -/
def whileText (mark : Nat → Kind → Token) (initializer condition increment body : List Token) :
    List Token :=
  mark 0 .leftBrace :: (initializer ++ mark 1 .while :: mark 2 .leftParen :: (condition ++
    mark 3 .rightParen :: mark 4 .leftBrace :: (body ++ (increment ++ mark 5 .semicolon ::
      [mark 6 .rightBrace, mark 7 .rightBrace]))))

/-- The tree of the loop. -/
def loopTree (i : Stmt) (c u : Expr) (b : Stmt) : Stmt :=
  .block 0 [i, .loop 0 c (.block 0 [b, .expression 0 u])]

/-- Where no token ends the script, all of them stand before its end. -/
theorem Token.body_eq_self {w : List Token} (h : ∀ t ∈ w, t.kind ≠ .eof) : Token.body w = w := by
  have happend : Token.body (w ++ []) = w ++ Token.body [] :=
    List.takeWhile_append_of_pos fun t ht => decide_eq_true (h t ht)
  rw [List.append_nil] at happend
  rw [happend]
  exact List.append_nil w

namespace Reader

variable {form : LoopForm} {setting : Setting} {s s₁ : State} {n : Nat} {t : Token}
variable {w rest : List Token} {st : Stmt} {e : Expr}

-- ==== A script of one statement

/-- A declaration that is dropped is noted. -/
theorem declaration_of_recover {first : Option Stmt} (heof : setting.eof.kind = .eof)
    (hroom : 10 * s.rest.length + 6 ≤ n)
    (hrun : recover (declaration n) setting s = (some first, s₁)) (hclean : s₁.faults = []) :
    ∃ st, first = some st ∧ declaration n setting s = (some st, s₁) := by
  unfold recover at hrun
  rcases hd : declaration n setting s with ⟨_ | st, s₂⟩
  · rw [hd] at hrun
    obtain ⟨-, rfl⟩ := Prod.mk.inj hrun
    have hnoted := (((statementReaders n).declaration setting s heof).stopped hd).noted hroom
    simp only at hclean
    rw [hclean, List.length_nil] at hnoted
    exact absurd hnoted (Nat.not_lt_zero _)
  · rw [hd] at hrun
    obtain ⟨hfirst, rfl⟩ := Prod.mk.inj hrun
    exact ⟨st, (Option.some.inj hfirst).symm, rfl⟩

/-- Nothing is left where declarations were read without a fault, and none of them was missing. -/
theorem declarations_cons_inv {program : List Stmt} (heof : setting.eof.kind = .eof)
    (hroom : 10 * s.rest.length + 6 ≤ n) (hne : s.rest ≠ [])
    (hrun : declarations (n + 1) false setting s = (some program, s₁)) (hclean : s₁.faults = []) :
    ∃ st others s₂, program = st :: others ∧ declaration n setting s = (some st, s₂) ∧
      s₂.faults = [] ∧ declarations n false setting s₂ = (some others, s₁) := by
  rw [declarations_next hne] at hrun
  obtain ⟨first, s₂, hfirst, hrun⟩ := run_of_bind hrun
  obtain ⟨others, s₃, hothers, hrun⟩ := run_of_bind hrun
  obtain ⟨hprogram, rfl⟩ := Prod.mk.inj hrun
  obtain rfl := Option.some.inj hprogram
  have hl := (((statementReaders n).declarations false setting s₂ heof).result hothers).1.leads
  have hclean₂ := hl.faults_nil hclean
  obtain ⟨st, rfl, hd⟩ := declaration_of_recover heof hroom hfirst hclean₂
  exact ⟨st, others, s₂, rfl, hd, hclean₂, hothers⟩

/-- The declaration that the script consists of. -/
theorem declaration_of_stands (h : Stands form w st) :
    ∃ s₁, declaration (10 * w.length + 19) ⟨Token.ending w, form⟩ ⟨w, 0, []⟩ = (some st, s₁) ∧
      s₁.rest = [] ∧ s₁.faults = [] := by
  obtain ⟨s, hrun, hclean, -⟩ := parse_clean h.clean
  rw [Token.body_eq_self h.inside, h.program] at hrun
  have heof := Token.ending_kind w
  have hne : w ≠ [] := by
    rintro rfl
    cases hrun
  obtain ⟨st', others, s₂, hprogram, hd, hclean₂, hothers⟩ :=
    declarations_cons_inv heof (by dsimp only; omega) hne hrun hclean
  obtain ⟨rfl, rfl⟩ := List.cons.inj hprogram
  refine ⟨s₂, hd, ?_, hclean₂⟩
  by_contra hleft
  have hshort : s₂.rest.length < w.length :=
    (((statementReaders _).declaration _ _ heof).result hd).2.1
  obtain ⟨st', others, s₃, hnil, -⟩ :=
    declarations_cons_inv heof (by omega) hleft hothers hclean
  cases hnil

-- ==== The same statement anywhere

/-- Wherever the tokens `w` stand, but not before an `else`, the reader yields `st` for them, with
other identities. -/
def ReadsIn (x : Nat → Reader Stmt) (form : LoopForm) (w : List Token) (st : Stmt) : Prop :=
  ∀ (n : Nat) (setting : Setting) (issued : Nat) (rest : List Token), setting.form = form →
    (∀ t ts, rest = t :: ts → t.kind ≠ .else) → 10 * w.length + 19 ≤ n →
    ∃ st' issued', x n setting ⟨w ++ rest, issued, []⟩ = (some st', ⟨rest, issued', []⟩) ∧
      st'.bare = st.bare

/-- A statement that is read where nothing follows is read anywhere. Its reading is copied, with
other identities and with a rest behind it, of which it is only asked that it does not start with an
`else`. -/
theorem readsIn_of_run {x : Nat → Reader Stmt} {eof : Token} (heof : eof.kind = .eof)
    (hcopy : ∀ (r : Replay) {n n' : Nat}, n ≤ n' → ∀ issued, 10 * w.length + 6 ≤ n →
      r.CopiesTaking r.stmt (x n) (x n') ⟨w, issued, []⟩)
    (hlater : ∀ d n, Later d (laterStmt d) (x n) (x n)) (hroom : 10 * w.length + 6 ≤ n)
    (hbound : n ≤ 10 * w.length + 19)
    (hrun : x n ⟨eof, form⟩ ⟨w, 0, []⟩ = (some st, s₁)) (hrest : s₁.rest = [])
    (hclean : s₁.faults = []) : ReadsIn x form w st := by
  intro n' setting issued rest hform helse hn'
  have hlate := hlater issued n [] ⟨eof, form⟩ ⟨w, 0, []⟩
  rw [hrun, State.later, Nat.zero_add] at hlate
  let r : Replay :=
    { δ := 0
      tail := rest
      before := ⟨eof, form⟩
      after := setting
      eof := heof
      sameForm := hform
      closed := False
      ending := False.elim
      next := helse }
  obtain ⟨-, -, hcopied⟩ := hcopy r (Nat.le_trans hbound hn') issued hroom _ _ hlate
  have hbeside := hcopied hclean trivial
  have hstart : r.state ⟨w, issued, []⟩ = ⟨w ++ rest, issued, []⟩ := by
    simp only [Replay.state, r, Token.map_moved_zero]
  have hend : r.state (s₁.later issued []) = ⟨rest, s₁.issued + issued, []⟩ := by
    simp [Replay.state, State.later, hrest, r]
  have hmoved : r.stmt (laterStmt issued st) = laterStmt issued st :=
    Stmt.moved_unmoved (laterStmt issued st)
  exact ⟨_, _, by rw [← hstart, ← hend]; exact hmoved ▸ hbeside, Stmt.bare_renamed st⟩

-- ==== Which statement was read

/-- A variable declaration declares a name. -/
theorem varDeclaration_declares (x : Reader Expr) :
    Meets (varDeclaration x) setting s (fun st _ => st.declared? ≠ none) fun _ => True := by
  refine meets_last fun name _ => meets_last fun found _ => ?_
  cases found <;>
    exact meets_last fun _ _ => meets_last fun _ _ => meets_last fun _ _ => Option.some_ne_none _

/-- A function declaration yields a function. -/
theorem functionDeclaration_shape (params : Reader (List Token)) (block : Reader (List Stmt)) :
    Meets (functionDeclaration params block) setting s
      (fun st _ => ∃ id name params body, st = .function id name params body) fun _ => True := by
  refine meets_last fun name _ => meets_last fun _ _ => meets_last fun found _ => ?_
  cases found <;>
    exact meets_last fun _ _ => meets_last fun _ _ => meets_last fun _ _ => meets_last fun _ _ =>
      meets_last fun _ _ => ⟨_, _, _, _, rfl⟩

/-- A declaration that declares nothing is a statement. -/
theorem statement_of_declaration (hplain : st.declared? = none)
    (hrun : declaration (n + 1) setting s = (some st, s₁)) :
    statement n setting s = (some st, s₁) := by
  have h : Meets (declaration (n + 1)) setting s
      (fun st s₁ => st.declared? = none → statement n setting s = (some st, s₁))
      fun _ => True := by
    rw [declaration, meets_bind, meets_peek]
    split
    · refine meets_last fun _ s' => (functionDeclaration_shape _ _).mono ?_ fun _ h => h
      rintro _ _ ⟨id, name, params, body, rfl⟩ hplain
      cases hplain
    · exact meets_last fun _ s' => (varDeclaration_declares _).mono
        (fun _ _ h hplain => absurd hplain h) fun _ h => h
    · exact (meets_run (statement n)).mono (fun _ _ h _ => h) fun _ h => h
  exact h.result hrun hplain

/-- No statement that starts with a keyword is an expression statement. -/
def NoExpression (st : Stmt) (_ : State) : Prop := ∀ id e, st ≠ .expression id e

/-- With or without an initializer, a loop is no expression statement. -/
theorem initializerThen_shape (initializer : Stmt) (id : Nat) (condition : Expr) (body : Stmt) :
    Meets (initializerThen initializer (.loop id condition body)) setting s NoExpression
      fun _ => True := by
  unfold initializerThen
  split
  · refine meets_last fun form _ => ?_
    cases form with
    | compact => exact nofun
    | full => exact meets_last fun _ _ => nofun
  · exact meets_last fun _ _ => nofun

/-- A `for` statement yields a loop or a block. -/
theorem forStatement_shape (x : Reader Expr) (y : Reader Stmt) :
    Meets (forStatement x y) setting s NoExpression fun _ => True := by
  refine meets_last fun _ _ => meets_last fun initializer _ => meets_last fun found _ => ?_
  cases found <;>
    refine meets_last fun condition _ => meets_last fun _ _ => meets_last fun found _ => ?_
  all_goals
    cases found <;>
      exact meets_last fun increment _ => meets_last fun _ _ => meets_last fun body _ =>
        meets_last fun body _ => meets_last fun condition _ => meets_last fun id _ =>
          initializerThen_shape initializer id condition body

/-- What is read as an expression statement starts with no keyword: all readers that a keyword leads
to come to some other kind of statement. -/
theorem expressionStatement_of_statement {id : Nat}
    (hrun : statement (n + 1) setting s = (some (.expression id e), s₁)) :
    expressionStatement (expression n) setting s = (some (.expression id e), s₁) := by
  have other : ∀ {x : Reader Stmt}, Meets x setting s NoExpression (fun _ => True) →
      Meets x setting s (fun st s₁ => ∀ id e, st = .expression id e →
        expressionStatement (expression n) setting s = (some (.expression id e), s₁))
        fun _ => True :=
    fun h => h.mono (fun st _ h id e hst => absurd hst (h id e)) fun _ h => h
  have h : Meets (statement (n + 1)) setting s
      (fun st s₁ => ∀ id e, st = .expression id e →
        expressionStatement (expression n) setting s = (some (.expression id e), s₁))
      fun _ => True := by
    rw [statement, meets_bind, meets_peek]
    split
    · exact other (meets_last fun _ _ => forStatement_shape _ _)
    · refine other (meets_last fun _ _ => meets_last fun _ _ => meets_last fun _ _ =>
        meets_last fun _ _ => meets_last fun _ _ => meets_last fun found _ => ?_)
      cases found <;> exact meets_last fun _ _ => meets_last fun _ _ => fun _ _ h => by cases h
    · exact other (meets_last fun _ _ => meets_last fun _ _ => meets_last fun _ _ =>
        meets_last fun _ _ => fun _ _ h => by cases h)
    · refine other (meets_last fun _ _ => meets_last fun found _ => ?_)
      cases found <;>
        exact meets_last fun _ _ => meets_last fun _ _ => meets_last fun _ _ => fun _ _ h => by cases h
    · exact other (meets_last fun _ _ => meets_last fun _ _ => meets_last fun _ _ =>
        meets_last fun _ _ => meets_last fun _ _ => meets_last fun _ _ => fun _ _ h => by cases h)
    · exact other (meets_last fun _ _ => meets_last fun _ _ => meets_last fun _ _ => fun _ _ h => by cases h)
    · refine (meets_run (expressionStatement (expression n))).mono (fun st s₁ h id e hst => ?_)
        fun _ h => h
      rw [h, hst]
  exact h.result hrun id e rfl

/-- The expression that an expression statement is made of, and the semicolon after it. -/
theorem expression_of_expressionStatement {id : Nat} {x : Reader Expr}
    (hrun : expressionStatement x setting s = (some (.expression id e), s₁)) :
    ∃ t s₂, x setting s = (some e, s₂) ∧ s₂.rest = t :: s₁.rest ∧ t.kind = .semicolon ∧
      s₂.faults = s₁.faults := by
  obtain ⟨value, s₂, hvalue, hrun⟩ := run_of_bind hrun
  obtain ⟨t, s₃, hsemicolon, hrun⟩ := run_of_bind hrun
  obtain ⟨hmade, rfl⟩ := Prod.mk.inj hrun
  obtain ⟨-, rfl⟩ := Stmt.expression.inj (Option.some.inj hmade)
  have h : Meets (expect .semicolon .unendedExpression) setting s₂
      (fun t s₃ => s₂.rest = t :: s₃.rest ∧ t.kind = .semicolon ∧ s₂.faults = s₃.faults)
      fun _ => True :=
    meets_expect _ _ (fun t rest hr hk => ⟨hr, hk, rfl⟩) fun _ => trivial
  obtain ⟨hr, hk, hfaults⟩ := h.result hsemicolon
  exact ⟨t, s₂, hvalue, hr, hk, hfaults⟩

-- ==== The same expression anywhere

/-- Wherever the tokens `w` stand before a token that may come after an expression, they are read as
`e`, with other identities. -/
def ReadsExpressionIn (w : List Token) (e : Expr) : Prop :=
  ∀ (n : Nat) (setting : Setting) (issued : Nat) (t : Token) (rest : List Token),
    followsExpression t.kind → 10 * w.length + 30 ≤ n →
    ∃ e' issued', expression n setting ⟨w ++ t :: rest, issued, []⟩ =
      (some e', ⟨t :: rest, issued', []⟩) ∧ e'.bare = e.bare

/-- The tokens `w` are a clause of a loop: an expression that is there. -/
structure ReadsClause (w : List Token) (e : Expr) : Prop where
  reads : ReadsExpressionIn w e
  starts : ∃ t ts, w = t :: ts ∧ t.kind.startsExpression = true
  present : e.isAbsent = false

/-- A token that starts an expression is no other mark. -/
theorem ne_of_startsExpression {t : Token} {k : Kind} (h : t.kind.startsExpression = true)
    (hk : k.startsExpression = false) : t.kind ≠ k := by
  rintro rfl
  rw [hk] at h
  cases h

/-- Tokens that spell an expression start as one. -/
theorem starts_of_spelled {least : Nat} (h : e.Spelled least w) :
    ∃ t ts, w = t :: ts ∧ t.kind.startsExpression = true := by
  obtain ⟨u, us, hu, hstarts⟩ := h.fits.starts
  have hgives := h.gives
  rw [hu] at hgives
  cases hgives with
  | @cons t _ ts _ hgive _ =>
      refine ⟨t, ts, rfl, ?_⟩
      by_cases hk : t.kind = .number ∨ t.kind = .string
      · rcases hk with hk | hk <;> rw [hk] <;> rfl
      · have hgist : u.gist = t.gist := by rwa [Token.Gives, Token.returned, if_neg hk] at hgive
        have hkind : u.kind = t.kind := congrArg Prod.fst hgist
        rw [← hkind]
        exact hstarts

/-- The tokens of an expression statement are those of its expression and a semicolon. -/
theorem expression_of_stands {id : Nat} (h : Stands form w (.expression id e)) :
    ∃ (u : List Token) (t : Token) (s₁ : State), w = u ++ [t] ∧ t.kind = .semicolon ∧
      e.Spelled 0 u ∧ s₁.rest = [t] ∧ s₁.faults = [] ∧
      expression (10 * w.length + 17) ⟨Token.ending w, form⟩ ⟨w, 0, []⟩ = (some e, s₁) := by
  obtain ⟨s₁, hrun, hrest, hclean⟩ := declaration_of_stands h
  have hread := expressionStatement_of_statement (statement_of_declaration rfl hrun)
  obtain ⟨t, s₂, hexpression, hr, hk, hfaults⟩ := expression_of_expressionStatement hread
  rw [hrest] at hr
  have hclean₂ := hfaults.trans hclean
  obtain ⟨-, hspelled⟩ := (expressionSpells (Token.ending_kind w) _).expression _ _ _ hexpression
  obtain ⟨u, hu, hspelled⟩ := hspelled hclean₂
  rw [hr] at hu
  exact ⟨u, t, s₂, hu, hk, hspelled, hr, hclean₂, hexpression⟩

/-- An expression that is read before a semicolon is read before any token that may come after
one. -/
theorem readsClause_of_stands {id : Nat} {semicolon : Token}
    (h : Stands form (w ++ [semicolon]) (.expression id e)) : ReadsClause w e := by
  obtain ⟨u, t, s₁, hw, hk, hspelled, hr, hclean, hrun⟩ := expression_of_stands h
  obtain ⟨rfl, hlast⟩ := List.append_inj' hw rfl
  obtain ⟨rfl, -⟩ := List.cons.inj hlast
  refine ⟨fun n setting issued t rest ht hn => ?_, starts_of_spelled hspelled, ?_⟩
  · have hlate := later_expression (d := issued) (10 * (w ++ [semicolon]).length + 17)
      [] ⟨Token.ending (w ++ [semicolon]), form⟩ ⟨w ++ [semicolon], 0, []⟩
    rw [hrun, State.later, Nat.zero_add] at hlate
    let f : Fork :=
      { before := ⟨Token.ending (w ++ [semicolon]), form⟩
        after := setting
        eof := Token.ending_kind _
        left := semicolon
        right := t
        leftRest := []
        rightRest := rest
        leftFollows := .inl hk
        rightFollows := ht }
    have hle : 10 * (w ++ [semicolon]).length + 17 ≤ n := by
      rw [List.length_append, List.length_singleton]
      omega
    obtain ⟨-, -, hturn⟩ := (expressionTurns f hle).expression _ _ _ hlate
    exact ⟨_, _, hturn w [] rfl hr hclean (Nat.zero_le _), Expr.bare_renamed e⟩
  · cases hspelled.fits <;> rfl

-- ==== The pieces of a loop

/-- A statement that is read alone is read as a declaration anywhere. -/
theorem declaration_readsIn (h : Stands form w st) : ReadsIn declaration form w st := by
  obtain ⟨s₁, hrun, hrest, hclean⟩ := declaration_of_stands h
  refine readsIn_of_run (Token.ending_kind w) (fun r n n' hn issued hroom => ?_)
    (fun _ => later_declaration) (by omega) (by omega) hrun hrest hclean
  exact (statementCopies r hn).declaration _ hroom

/-- If it declares nothing, it is read as a statement anywhere. -/
theorem statement_readsIn (h : Stands form w st) (hplain : st.declared? = none) :
    ReadsIn statement form w st := by
  obtain ⟨s₁, hrun, hrest, hclean⟩ := declaration_of_stands h
  refine readsIn_of_run (Token.ending_kind w) (fun r n n' hn issued hroom => ?_)
    (fun _ => later_statement) (by omega) (by omega) (statement_of_declaration hplain hrun) hrest
    hclean
  exact (statementCopies r hn).statement _ (by dsimp only; omega)

/-- A statement does not start with a closing brace. -/
theorem starts_of_stands (h : Stands form w st) :
    ∃ t ts, w = t :: ts ∧ t.kind ≠ .rightBrace := by
  obtain ⟨s₁, hrun, -, -⟩ := declaration_of_stands h
  cases w with
  | nil => cases hrun
  | cons t ts =>
      refine ⟨t, ts, rfl, fun hk => ?_⟩
      rw [declaration_misplaced rfl (.inr hk)] at hrun
      cases hrun

/-- A variable declaration starts with its keyword. A function declaration comes to a function, and
a statement declares nothing, so neither of the other two ways to read it is the one that was
taken. -/
theorem varDeclaration_of_stands {id : Nat} {name : Token} (h : Stands form w (.var id name e)) :
    ∃ t ts s₁, w = t :: ts ∧ t.kind = .var ∧ s₁.rest = [] ∧ s₁.faults = [] ∧
      varDeclaration (expression (10 * w.length + 18)) ⟨Token.ending w, form⟩ ⟨ts, 0, []⟩ =
        (some (.var id name e), s₁) := by
  obtain ⟨s₁, hrun, hrest, hclean⟩ := declaration_of_stands h
  have heof := Token.ending_kind w
  have hshape : Meets (declaration (10 * w.length + 19)) ⟨Token.ending w, form⟩ ⟨w, 0, []⟩
      (fun st s₁ => st = .var id name e → s₁.faults = [] → ∃ t ts, w = t :: ts ∧ t.kind = .var ∧
        varDeclaration (expression (10 * w.length + 18)) ⟨Token.ending w, form⟩ ⟨ts, 0, []⟩ =
          (some st, s₁)) fun _ => True := by
    rw [declaration, meets_bind, meets_peek]
    split
    · refine meets_last fun _ s' => (functionDeclaration_shape _ _).mono ?_ fun _ h => h
      rintro _ _ ⟨id, name, params, body, rfl⟩ hvar
      cases hvar
    next hk =>
      obtain ⟨ts, hr⟩ := State.front_of_kind heof rfl (by rw [hk]; exact Kind.noConfusion)
      have hw : w = _ :: ts := hr
      rw [skip_front hr]
      refine (meets_run _).mono (fun st s₁ hrun _ _ => ⟨_, ts, hw, hk, hrun⟩) fun _ h => h
    · refine (meets_run _).mono (fun st s₁ hrun hvar hclean => ?_) fun _ h => h
      obtain ⟨-, hspelled⟩ := (statementSpells heof (10 * w.length + 18)).statement _
        (by dsimp only; omega) _ _ hrun
      obtain ⟨u, -, hplain⟩ := hspelled hclean
      have hnone := hplain.plain
      rw [hvar] at hnone
      cases hnone
  obtain ⟨t, ts, hw, hk, hread⟩ := hshape.result hrun rfl hclean
  exact ⟨t, ts, s₁, hw, hk, hrest, hclean, hread⟩

/-- The first clause of a `for` statement, where it is there. It is read as the declaration or the
statement that it is by itself, semicolon included. -/
theorem forInitializer_readsIn (h : Stands form w st)
    (hclause : (∃ id name e, st = .var id name e) ∨ ∃ id e, st = .expression id e) :
    ReadsIn (fun n => forInitializer (expression n)) form w st := by
  rcases hclause with ⟨id, name, e, rfl⟩ | ⟨id, e, rfl⟩
  · obtain ⟨t, ts, s₁, rfl, hk, hrest, hclean, hrun⟩ := varDeclaration_of_stands h
    have hreads : ReadsIn (fun n => do skip; varDeclaration (expression n)) form (t :: ts)
        (.var id name e) := by
      refine readsIn_of_run (Token.ending_kind (t :: ts)) (fun r n n' hn issued _ => ?_)
        (fun _ n => later_skip.bind fun _ => later_varDeclaration (later_expression n)) ?_ ?_ hrun
        hrest hclean
      · exact Replay.skip_bind rfl
          (Replay.varDeclaration_taking (expressionCopies r hn).expression).any
      · omega
      · omega
    intro n setting issued rest hform helse hn
    obtain ⟨st', issued', hvar, hbare⟩ := hreads n setting issued rest hform helse hn
    refine ⟨st', issued', ?_, hbare⟩
    rw [← hvar]
    simp [forInitializer, accept, sees, skip, Bind.bind, Pure.pure, hk]
  · obtain ⟨s₁, hrun, hrest, hclean⟩ := declaration_of_stands h
    have hread := expressionStatement_of_statement (statement_of_declaration rfl hrun)
    obtain ⟨u, semicolon, -, hw, -, hspelled, -⟩ := expression_of_stands h
    obtain ⟨t, ts, hu, hstarts⟩ := starts_of_spelled hspelled
    have hreads : ReadsIn (fun n => expressionStatement (expression n)) form w
        (.expression id e) := by
      refine readsIn_of_run (Token.ending_kind w) (fun r n n' hn issued _ => ?_)
        (fun _ n => later_expressionStatement (later_expression n)) ?_ ?_ hread hrest hclean
      · exact Replay.expressionStatement_taking (expressionCopies r hn).expression
      · omega
      · omega
    intro n setting issued rest hform helse hn
    obtain ⟨st', issued', hexpression, hbare⟩ := hreads n setting issued rest hform helse hn
    refine ⟨st', issued', ?_, hbare⟩
    have hsemicolon : t.kind ≠ .semicolon := ne_of_startsExpression hstarts rfl
    have hvar : t.kind ≠ .var := ne_of_startsExpression hstarts rfl
    rw [← hexpression]
    simp [hw, hu, forInitializer, accept, sees, Bind.bind, Pure.pure, hsemicolon, hvar]

-- ==== The two texts

section Texts

/-- The tree of the loop, whatever the identities. -/
theorem bare_loopTree {i i' b b' : Stmt} {c c' u u' : Expr} {id₁ id₂ id₃ id₄ : Nat}
    (hi : i'.bare = i.bare) (hc : c'.bare = c.bare) (hu : u'.bare = u.bare)
    (hb : b'.bare = b.bare) :
    (Stmt.block id₁ [i', .loop id₂ c' (.block id₃ [b', .expression id₄ u'])]).bare =
      (loopTree i c u b).bare := by
  show Stmt.block 0 [i'.bare, .loop 0 c'.bare (.block 0 [b'.bare, .expression 0 u'.bare])] =
    .block 0 [i.bare, .loop 0 c.bare (.block 0 [b.bare, .expression 0 u.bare])]
  rw [hi, hc, hu, hb]

variable {initializer condition increment body : List Token} {i b : Stmt} {c u : Expr}
variable {mark : Nat → Kind → Token}

/-- The first token stays the first if others come after. -/
theorem front_append {P : Token → Prop} (h : ∃ t ts, w = t :: ts ∧ P t) (rest : List Token) :
    ∃ t ts, w ++ rest = t :: ts ∧ P t := by
  obtain ⟨t, ts, rfl, ht⟩ := h
  exact ⟨t, ts ++ rest, rfl, ht⟩

/-- The first token is the only one at the front. -/
theorem forall_front {P : Token → Prop} (h : ∃ t ts, w = t :: ts ∧ P t) :
    ∀ t ts, w = t :: ts → P t := by
  obtain ⟨t, ts, rfl, ht⟩ := h
  rintro _ _ ⟨⟩
  exact ht

/-- A clause does not start with a mark. -/
theorem ReadsClause.front (h : ReadsClause w e) {k : Kind} (hk : k.startsExpression = false)
    (rest : List Token) : ∃ t ts, w ++ rest = t :: ts ∧ t.kind ≠ k := by
  obtain ⟨t, ts, rfl, hstarts⟩ := h.starts
  exact ⟨t, ts ++ rest, rfl, ne_of_startsExpression hstarts hk⟩

/-- What does not start as a declaration is a statement. -/
theorem declaration_front (hr : s.rest = t :: rest) (hfun : t.kind ≠ .fun) (hvar : t.kind ≠ .var) :
    declaration (n + 1) setting s = statement n setting s := by
  simp only [declaration, Bind.bind, peek, hr, List.headD_cons]

/-- A `for` statement of which all clauses are there. Given what each piece is read as, in its
place, the tree is put together as a block with the initializer and a loop, whose body is a block
with the increment last. -/
theorem statement_of_for {keyword left semicolon right : Token} {w₁ w₂ w₃ w₄ : List Token}
    {issued issued₁ issued₂ issued₃ issued₄ : Nat} (hkeyword : keyword.kind = .for)
    (hleft : left.kind = .leftParen) (hsemicolon : semicolon.kind = .semicolon)
    (hright : right.kind = .rightParen)
    (hi : forInitializer (expression n) setting ⟨w₁, issued, []⟩ = (some i, ⟨w₂, issued₁, []⟩))
    (hc : expression n setting ⟨w₂, issued₁, []⟩ = (some c, ⟨semicolon :: w₃, issued₂, []⟩))
    (hu : expression n setting ⟨w₃, issued₂, []⟩ = (some u, ⟨right :: w₄, issued₃, []⟩))
    (hb : statement n setting ⟨w₄, issued₃, []⟩ = (some b, ⟨rest, issued₄, []⟩))
    (hw₂ : ∃ t ts, w₂ = t :: ts ∧ t.kind ≠ .semicolon)
    (hw₃ : ∃ t ts, w₃ = t :: ts ∧ t.kind ≠ .rightParen) (hiPresent : i.isAbsent = false)
    (hcPresent : c.isAbsent = false) (huPresent : u.isAbsent = false) :
    ∃ id₁ id₂ id₃ id₄ issued', statement (n + 1) setting ⟨keyword :: left :: w₁, issued, []⟩ =
      (some (.block id₁ [i, .loop id₂ c (.block id₃ [b, .expression id₄ u])]),
        ⟨rest, issued', []⟩) := by
  obtain ⟨t₂, r₂, rfl, ht₂⟩ := hw₂
  obtain ⟨t₃, r₃, rfl, ht₃⟩ := hw₃
  have hmeets : Meets (statement (n + 1)) setting ⟨keyword :: left :: w₁, issued, []⟩
      (fun st s' => ∃ id₁ id₂ id₃ id₄ issued',
        st = .block id₁ [i, .loop id₂ c (.block id₃ [b, .expression id₄ u])] ∧
          s' = ⟨rest, issued', []⟩) fun _ => False := by
    rw [statement, peek_front rfl, hkeyword]
    show Meets (skip >>= fun _ => forStatement (expression n) (statement n)) setting _ _ _
    rw [skip_front rfl, forStatement, expect_front .leftParen rfl hleft, meets_bind]
    refine meets_of_run hi ?_
    rw [sees_front .semicolon rfl, decide_eq_false ht₂, if_neg Bool.false_ne_true, meets_bind]
    refine meets_of_run hc ?_
    rw [expect_front .semicolon rfl hsemicolon, sees_front .rightParen rfl, decide_eq_false ht₃,
      if_neg Bool.false_ne_true, meets_bind]
    refine meets_of_run hu ?_
    rw [expect_front .rightParen rfl hright, meets_bind]
    refine meets_of_run hb ?_
    -- the nodes are made last
    simp only [bodyThen, conditionOrTrue, initializerThen, hiPresent, hcPresent, huPresent,
      meets_bind, meets_fresh, meets_pure, Bool.false_eq_true, if_false]
    exact ⟨_, _, _, _, _, rfl, rfl⟩
  obtain ⟨_, _, hrun, id₁, id₂, id₃, id₄, issued', rfl, rfl⟩ := run_of_meets hmeets
  exact ⟨id₁, id₂, id₃, id₄, issued', hrun⟩

/-- The `for` statement is read as the tree of the loop, wherever it stands. Each clause is read in
its place, up to the token that ends it, and `statement_of_for` puts them together. -/
theorem forText_readsIn (hmark : ∀ j k, (mark j k).kind = k)
    (h : LoopClauses form initializer condition increment body i c u b) :
    ReadsIn declaration form (forText mark initializer condition increment body)
      (loopTree i c u b) := by
  intro n setting issued rest hform helse hn
  simp only [forText, List.length_cons, List.length_append] at hn
  obtain ⟨n, rfl⟩ : ∃ m, n = m + 2 := ⟨n - 2, by omega⟩
  obtain ⟨_, _, hcondition⟩ := h.condition
  obtain ⟨_, _, hincrement⟩ := h.increment
  have hcond := readsClause_of_stands hcondition
  have hincr := readsClause_of_stands hincrement
  -- what each piece is read as, where it stands
  obtain ⟨i', issued₁, hi, hibare⟩ := forInitializer_readsIn h.initializer h.clause n setting issued
    (condition ++ mark 2 .semicolon :: (increment ++ mark 3 .rightParen :: (body ++ rest))) hform
    (forall_front (hcond.front rfl _)) (by omega)
  obtain ⟨c', issued₂, hc, hcbare⟩ := hcond.reads n setting issued₁ (mark 2 .semicolon)
    (increment ++ mark 3 .rightParen :: (body ++ rest)) (.inl (hmark _ _)) (by omega)
  obtain ⟨u', issued₃, hu, hubare⟩ := hincr.reads n setting issued₂ (mark 3 .rightParen)
    (body ++ rest) (.inr (.inl (hmark _ _))) (by omega)
  obtain ⟨b', issued₄, hb, hbbare⟩ := statement_readsIn h.body h.plain n setting issued₃ rest hform
    helse (by omega)
  have hiPresent : i'.isAbsent = false := by
    rw [Stmt.isAbsent_of_bare hibare]
    rcases h.clause with ⟨_, _, _, rfl⟩ | ⟨_, _, rfl⟩ <;> rfl
  obtain ⟨id₁, id₂, id₃, id₄, issued', hrun⟩ := statement_of_for (hmark 0 .for) (hmark 1 .leftParen)
    (hmark 2 .semicolon) (hmark 3 .rightParen) hi hc hu hb (hcond.front rfl _) (hincr.front rfl _)
    hiPresent ((Expr.isAbsent_of_bare hcbare).trans hcond.present)
    ((Expr.isAbsent_of_bare hubare).trans hincr.present)
  refine ⟨.block id₁ [i', .loop id₂ c' (.block id₃ [b', .expression id₄ u'])], issued', ?_,
    bare_loopTree hibare hcbare hubare hbbare⟩
  rw [declaration_front rfl (by rw [hmark]; exact Kind.noConfusion)
    (by rw [hmark]; exact Kind.noConfusion)]
  simpa [forText] using hrun

-- ==== Blocks

/-- One declaration and the others after it. -/
theorem meets_declarations {enclosed : Bool} {ok : List Stmt → State → Prop} {ko : State → Prop}
    (hr : s.rest = t :: rest) (hk : t.kind ≠ .rightBrace)
    (hrun : declaration n setting s = (some st, s₁))
    (h : Meets (declarations n enclosed) setting s₁ (fun ss s₂ => ok (st :: ss) s₂) ko) :
    Meets (declarations (n + 1) enclosed) setting s ok ko := by
  rw [declarations_front hr hk, meets_bind, meets_recover]
  refine meets_of_run hrun ?_
  rw [meets_bind]
  exact h

/-- A block with two declarations in it. The depth that the readers have goes down by one for each
declaration in the row. -/
theorem block_of_two {left right : Token} {w₁ w₂ : List Token} {st₁ st₂ : Stmt}
    {issued issued₁ issued₂ : Nat} (hleft : left.kind = .leftBrace)
    (hright : right.kind = .rightBrace)
    (hw₁ : ∃ t ts, w₁ = t :: ts ∧ t.kind ≠ .rightBrace)
    (hw₂ : ∃ t ts, w₂ = t :: ts ∧ t.kind ≠ .rightBrace)
    (hrun₁ : declaration (n + 1) setting ⟨w₁, issued, []⟩ = (some st₁, ⟨w₂, issued₁, []⟩))
    (hrun₂ : declaration n setting ⟨w₂, issued₁, []⟩ =
      (some st₂, ⟨right :: rest, issued₂, []⟩)) (hn : 0 < n) :
    statement (n + 4) setting ⟨left :: w₁, issued, []⟩ =
      (some (.block (issued₂ + 1) [st₁, st₂]), ⟨rest, issued₂ + 1, []⟩) := by
  obtain ⟨t₁, r₁, rfl, ht₁⟩ := hw₁
  obtain ⟨t₂, r₂, rfl, ht₂⟩ := hw₂
  have h : Meets (statement (n + 4)) setting ⟨left :: t₁ :: r₁, issued, []⟩
      (fun st s' => st = .block (issued₂ + 1) [st₁, st₂] ∧ s' = ⟨rest, issued₂ + 1, []⟩)
      fun _ => False := by
    rw [statement, peek_front rfl, hleft]
    show Meets (skip >>= fun _ => do let body ← block (n + 3); return Stmt.block (← fresh) body)
      setting _ _ _
    rw [skip_front rfl, meets_bind, block, meets_bind]
    refine meets_declarations rfl ht₁ hrun₁ (meets_declarations rfl ht₂ hrun₂ ?_)
    refine declarations_ends ⟨right, rest, rfl, hright⟩ hn ?_
    rw [expect_front .rightBrace rfl hright]
    exact ⟨rfl, rfl⟩
  obtain ⟨_, _, hrun, rfl, rfl⟩ := run_of_meets h
  exact hrun

/-- A clause and a semicolon are a statement. It starts as an expression does, so none of the
keywords leads elsewhere. -/
theorem declaration_of_clause (h : ReadsClause w e) {semicolon : Token}
    (hsemicolon : semicolon.kind = .semicolon) (n : Nat) (setting : Setting) (issued : Nat)
    (hn : 10 * w.length + 32 ≤ n) :
    ∃ e' id issued', declaration n setting ⟨w ++ semicolon :: rest, issued, []⟩ =
      (some (.expression id e'), ⟨rest, issued', []⟩) ∧ e'.bare = e.bare := by
  obtain ⟨n, rfl⟩ : ∃ m, n = m + 2 := ⟨n - 2, by omega⟩
  obtain ⟨t, ts, hw, hstarts⟩ := h.starts
  obtain ⟨e', issued₁, hrun, he⟩ := h.reads n setting issued semicolon rest (.inl hsemicolon)
    (by omega)
  have hfront : w ++ semicolon :: rest = t :: (ts ++ semicolon :: rest) := by
    rw [hw, List.cons_append]
  have hmeets : Meets (statement (n + 1)) setting ⟨w ++ semicolon :: rest, issued, []⟩
      (fun st s' => st = .expression (issued₁ + 1) e' ∧ s' = ⟨rest, issued₁ + 1, []⟩)
      fun _ => False := by
    rw [statement, peek_front hfront]
    split
    case h_7 =>
      rw [expressionStatement, meets_bind]
      refine meets_of_run hrun ?_
      exact reads_ended rfl hsemicolon ⟨rfl, rfl⟩
    all_goals
      next hk => simp [hk, Kind.startsExpression] at hstarts
  obtain ⟨_, _, hstatement, rfl, rfl⟩ := run_of_meets hmeets
  refine ⟨e', issued₁ + 1, issued₁ + 1, ?_, he⟩
  rw [← hstatement]
  exact declaration_front hfront (ne_of_startsExpression hstarts rfl)
    (ne_of_startsExpression hstarts rfl)

/-- A loop with a condition that is there, given what its body is read as. The condition ends at the
closing parenthesis. -/
theorem declaration_of_while (h : ReadsClause w e) {keyword left right : Token} {body : List Token}
    {issued : Nat} (hkeyword : keyword.kind = .while) (hleft : left.kind = .leftParen)
    (hright : right.kind = .rightParen) (hn : 10 * w.length + 30 ≤ n)
    (hbody : ∀ issued, ∃ b' issued', statement n setting ⟨body, issued, []⟩ =
      (some b', ⟨rest, issued', []⟩) ∧ b'.bare = b.bare) :
    ∃ e' b' id issued', declaration (n + 2) setting
        ⟨keyword :: left :: (w ++ right :: body), issued, []⟩ =
      (some (.loop id e' b'), ⟨rest, issued', []⟩) ∧ e'.bare = e.bare ∧ b'.bare = b.bare := by
  obtain ⟨e', issued₁, hrun, he⟩ := h.reads n setting issued right body (.inr (.inl hright)) hn
  obtain ⟨b', issued₂, hb, hbare⟩ := hbody issued₁
  have hmeets : Meets (statement (n + 1)) setting
      ⟨keyword :: left :: (w ++ right :: body), issued, []⟩
      (fun st s' => st = .loop (issued₂ + 1) e' b' ∧ s' = ⟨rest, issued₂ + 1, []⟩)
      fun _ => False := by
    rw [statement, peek_front rfl, hkeyword]
    show Meets (skip >>= fun _ => whileStatement (expression n) (statement n)) setting _ _ _
    rw [skip_front rfl, whileStatement, expect_front .leftParen rfl hleft, meets_bind]
    refine meets_of_run hrun ?_
    rw [expect_front .rightParen rfl hright, meets_bind]
    exact meets_of_run hb ⟨rfl, rfl⟩
  obtain ⟨_, _, hstatement, rfl, rfl⟩ := run_of_meets hmeets
  refine ⟨e', b', issued₂ + 1, issued₂ + 1, ?_, he, hbare⟩
  rw [← hstatement]
  exact declaration_front rfl (by rw [hkeyword]; exact Kind.noConfusion)
    (by rw [hkeyword]; exact Kind.noConfusion)

/-- The block in the loop. -/
theorem statement_of_loopBody (hmark : ∀ j k, (mark j k).kind = k)
    (h : LoopClauses form initializer condition increment body i c u b)
    (hform : setting.form = form) (issued : Nat)
    (hn : 10 * body.length + 10 * increment.length + 40 ≤ n) :
    ∃ b' issued', statement n setting ⟨mark 4 .leftBrace :: (body ++ (increment ++
        mark 5 .semicolon :: mark 6 .rightBrace :: rest)), issued, []⟩ =
      (some b', ⟨rest, issued', []⟩) ∧ b'.bare = (Stmt.block 0 [b, .expression 0 u]).bare := by
  obtain ⟨n, rfl⟩ : ∃ m, n = m + 4 := ⟨n - 4, by omega⟩
  obtain ⟨_, _, hincrement⟩ := h.increment
  have hincr := readsClause_of_stands hincrement
  obtain ⟨b', issued₁, hbody, hb⟩ := declaration_readsIn h.body (n + 1) setting issued _ hform
    (forall_front (hincr.front rfl (mark 5 .semicolon :: mark 6 .rightBrace :: rest))) (by omega)
  obtain ⟨u', id, issued₂, hincr', hu⟩ := declaration_of_clause hincr (hmark 5 .semicolon) n setting
    issued₁ (by omega)
  refine ⟨_, _, block_of_two (hmark _ _) (hmark _ _) (front_append (starts_of_stands h.body) _)
    (hincr.front rfl _) hbody hincr' (by omega), ?_⟩
  show Stmt.block 0 [b'.bare, .expression 0 u'.bare] = .block 0 [b.bare, .expression 0 u.bare]
  rw [hb, hu]

/-- So is the block with the `while` loop. The increment, which stands last in the body, is an
expression statement there, just as it is in the tree of the `for` statement. -/
theorem whileText_readsIn (hmark : ∀ j k, (mark j k).kind = k)
    (h : LoopClauses form initializer condition increment body i c u b) :
    ReadsIn declaration form (whileText mark initializer condition increment body)
      (loopTree i c u b) := by
  intro n setting issued rest hform helse hn
  simp only [whileText, List.length_cons, List.length_append, List.length_nil] at hn
  obtain ⟨n, rfl⟩ : ∃ m, n = m + 7 := ⟨n - 7, by omega⟩
  obtain ⟨_, _, hcondition⟩ := h.condition
  have hcond := readsClause_of_stands hcondition
  have hwhile : (mark 1 .while).kind ≠ .rightBrace := by rw [hmark]; exact Kind.noConfusion
  obtain ⟨i', issued₁, hinit, hi⟩ := declaration_readsIn h.initializer (n + 3) setting issued
    (mark 1 .while :: mark 2 .leftParen :: (condition ++ mark 3 .rightParen :: mark 4 .leftBrace ::
      (body ++ (increment ++ mark 5 .semicolon :: mark 6 .rightBrace :: mark 7 .rightBrace ::
        rest)))) hform
    (by rintro _ _ ⟨⟩; rw [hmark]; exact Kind.noConfusion) (by omega)
  obtain ⟨c', b', id, issued₂, hloop, hc, hb⟩ := declaration_of_while hcond (hmark 1 .while)
    (hmark 2 .leftParen) (hmark 3 .rightParen) (by omega : 10 * condition.length + 30 ≤ n)
    fun issued => statement_of_loopBody hmark h hform issued (by omega)
  refine ⟨.block (issued₂ + 1) [i', .loop id c' b'], issued₂ + 1, ?_, ?_⟩
  · have hblock := block_of_two (hmark 0 .leftBrace) (hmark 7 .rightBrace)
      (front_append (starts_of_stands h.initializer) _) ⟨_, _, rfl, hwhile⟩ hinit hloop (by omega)
    rw [declaration_front rfl (by rw [hmark]; exact Kind.noConfusion)
      (by rw [hmark]; exact Kind.noConfusion)]
    simpa [whileText] using hblock
  · show Stmt.block 0 [i'.bare, .loop 0 c'.bare b'.bare] =
      .block 0 [i.bare, .loop 0 c.bare (Stmt.block 0 [b, .expression 0 u]).bare]
    rw [hi, hc, hb]

/-- A script of one statement. -/
theorem parse_of_readsIn {eof : Token} (heof : eof.kind = .eof) (hin : ∀ t ∈ w, t.kind ≠ .eof)
    (hstarts : ∃ t ts, w = t :: ts ∧ t.kind ≠ .rightBrace) (h : ReadsIn declaration form w st)
    (issued : Nat) :
    (parse (w ++ [eof]) issued form).diagnostics = [] ∧
      Stmt.bareAll (parse (w ++ [eof]) issued form).program = [st.bare] := by
  have hbody : Token.body (w ++ [eof]) = w := by
    rw [Token.body, List.takeWhile_append_of_pos fun t ht => decide_eq_true (hin t ht),
      List.takeWhile_cons_of_neg (by simp [heof]), List.append_nil]
  refine parse_meets (Q := fun p => p.diagnostics = [] ∧ Stmt.bareAll p.program = [st.bare]) ?_
  rw [hbody, depthBound]
  obtain ⟨st', issued', hrun, hbare⟩ := h (10 * w.length + 19) ⟨Token.ending (w ++ [eof]), form⟩
    issued [] rfl (fun t ts h => absurd h.symm (List.cons_ne_nil t ts)) (Nat.le_refl _)
  rw [List.append_nil] at hrun
  obtain ⟨t, ts, hw, hk⟩ := hstarts
  refine meets_declarations hw hk hrun (declarations_ends rfl (by omega) ⟨rfl, ?_⟩)
  show [st'.bare] = [st.bare]
  rw [hbare]

end Texts

end Reader

-- ==== The trees

section Trees

variable {form : LoopForm} {initializer condition increment body : List Token} {i b : Stmt}
variable {c u : Expr} {mark : Nat → Kind → Token} {eof : Token}

/-- No piece of a loop holds the end of the script. -/
theorem LoopClauses.inside (h : LoopClauses form initializer condition increment body i c u b) :
    (∀ t ∈ initializer, t.kind ≠ .eof) ∧ (∀ t ∈ condition, t.kind ≠ .eof) ∧
      (∀ t ∈ increment, t.kind ≠ .eof) ∧ ∀ t ∈ body, t.kind ≠ .eof := by
  obtain ⟨_, _, hcondition⟩ := h.condition
  obtain ⟨_, _, hincrement⟩ := h.increment
  exact ⟨h.initializer.inside, fun t ht => hcondition.inside t (List.mem_append_left _ ht),
    fun t ht => hincrement.inside t (List.mem_append_left _ ht), h.body.inside⟩

/-- A `for` statement with all its clauses is read without a diagnostic, as the tree of the loop up
to identities. -/
theorem parse_forText (hmark : ∀ j k, (mark j k).kind = k) (heof : eof.kind = .eof)
    (h : LoopClauses form initializer condition increment body i c u b) (issued : Nat) :
    (parse (forText mark initializer condition increment body ++ [eof]) issued form).diagnostics =
        [] ∧
      Stmt.bareAll (parse (forText mark initializer condition increment body ++ [eof]) issued
        form).program = [(loopTree i c u b).bare] := by
  refine Reader.parse_of_readsIn heof ?_ ⟨_, _, rfl, ?_⟩ (Reader.forText_readsIn hmark h) issued
  · obtain ⟨hi, hc, hu, hb⟩ := h.inside
    simp only [List.forall_mem_cons, List.forall_mem_append, hmark]
    exact ⟨Kind.noConfusion, Kind.noConfusion, hi, hc, Kind.noConfusion, hu, Kind.noConfusion, hb⟩
  · rw [hmark]
    exact Kind.noConfusion

/-- So is the block with the `while` loop in it. -/
theorem parse_whileText (hmark : ∀ j k, (mark j k).kind = k) (heof : eof.kind = .eof)
    (h : LoopClauses form initializer condition increment body i c u b) (issued : Nat) :
    (parse (whileText mark initializer condition increment body ++ [eof]) issued
        form).diagnostics = [] ∧
      Stmt.bareAll (parse (whileText mark initializer condition increment body ++ [eof]) issued
        form).program = [(loopTree i c u b).bare] := by
  refine Reader.parse_of_readsIn heof ?_ ⟨_, _, rfl, ?_⟩ (Reader.whileText_readsIn hmark h) issued
  · obtain ⟨hi, hc, hu, hb⟩ := h.inside
    simp only [List.forall_mem_cons, List.forall_mem_append, hmark]
    exact ⟨Kind.noConfusion, hi, Kind.noConfusion, Kind.noConfusion, hc, Kind.noConfusion,
      Kind.noConfusion, hb, hu, Kind.noConfusion, Kind.noConfusion, Kind.noConfusion,
      fun t ht => absurd ht List.not_mem_nil⟩
  · rw [hmark]
    exact Kind.noConfusion

end Trees

end Lox
