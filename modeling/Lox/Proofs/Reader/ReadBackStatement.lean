/-
Reading statements back.

# What is shown

The same for statements as for expressions: a statement of the grammar's shape is read back from its
tokens, and a program is read back as a whole, up to the identities that reading gives anew
(`parse_written`). Both forms of loops give the same, since no `for` is written.

# What follows a statement

A statement ends with a mark of its own, so what follows it matters only if it ends in an `if`
without an `else`; then no `else` may follow (`Stmt.ClosedBefore`). In a tree of the grammar's shape
the first branch of an `if` that has an `else` does not end so, which is why an `else` comes back
with the `if` it was written for (`reads_ifElse`).

# The induction

There is one lemma for each kind of statement, with what is known of the statements in it as
hypotheses, and one for a list of declarations, up to the brace that closes it or up to the end of
the script (`reads_declarations`, by induction over the list). They are put together by induction
over the tree (`reads_canonical`). What declares nothing is read back as a statement too, as it has
to be in a branch or a loop.
-/
import Lox.Proofs.Reader.ReadBack
import Lox.Proofs.Reader.Parse

namespace Lox

namespace Reader

variable {n : Nat} {setting : Setting} {s : State} {t : Token} {rest : List Token}
variable {e : Expr} {st : Stmt}

-- ==== What it is to be read back

/-- The tokens of `st` are read as a statement, wherever it is not before an `else` that it would
take, and without a new fault. -/
def ReadsStatement (st : Stmt) : Prop :=
  ∀ ⦃n : Nat⦄ ⦃setting : Setting⦄ ⦃s : State⦄ ⦃rest : List Token⦄,
    s.rest = st.tokens ++ rest → st.ClosedBefore rest → 10 * s.rest.length + 5 ≤ n →
      Meets (statement n) setting s
        (fun st' s' => st'.bare = st.bare ∧ Passes s.faults rest s') fun _ => False

/-- The tokens of `st` are read as a declaration, under the same conditions. A statement is one
too. -/
def ReadsDeclaration (st : Stmt) : Prop :=
  ∀ ⦃n : Nat⦄ ⦃setting : Setting⦄ ⦃s : State⦄ ⦃rest : List Token⦄,
    s.rest = st.tokens ++ rest → st.ClosedBefore rest → 10 * s.rest.length + 6 ≤ n →
      Meets (declaration n) setting s
        (fun st' s' => st'.bare = st.bare ∧ Passes s.faults rest s') fun _ => False

/-- A statement that does not start as a declaration does is read as one all the same. -/
theorem ReadsStatement.declaration (h : ReadsStatement st)
    (hstarts : ∃ t ts, st.tokens = t :: ts ∧ t.kind ≠ .fun ∧ t.kind ≠ .var) :
    ReadsDeclaration st := by
  intro n setting s rest hr hcloses hn
  obtain ⟨n, rfl⟩ : ∃ m, n = m + 1 := ⟨n - 1, by omega⟩
  obtain ⟨t, ts, hts, hfun, hvar⟩ := hstarts
  have hfront : s.rest = t :: (ts ++ rest) := by rw [hr, hts, List.cons_append]
  rw [Reader.declaration, peek_front hfront]
  split
  next hk => exact absurd hk hfun
  next hk => exact absurd hk hvar
  next => exact h hr hcloses (by omega)

-- ==== Statements without statements in them

/-- The semicolon that ends a statement, and the node made after it. -/
theorem reads_ended {make : Nat → Stmt} {problem : ParseProblem} {ok : Stmt → State → Prop}
    {ko : State → Prop} (hr : s.rest = t :: rest) (hk : t.kind = .semicolon)
    (h : ok (make (s.issued + 1)) ⟨rest, s.issued + 1, s.faults⟩) :
    Meets (do let _ ← expect .semicolon problem; return make (← fresh)) setting s ok ko := by
  rw [expect_front .semicolon hr hk, meets_bind, meets_fresh, meets_pure]
  exact h

/-- An expression that is a statement. It does not start with a keyword. -/
theorem reads_expressionStatement (id : Nat) (hfits : e.Fits 0) :
    ReadsStatement (.expression id e) := by
  intro n setting s rest hr _ hn
  obtain ⟨n, rfl⟩ : ∃ m, n = m + 1 := ⟨n - 1, by omega⟩
  obtain ⟨t, ts, hts, ht⟩ := hfits.starts
  rw [Stmt.tokens, List.append_assoc, List.singleton_append] at hr
  have hfront : s.rest = t :: (ts ++ Token.mark .semicolon ";" :: rest) := by
    rw [hr, hts, List.cons_append]
  rw [statement, peek_front hfront]
  split
  case h_7 =>
    rw [expressionStatement, meets_bind]
    refine ((readsBack hfits).expression hr (.inl rfl) (by omega)).mono (fun e' s₁ h₁ => ?_)
      fun _ h => h
    refine reads_ended h₁.2.rest rfl ⟨?_, rfl, h₁.2.faults⟩
    exact congrArg (Stmt.expression 0) h₁.1
  all_goals
    next hk => simp [hk, Kind.startsExpression] at ht

/-- A `print` statement. -/
theorem reads_print (id : Nat) (hfits : e.Fits 0) : ReadsStatement (.print id e) := by
  intro n setting s rest hr _ hn
  obtain ⟨n, rfl⟩ : ∃ m, n = m + 1 := ⟨n - 1, by omega⟩
  rw [Stmt.tokens, List.cons_append, List.append_assoc, List.singleton_append] at hr
  have hlen := congrArg List.length hr
  rw [List.length_cons] at hlen
  rw [statement, peek_front hr]
  show Meets (skip >>= fun _ => printStatement (expression n)) setting s _ _
  rw [skip_front hr, printStatement, meets_bind]
  refine ((readsBack hfits).expression rfl (.inl rfl) (by simp only; omega)).mono
    (fun e' s₁ h₁ => ?_) fun _ h => h
  refine reads_ended h₁.2.rest rfl ⟨?_, rfl, h₁.2.faults⟩
  exact congrArg (Stmt.print 0) h₁.1

/-- A `return` statement, with or without a value. An expression does not start with a semicolon, so
the two are told apart by the next token. -/
theorem reads_return {keyword : Token} (id : Nat) (hk : keyword.kind = .return)
    (hfits : e = .absent ∨ e.Fits 0) : ReadsStatement (.result id keyword e) := by
  intro n setting s rest hr _ hn
  obtain ⟨n, rfl⟩ : ∃ m, n = m + 1 := ⟨n - 1, by omega⟩
  rw [Stmt.tokens, List.cons_append, List.append_assoc, List.singleton_append] at hr
  have hlen := congrArg List.length hr
  rw [List.length_cons] at hlen
  rw [statement, peek_front hr, hk]
  show Meets (skip >>= fun _ => returnStatement keyword (expression n)) setting s _ _
  rw [skip_front hr, returnStatement]
  rcases hfits with rfl | hfits
  · rw [sees_front .semicolon rfl]
    exact reads_ended rfl rfl ⟨rfl, rfl, rfl⟩
  · obtain ⟨t, ts, hts, ht⟩ := hfits.starts
    have hother : t.kind ≠ .semicolon := by
      intro hk
      simp [hk, Kind.startsExpression] at ht
    rw [meets_bind]
    refine meets_sees _ (fun t' rest' hr' hk' => ?_) fun _ => ?_
    · rw [hts, List.cons_append] at hr'
      obtain ⟨rfl, -⟩ := List.cons.inj hr'
      exact absurd hk' hother
    · rw [if_neg Bool.false_ne_true, meets_bind]
      refine ((readsBack hfits).expression rfl (.inl rfl) (by simp only; omega)).mono
        (fun e' s₁ h₁ => ?_) fun _ h => h
      refine reads_ended h₁.2.rest rfl ⟨?_, rfl, h₁.2.faults⟩
      exact congrArg (Stmt.result 0 keyword) h₁.1

/-- A variable declaration, with or without an initializer. The equals sign tells which of the two
it is. -/
theorem reads_var {name : Token} (id : Nat) (hk : name.kind = .identifier)
    (hfits : e = .absent ∨ e.Fits 0) : ReadsDeclaration (.var id name e) := by
  intro n setting s rest hr _ hn
  obtain ⟨n, rfl⟩ : ∃ m, n = m + 1 := ⟨n - 1, by omega⟩
  rw [Stmt.tokens, List.cons_append, List.cons_append, List.append_assoc,
    List.singleton_append] at hr
  have hlen := congrArg List.length hr
  rw [List.length_cons, List.length_cons] at hlen
  rw [declaration, peek_front hr]
  show Meets (skip >>= fun _ => varDeclaration (expression n)) setting s _ _
  rw [skip_front hr, varDeclaration, expect_front .identifier rfl hk]
  rcases hfits with rfl | hfits
  · refine accept_other (fun t' rest' hr' => ?_) ?_
    · obtain ⟨rfl, -⟩ := List.cons.inj hr'
      exact Kind.noConfusion
    · exact reads_ended rfl rfl ⟨rfl, rfl, rfl⟩
  · have hpresent : e.isAbsent = false := by cases hfits <;> rfl
    simp only [hpresent, Bool.false_eq_true, if_false, List.cons_append, List.length_cons] at hlen ⊢
    rw [accept_front .equal rfl rfl, if_pos rfl, meets_bind]
    refine ((readsBack hfits).expression rfl (.inl rfl) (by simp only; omega)).mono
      (fun e' s₁ h₁ => ?_) fun _ h => h
    refine reads_ended h₁.2.rest rfl ⟨?_, rfl, h₁.2.faults⟩
    exact congrArg (Stmt.var 0 name) h₁.1

-- ==== Conditions

/-- A condition in parentheses. -/
theorem reads_condition {α : Type} {f : Expr → Reader α} {before after : ParseProblem}
    {ok : α → State → Prop} {ko : State → Prop} (hfits : e.Fits 0)
    (hr : s.rest = Token.mark .leftParen "(" ::
      (e.tokens ++ Token.mark .rightParen ")" :: rest)) (hn : 10 * s.rest.length ≤ n)
    (next : ∀ e' s', e'.bare = e.bare → Passes s.faults rest s' → Meets (f e') setting s' ok ko) :
    Meets (do let _ ← expect .leftParen before
              let condition ← expression n
              let _ ← expect .rightParen after
              f condition) setting s ok ko := by
  have hlen := congrArg List.length hr
  rw [List.length_cons] at hlen
  rw [expect_front .leftParen hr rfl, meets_bind]
  refine ((readsBack hfits).expression rfl (.inr (.inl rfl)) (by simp only; omega)).mono
    (fun e' s₁ h₁ => ?_) fun _ h => h.elim
  rw [expect_front .rightParen h₁.2.rest rfl]
  exact next e' _ h₁.1 ⟨rfl, h₁.2.faults⟩

/-- A `while` statement. What may follow it may follow its body, because it ends where its body
does. -/
theorem reads_while {body : Stmt} (id : Nat) (hfits : e.Fits 0) (hbody : ReadsStatement body) :
    ReadsStatement (.loop id e body) := by
  intro n setting s rest hr hcloses hn
  obtain ⟨n, rfl⟩ : ∃ m, n = m + 1 := ⟨n - 1, by omega⟩
  simp only [Stmt.tokens, List.cons_append, List.append_assoc] at hr
  have hlen := congrArg List.length hr
  simp only [List.length_cons, List.length_append] at hlen
  rw [statement, peek_front hr]
  show Meets (skip >>= fun _ => whileStatement (expression n) (statement n)) setting s _ _
  rw [skip_front hr]
  refine reads_condition hfits rfl ?_ fun condition s₁ hsame hpass => ?_
  · simp only [List.length_cons, List.length_append]
    omega
  rw [meets_bind]
  refine (hbody hpass.rest hcloses ?_).mono (fun body' s₂ h₂ => ?_) fun _ h => h
  · rw [hpass.rest, List.length_append]
    omega
  rw [meets_bind, meets_fresh, meets_pure]
  refine ⟨?_, (hpass.trans h₂.2).fresh⟩
  have hsame₂ := h₂.1
  simp only [Stmt.bare, Expr.bare, Stmt.renamed] at hsame hsame₂ ⊢
  rw [hsame, hsame₂]

/-- An `if` statement without an `else`, and not before one. Nothing else is asked of what follows:
its branch would take an `else` only if it were there. -/
theorem reads_if {positive : Stmt} (id : Nat) (hfits : e.Fits 0)
    (hpositive : ReadsStatement positive) :
    ReadsStatement (.branch id e positive .absent) := by
  intro n setting s rest hr hcloses hn
  obtain ⟨n, rfl⟩ : ∃ m, n = m + 1 := ⟨n - 1, by omega⟩
  simp only [Stmt.tokens, Stmt.isAbsent, if_true, List.cons_append, List.append_assoc,
    List.nil_append] at hr
  have hlen := congrArg List.length hr
  simp only [List.length_cons, List.length_append] at hlen
  have hnext : ∀ t ts, rest = t :: ts → t.kind ≠ .else := hcloses rfl
  rw [statement, peek_front hr]
  show Meets (skip >>= fun _ => ifStatement (expression n) (statement n)) setting s _ _
  rw [skip_front hr]
  refine reads_condition hfits rfl ?_ fun condition s₁ hsame hpass => ?_
  · simp only [List.length_cons, List.length_append]
    omega
  rw [meets_bind]
  refine (hpositive hpass.rest (fun _ => hnext) ?_).mono (fun positive' s₂ h₂ => ?_) fun _ h => h
  · rw [hpass.rest, List.length_append]
    omega
  refine accept_other (fun t ts hs => hnext t ts (h₂.2.rest.symm.trans hs)) ?_
  rw [if_neg Bool.false_ne_true, meets_bind, meets_pure, meets_bind, meets_fresh, meets_pure]
  refine ⟨?_, (hpass.trans h₂.2).fresh⟩
  have hsame₂ := h₂.1
  simp only [Stmt.bare, Expr.bare, Stmt.renamed] at hsame hsame₂ ⊢
  rw [hsame, hsame₂]

/-- An `if` statement with an `else`, which its first branch does not take. That the branch is
closed before the `else` is the condition that the grammar itself does not have. -/
theorem reads_ifElse {positive negative : Stmt} (id : Nat) (hfits : e.Fits 0)
    (hpositive : ReadsStatement positive) (hclosed : positive.endsOpen = false)
    (hnegative : ReadsStatement negative) (hpresent : negative.isAbsent = false) :
    ReadsStatement (.branch id e positive negative) := by
  intro n setting s rest hr hcloses hn
  obtain ⟨n, rfl⟩ : ∃ m, n = m + 1 := ⟨n - 1, by omega⟩
  simp only [Stmt.tokens, hpresent, Bool.false_eq_true, if_false, List.cons_append,
    List.append_assoc] at hr
  have hlen := congrArg List.length hr
  simp only [List.length_cons, List.length_append] at hlen
  have hends : (Stmt.branch id e positive negative).endsOpen = negative.endsOpen := by
    cases negative <;> first | rfl | cases hpresent
  rw [statement, peek_front hr]
  show Meets (skip >>= fun _ => ifStatement (expression n) (statement n)) setting s _ _
  rw [skip_front hr]
  refine reads_condition hfits rfl ?_ fun condition s₁ hsame hpass => ?_
  · simp only [List.length_cons, List.length_append]
    omega
  rw [meets_bind]
  refine (hpositive hpass.rest (.of_shut hclosed) ?_).mono (fun positive' s₂ h₂ => ?_) fun _ h => h
  · rw [hpass.rest]
    simp only [List.length_cons, List.length_append]
    omega
  rw [accept_front .else h₂.2.rest rfl, if_pos rfl, meets_bind]
  refine (hnegative rfl (fun hopen => hcloses (hends.trans hopen)) ?_).mono
    (fun negative' s₃ h₃ => ?_) fun _ h => h
  · simp only [List.length_append]
    omega
  rw [meets_bind, meets_fresh, meets_pure]
  refine ⟨?_, ((hpass.trans h₂.2).trans h₃.2).fresh⟩
  have hsame₂ := h₂.1
  have hsame₃ := h₃.1
  simp only [Stmt.bare, Expr.bare, Stmt.renamed] at hsame hsame₂ hsame₃ ⊢
  rw [hsame, hsame₂, hsame₃]

-- ==== Lists of declarations

/-- Where a list of declarations ends: at a closing brace if it is enclosed, else at the end of the
script. -/
def Ends (enclosed : Bool) (rest : List Token) : Prop :=
  match enclosed with
  | true => ∃ t ts, rest = t :: ts ∧ t.kind = .rightBrace
  | false => rest = []

/-- Where the declarations end, none is read. -/
theorem declarations_ends {enclosed : Bool} {ok : List Stmt → State → Prop} {ko : State → Prop}
    (hends : Ends enclosed s.rest) (hn : 0 < n) (h : ok [] s) :
    Meets (declarations n enclosed) setting s ok ko := by
  obtain ⟨n, rfl⟩ : ∃ m, n = m + 1 := ⟨n - 1, by omega⟩
  rw [declarations, meets_bind, meets_atEnd]
  cases enclosed with
  | false =>
      have hnil : s.rest = [] := hends
      rw [hnil]
      exact h
  | true =>
      obtain ⟨t, ts, hr, hk⟩ : ∃ t ts, s.rest = t :: ts ∧ t.kind = .rightBrace := hends
      rw [hr, List.isEmpty_cons, if_neg Bool.false_ne_true, if_pos rfl, sees_front .rightBrace hr]
      simpa [hk] using h

/-- Before the end, a first declaration is read and then the others. -/
theorem declarations_front {enclosed : Bool} {ok : List Stmt → State → Prop} {ko : State → Prop}
    (hr : s.rest = t :: rest) (hk : t.kind ≠ .rightBrace) :
    Meets (declarations (n + 1) enclosed) setting s ok ko ↔
      Meets (do let first ← recover (declaration n)
                let others ← declarations n enclosed
                return first.toList ++ others) setting s ok ko := by
  rw [declarations, meets_bind, meets_atEnd, hr, List.isEmpty_cons, if_neg Bool.false_ne_true]
  cases enclosed with
  | false => rfl
  | true =>
      rw [if_pos rfl, sees_front .rightBrace hr]
      simp [hk]

/-- Declarations in a row are read back, up to where they end, by induction over them. Each is
closed before the next, since no declaration starts with an `else`; none is dropped. -/
theorem reads_declarations {enclosed : Bool} {ss : List Stmt} (hcanonical : ∀ st ∈ ss, st.Canonical)
    (hss : ∀ st ∈ ss, ReadsDeclaration st) (hends : Ends enclosed rest)
    (hr : s.rest = Stmt.tokensAll ss ++ rest) (hn : 10 * s.rest.length + 7 ≤ n) :
    Meets (declarations n enclosed) setting s
      (fun ss' s' => Stmt.bareAll ss' = Stmt.bareAll ss ∧ Passes s.faults rest s') fun _ => False := by
  induction ss generalizing n s with
  | nil => exact declarations_ends (hr ▸ hends) (by omega) ⟨rfl, hr, rfl⟩
  | cons st ss ih =>
      obtain ⟨n, rfl⟩ : ∃ m, n = m + 1 := ⟨n - 1, by omega⟩
      obtain ⟨t, ts, hts, hbrace, -⟩ := (hcanonical st List.mem_cons_self).starts
      rw [Stmt.tokensAll, List.append_assoc] at hr
      have hfront : s.rest = t :: (ts ++ (Stmt.tokensAll ss ++ rest)) := by
        rw [hr, hts, List.cons_append]
      have hlen := congrArg List.length hfront
      rw [List.length_cons, List.length_append] at hlen
      -- no statement starts with an `else`, and neither does what ends the list
      have hcloses : st.ClosedBefore (Stmt.tokensAll ss ++ rest) := by
        intro _ t' ts' hnext
        cases ss with
        | nil =>
            cases enclosed with
            | false =>
                obtain rfl : rest = [] := hends
                cases hnext
            | true =>
                obtain ⟨t'', ts'', rfl, hk⟩ := hends
                obtain ⟨rfl, -⟩ := List.cons.inj hnext
                rw [hk]
                exact Kind.noConfusion
        | cons st' ss =>
            obtain ⟨t'', ts'', hts'', -, helse⟩ := (hcanonical st' (by simp)).starts
            rw [Stmt.tokensAll, hts''] at hnext
            obtain ⟨rfl, -⟩ := List.cons.inj hnext
            exact helse
      rw [declarations_front hfront hbrace, meets_bind, meets_recover]
      refine (hss st List.mem_cons_self hr hcloses (by omega)).mono (fun first s₁ h₁ => ?_)
        fun _ h => h.elim
      rw [meets_bind]
      refine (ih (fun st' h => hcanonical st' (List.mem_cons_of_mem _ h))
        (fun st' h => hss st' (List.mem_cons_of_mem _ h)) h₁.2.rest ?_).mono (fun others s₂ h₂ => ?_)
        fun _ h => h
      · rw [h₁.2.rest, List.length_append]
        rw [List.length_append] at hlen
        omega
      · refine ⟨?_, h₁.2.trans h₂.2⟩
        show first.bare :: Stmt.bareAll others = st.bare :: Stmt.bareAll ss
        rw [h₁.1, h₂.1]

/-- A body is read back up to the brace that closes it. -/
theorem reads_block {body : List Stmt} (hcanonical : ∀ st ∈ body, st.Canonical)
    (hbody : ∀ st ∈ body, ReadsDeclaration st)
    (hr : s.rest = Stmt.tokensAll body ++ Token.mark .rightBrace "\x7d" :: rest)
    (hn : 10 * s.rest.length + 8 ≤ n) :
    Meets (block n) setting s
      (fun body' s' => Stmt.bareAll body' = Stmt.bareAll body ∧ Passes s.faults rest s') fun _ => False := by
  obtain ⟨n, rfl⟩ : ∃ m, n = m + 1 := ⟨n - 1, by omega⟩
  have hends : Ends true (Token.mark .rightBrace "\x7d" :: rest) := ⟨_, _, rfl, rfl⟩
  rw [block, meets_bind]
  refine (reads_declarations hcanonical hbody hends hr (by omega)).mono
    (fun body' s₁ h₁ => ?_) fun _ h => h
  rw [expect_front .rightBrace h₁.2.rest rfl, meets_pure]
  exact ⟨h₁.1, rfl, h₁.2.faults⟩

/-- A block that is a statement. -/
theorem reads_blockStatement {body : List Stmt} (id : Nat) (hcanonical : ∀ st ∈ body, st.Canonical)
    (hbody : ∀ st ∈ body, ReadsDeclaration st) : ReadsStatement (.block id body) := by
  intro n setting s rest hr _ hn
  obtain ⟨n, rfl⟩ : ∃ m, n = m + 1 := ⟨n - 1, by omega⟩
  rw [Stmt.tokens, List.cons_append, List.append_assoc, List.singleton_append] at hr
  have hlen := congrArg List.length hr
  rw [List.length_cons] at hlen
  rw [statement, peek_front hr]
  show Meets (skip >>= fun _ => do let body ← block n; return Stmt.block (← fresh) body) setting s
    _ _
  rw [skip_front hr, meets_bind]
  refine (reads_block hcanonical hbody rfl (by simp only; omega)).mono (fun body' s₁ h₁ => ?_)
    fun _ h => h
  rw [meets_bind, meets_fresh, meets_pure]
  exact ⟨congrArg (Stmt.block 0) h₁.1, h₁.2.fresh⟩

-- ==== Functions

/-- Parameters are read back one after the other, with commas between them. They are tokens, so they
come back as they are. -/
theorem reads_parameters {paren : Token} {params before : List Token} (hparen : paren.kind ≠ .comma)
    (hkinds : ∀ p ∈ params, p.kind = .identifier) (hne : params ≠ [])
    (hfew : before.length + params.length ≤ maxArity)
    (hr : s.rest = Token.listed (params.map fun p => [p]) ++ paren :: rest)
    (hn : s.rest.length ≤ n) :
    Meets (parameters n before) setting s
      (fun params' s' => params' = before ++ params ∧ Passes s.faults (paren :: rest) s')
      fun _ => False := by
  induction params generalizing before n s with
  | nil => exact absurd rfl hne
  | cons p params ih =>
      have hlen := congrArg List.length hr
      rw [List.length_append, List.length_cons] at hlen
      obtain ⟨n, rfl⟩ : ∃ m, n = m + 1 := ⟨n - 1, by omega⟩
      have hshort : ¬maxArity ≤ before.length := by
        rw [List.length_cons] at hfew
        omega
      have hp := hkinds p List.mem_cons_self
      rw [parameters, if_neg hshort]
      cases params with
      | nil =>
          rw [expect_front .identifier hr hp]
          refine accept_other (fun t' rest' hr' => ?_) ⟨rfl, rfl, rfl⟩
          obtain ⟨rfl, rfl⟩ := List.cons.inj hr'
          exact hparen
      | cons p₂ params =>
          have hr' : s.rest = p :: Token.mark .comma "," ::
              (Token.listed ((p₂ :: params).map fun p => [p]) ++ paren :: rest) := hr
          have hlen' := congrArg List.length hr'
          rw [List.length_cons, List.length_cons] at hlen'
          rw [expect_front .identifier hr' hp, accept_front .comma rfl rfl, if_pos rfl]
          refine (ih (fun p' h => hkinds p' (List.mem_cons_of_mem _ h)) (List.cons_ne_nil _ _) ?_
            rfl (by simp only; omega)).mono (fun params' s₁ h₁ => ?_) fun _ h => h
          · simp only [List.length_append, List.length_cons, List.length_nil] at hfew ⊢
            omega
          · exact ⟨h₁.1.trans (List.append_assoc _ _ _), h₁.2⟩

/-- A function declaration. Its parameters are read up to the closing parenthesis, and its body as a
block is. -/
theorem reads_function {name : Token} {params : List Token} {body : List Stmt} (id : Nat)
    (hk : name.kind = .identifier) (hkinds : ∀ p ∈ params, p.kind = .identifier)
    (hfew : params.length ≤ maxArity) (hcanonical : ∀ st ∈ body, st.Canonical)
    (hbody : ∀ st ∈ body, ReadsDeclaration st) :
    ReadsDeclaration (.function id name params body) := by
  intro n setting s rest hr _ hn
  obtain ⟨n, rfl⟩ : ∃ m, n = m + 1 := ⟨n - 1, by omega⟩
  simp only [Stmt.tokens, List.cons_append, List.append_assoc, List.nil_append] at hr
  have hlen := congrArg List.length hr
  simp only [List.length_cons, List.length_append] at hlen
  rw [declaration, peek_front hr]
  show Meets (skip >>= fun _ => functionDeclaration (parameters n []) (block n)) setting s _ _
  rw [skip_front hr, functionDeclaration, expect_front .identifier rfl hk,
    expect_front .leftParen rfl rfl]
  -- what is left after the parameters
  have close : ∀ s₁, Passes s.faults (Token.mark .rightParen ")" :: Token.mark .leftBrace "\x7b" ::
        (Stmt.tokensAll body ++ Token.mark .rightBrace "\x7d" :: rest)) s₁ →
      Meets (do let _ ← expect .rightParen .unclosedParameters
                let _ ← expect .leftBrace .unopenedBody
                let body ← block n
                return Stmt.function (← fresh) name params body) setting s₁
        (fun st' s' => st'.bare = (Stmt.function id name params body).bare ∧ Passes s.faults rest s')
        fun _ => False := by
    intro s₁ hpass
    rw [expect_front .rightParen hpass.rest rfl, expect_front .leftBrace rfl rfl, meets_bind]
    refine (reads_block hcanonical hbody rfl ?_).mono (fun body' s₂ h₂ => ?_) fun _ h => h
    · simp only [List.length_cons, List.length_append]
      omega
    rw [meets_bind, meets_fresh, meets_pure]
    exact ⟨congrArg (Stmt.function 0 name params) h₂.1, (hpass.trans h₂.2).fresh⟩
  cases hparams : params with
  | nil =>
      rw [hparams] at close
      rw [sees_front .rightParen rfl]
      exact close _ ⟨rfl, rfl⟩
  | cons p ps =>
      rw [← hparams]
      have hp : p.kind ≠ .rightParen := by
        rw [hkinds p (by rw [hparams]; exact List.mem_cons_self)]
        exact Kind.noConfusion
      rw [meets_bind]
      refine meets_sees _ (fun t' rest' hr' hk' => ?_) fun _ => ?_
      · have hfront : t' = p := by
          rw [hparams] at hr'
          cases ps <;> exact (List.cons.inj hr').1.symm
        exact absurd (hfront ▸ hk') hp
      · rw [if_neg Bool.false_ne_true, meets_bind]
        refine (reads_parameters Kind.noConfusion hkinds ?_ ?_ rfl ?_).mono (fun params' s₁ h₁ => ?_)
          fun _ h => h.elim
        · rw [hparams]
          exact List.cons_ne_nil _ _
        · rwa [List.length_nil, Nat.zero_add]
        · simp only [List.length_append, List.length_cons]
          omega
        · obtain ⟨rfl, hpass⟩ := h₁
          exact close s₁ hpass

-- ==== All statements

/-- Every statement of the grammar's shape is read back; as a plain statement, if it declares
nothing. -/
theorem reads_canonical (h : st.Canonical) :
    ReadsDeclaration st ∧ (st.declared? = none → ReadsStatement st) := by
  have plain : ∀ {st : Stmt}, ReadsStatement st →
      (∃ t ts, st.tokens = t :: ts ∧ t.kind ≠ .fun ∧ t.kind ≠ .var) →
      ReadsDeclaration st ∧ (st.declared? = none → ReadsStatement st) :=
    fun h hstarts => ⟨h.declaration hstarts, fun _ => h⟩
  induction h with
  | expression id fits =>
      obtain ⟨t, ts, hts, ht⟩ := fits.starts
      refine plain (reads_expressionStatement id fits)
        ⟨t, _, by rw [Stmt.tokens, hts, List.cons_append], ?_, ?_⟩
      · intro hk
        simp [hk, Kind.startsExpression] at ht
      · intro hk
        simp [hk, Kind.startsExpression] at ht
  | print id fits =>
      exact plain (reads_print id fits) ⟨_, _, rfl, Kind.noConfusion, Kind.noConfusion⟩
  | var id kind fits => exact ⟨reads_var id kind fits, fun h => absurd h (Option.some_ne_none _)⟩
  | block id inside ih =>
      exact plain (reads_blockStatement id inside fun st h => (ih st h).1)
        ⟨_, _, rfl, Kind.noConfusion, Kind.noConfusion⟩
  | branch id fits first hplain ih =>
      exact plain (reads_if id fits (ih.2 hplain)) ⟨_, _, rfl, Kind.noConfusion, Kind.noConfusion⟩
  | branchElse id fits first hplain closed second hplainElse ihp ihn =>
      exact plain
        (reads_ifElse id fits (ihp.2 hplain) closed (ihn.2 hplainElse) (by cases second <;> rfl))
        ⟨_, _, rfl, Kind.noConfusion, Kind.noConfusion⟩
  | loop id fits inside hplain ih =>
      exact plain (reads_while id fits (ih.2 hplain)) ⟨_, _, rfl, Kind.noConfusion, Kind.noConfusion⟩
  | function id kind kinds few inside ih =>
      exact ⟨reads_function id kind kinds (maxArity_eq ▸ few) inside fun st h => (ih st h).1,
        fun h => absurd h (Option.some_ne_none _)⟩
  | result id kind fits =>
      exact plain (reads_return id kind fits) ⟨_, _, rfl, by simp [kind], by simp [kind]⟩

end Reader

-- ==== Programs

variable {program : Program} {eof : Token}

/-- No token of a program that is written ends the script. -/
theorem body_written (h : ∀ s ∈ program, s.Canonical) (heof : eof.kind = .eof) :
    Token.body (Stmt.tokensAll program ++ [eof]) = Stmt.tokensAll program := by
  have hnone : ∀ t ∈ Stmt.tokensAll program, decide (t.kind ≠ .eof) = true := by
    intro t ht
    obtain ⟨s, hs, ht⟩ := Stmt.mem_tokensAll ht
    exact decide_eq_true ((h s hs).kind_ne_eof t ht)
  rw [Token.body, List.takeWhile_append_of_pos hnone, List.takeWhile_cons_of_neg (by simp [heof]),
    List.append_nil]

/-- A program of the grammar's shape, written as tokens, is read without a diagnostic, and as the
same program up to the identities of its nodes. -/
theorem parse_written (program : Program) (h : ∀ s ∈ program, s.Canonical) (eof : Token)
    (heof : eof.kind = .eof) (issued : Nat) (form : LoopForm) :
    (parse (Stmt.tokensAll program ++ [eof]) issued form).diagnostics = [] ∧
      Stmt.bareAll (parse (Stmt.tokensAll program ++ [eof]) issued form).program =
        Stmt.bareAll program := by
  have hmeets : ∀ setting, Reader.Meets
      (Reader.declarations (Reader.depthBound (Stmt.tokensAll program).length) false) setting
      ⟨Stmt.tokensAll program, issued, []⟩
      (fun program' s' => Stmt.bareAll program' = Stmt.bareAll program ∧
        Reader.Passes [] [] s') fun _ => False := by
    intro setting
    refine Reader.reads_declarations h (fun s hs => (Reader.reads_canonical (h s hs)).1) rfl
      (List.append_nil _).symm ?_
    simp only [Reader.depthBound]
    omega
  refine parse_meets
    (Q := fun p => p.diagnostics = [] ∧ Stmt.bareAll p.program = Stmt.bareAll program) ?_
  rw [body_written h heof]
  refine (hmeets _).mono (fun program' s' h' => ?_) fun _ h => h.elim
  refine ⟨?_, h'.1⟩
  rw [h'.2.faults]
  rfl

/-- In `if (a) while (b) if (c) print nil; else x = y = c - a - a * b;` the `else` is read back with
the inner `if`, the assignments lean to the right and the differences to the left. -/
theorem parse_written_dangling_else :
    let name (text : String) : Token := ⟨.identifier, utf8 text, .nil, 1⟩
    let var (text : String) : Expr := .ident 1 (name text)
    let minus : Token := .mark .minus "-"
    let product : Expr := .binary 2 (var "a") (.mark .star "*") (var "b")
    let sum : Expr := .binary 4 (.binary 3 (var "c") minus (var "a")) minus product
    let otherwise : Stmt := .expression 7 (.assign 6 (name "x") (.assign 5 (name "y") sum))
    let inner : Stmt := .branch 8 (var "c") (.print 9 (.literal 10 .nil)) otherwise
    let program : Program := [.branch 11 (var "a") (.loop 12 (var "b") inner) .absent]
    (∀ s ∈ program, s.Canonical) ∧
      (parse (Stmt.tokensAll program ++ [.mark .eof ""]) 0 .compact).diagnostics = [] ∧
      Stmt.bareAll (parse (Stmt.tokensAll program ++ [.mark .eof ""]) 0 .compact).program =
        Stmt.bareAll program := by
  intro name var minus product sum otherwise inner program
  have hvar : ∀ least text, (var text).Fits least := fun least text => .ident least 1 rfl
  have hproduct : product.Fits 6 := .binary 2 (by decide) (Nat.le_refl _) (hvar _ _) (hvar _ _)
  have hminus : (minus.kind, 5) ∈ binaryLevels := by decide
  have hsum : sum.Fits 0 :=
    .binary 4 hminus (by decide) (.binary 3 hminus (by decide) (hvar _ _) (hvar _ _)) hproduct
  have hinner : inner.Canonical :=
    .branchElse 8 (hvar _ _) (.print 9 (.literal _ _ _)) rfl rfl
      (.expression 7 (.assign 6 rfl (.assign 5 rfl hsum))) rfl
  have hcanonical : ∀ s ∈ program, s.Canonical := by
    intro s hs
    obtain rfl := List.mem_singleton.mp hs
    exact .branch 11 (hvar _ _) (.loop 12 (hvar _ _) hinner rfl) rfl
  exact ⟨hcanonical, parse_written program hcanonical _ rfl 0 .compact⟩

end Lox
