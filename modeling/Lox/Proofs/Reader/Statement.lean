/-
Reading statements goes forward.

# Shapes

The same facts as for expressions, for the readers of statements and declarations, and one more: the
tree has the shape that the grammar gives it. A statement is never a declaration, which is what
keeps declarations out of branches and loop bodies (`SoundPlain`), while a declaration may stand in
a block or at top level (`SoundStmt`). That variables and functions have names is known if the
tokens are named.

# Pieces

Most statements are a keyword, some expressions and a token at the end; `ended_made`, `clause_made`,
`expect_leads` and `condition_made` are about these pieces, so that the lemma about a statement
follows its grammar. A `for` statement is put together from parts that were read in another order
than they have in the tree, and the identities that the reader adds come last (`bodyThen_made`,
`conditionOrTrue_made`, `initializerThen_made`).

# Declarations that are dropped

Dropping a declaration that could not be read goes over at least one token (`resume_length`), so a
list of declarations comes to its end as well. The induction on the bound is that of the
expressions, with block at level eight, declarations at seven, declaration at six and statement at
five (`StatementReaders`).
-/
import Lox.Proofs.Reader.Expression

namespace Lox.Reader

variable {n : Nat} {setting : Setting} {s s₁ : State}

/-- The reader makes a statement that is no declaration. -/
abbrev SoundPlain (c n : Nat) (x : Reader Stmt) : Prop :=
  Sound Stmt.ids (fun st => st.Formed ∧ st.declared? = none) c n x

/-- The reader makes a statement or a declaration. -/
abbrev SoundStmt (c n : Nat) (x : Reader Stmt) : Prop := Sound Stmt.ids Stmt.Formed c n x

-- ==== Pieces of statements

/-- The token that ends a statement, and the node made after it. -/
theorem ended_made (make : Token → Nat → Stmt) (good : Stmt → Prop) {ids : List Nat} {c lo : Nat}
    {kind : Kind} {problem : ParseProblem} (hm : Made lo ids s s₁) (hlo : lo ≤ s₁.issued)
    (hids : ∀ t id, (make t id).ids = id :: ids) (hgood : ∀ t id, good (make t id)) :
    Meets (do let t ← expect kind problem; return make t (← fresh)) setting s₁
      (fun st s' => Made lo st.ids s s' ∧ s'.rest.length < s₁.rest.length ∧ good st)
      (GaveUp c n s) := by
  rw [meets_bind]
  refine meets_expect _ _ (fun t rest hr _ => ?_) fun _ => .note hm.leads _
  rw [meets_bind, meets_fresh, meets_pure]
  refine ⟨⟨hm.leads.trans ((State.Leads.skip hr).trans .fresh), ?_⟩, ?_, hgood t _⟩
  · rw [hids]
    exact hm.within.cons hlo
  · simp only [hr, List.length_cons]
    omega

/-- An expression that may be left out: it is when the token after it comes at once. -/
theorem clause_made {β : Type} {ok : β → State → Prop} {ko : State → Prop} {x : Reader Expr}
    {f : Expr → Reader β} {kind : Kind} (hx : SoundExpr 4 n x) (heof : setting.eof.kind = .eof)
    (next : ∀ e s₁, Made s.issued e.ids s s₁ → Meets (f e) setting s₁ ok ko)
    (hko : ∀ s₁, GaveUp 4 n s s₁ → ko s₁) :
    Meets (sees kind >>= fun b => if b = true then pure Expr.absent >>= f else x >>= f)
      setting s ok ko := by
  rw [meets_bind]
  refine meets_sees _ (fun t rest hr _ => ?_) fun _ => ?_
  · rw [if_pos rfl, meets_bind, meets_pure]
    exact next .absent s ⟨.refl s, .nil⟩
  · rw [if_neg Bool.false_ne_true, meets_bind]
    exact (hx setting s heof).mono (fun e s₁ h₁ => next e s₁ h₁.1) hko

/-- Expecting a token on the way. -/
theorem expect_leads {β : Type} {ok : β → State → Prop} {c : Nat} {f : Token → Reader β}
    {kind : Kind} {problem : ParseProblem} (hl : s.Leads s₁)
    (next : ∀ t rest, s₁.rest = t :: rest → t.kind = kind →
      Meets (f t) setting { s₁ with rest := rest } ok (GaveUp c n s)) :
    Meets (expect kind problem >>= f) setting s₁ ok (GaveUp c n s) := by
  rw [meets_bind]
  exact meets_expect _ _ next fun _ => .note hl _

/-- A variable declaration, with or without an initializer. Its name is a token that was taken, so
it is not empty if names in the script are not. -/
theorem varDeclaration_sound {x : Reader Expr} (hx : SoundExpr 4 n x) :
    SoundStmt 5 n (varDeclaration x) := by
  intro setting s heof
  unfold varDeclaration
  refine expect_leads (.refl s) fun name rest hr hkind => ?_
  have hname (hnamed : Named s.rest) : name.lexeme ≠ [] := hnamed name (by simp [hr]) hkind
  have hskip : s.Leads { s with rest := rest } := .skip hr
  have close : ∀ e s₁, Made s.issued e.ids s s₁ → s₁.rest.length < s.rest.length →
      Meets (do let _ ← expect .semicolon .unendedVariable; return Stmt.var (← fresh) name e)
        setting s₁
        (fun st s' => Made s.issued st.ids s s' ∧ s'.rest.length < s.rest.length ∧
          (Named s.rest → st.Formed))
        (GaveUp 5 n s) := by
    intro e s₁ h₁ hlt
    refine (ended_made (fun _ id => .var id name e) (fun st => Named s.rest → st.Formed) h₁
      h₁.leads.issued (fun _ _ => rfl) fun _ _ => hname).mono (fun st s₂ h₂ => ?_) fun _ h₂ => h₂
    exact ⟨h₂.1, Nat.lt_trans h₂.2.1 hlt, h₂.2.2⟩
  rw [meets_bind]
  refine meets_accept _ (fun t rest' hr' _ => ?_) fun _ => ?_
  · rw [if_pos rfl, meets_bind]
    have hskip' := hskip.trans (.skip hr')
    have hlen : rest'.length < s.rest.length := by
      have : rest = t :: rest' := hr'
      rw [hr, this, List.length_cons, List.length_cons]
      omega
    refine (hx setting _ heof).mono (fun e s₁ h₁ => ?_) fun s₁ h₁ => ?_
    · exact close e s₁ ⟨hskip'.trans h₁.1.leads, h₁.1.within⟩ (Nat.lt_trans h₁.2 hlen)
    · exact h₁.after hskip' fun hn => by simp only; omega
  · rw [if_neg Bool.false_ne_true, meets_bind, meets_pure]
    exact close .absent _ ⟨hskip, .nil⟩ (by simp [hr])

/-- An expression that is a statement. -/
theorem expressionStatement_sound {x : Reader Expr} (hx : SoundExpr 4 n x) :
    SoundPlain 5 (n + 1) (expressionStatement x) := by
  intro setting s heof
  unfold expressionStatement
  rw [meets_bind]
  refine (hx setting s heof).mono (fun e s₁ h₁ => ?_) fun s₁ h₁ =>
    h₁.after (.refl s) fun hn => by omega
  refine (ended_made (fun _ id => .expression id e)
    (fun st => st.Formed ∧ st.declared? = none) h₁.1 h₁.1.leads.issued (fun _ _ => rfl)
    fun _ _ => ⟨trivial, rfl⟩).mono (fun st s₂ h₂ => ?_) fun _ h₂ => h₂
  exact ⟨h₂.1, Nat.lt_trans h₂.2.1 h₁.2, fun _ => h₂.2.2⟩

/-- A `print` statement. -/
theorem printStatement_sound {x : Reader Expr} (hx : SoundExpr 4 n x) :
    SoundPlain 5 n (printStatement x) := by
  intro setting s heof
  unfold printStatement
  rw [meets_bind]
  refine (hx setting s heof).mono (fun e s₁ h₁ => ?_) fun s₁ h₁ =>
    h₁.after (.refl s) fun hn => by omega
  refine (ended_made (fun _ id => .print id e)
    (fun st => st.Formed ∧ st.declared? = none) h₁.1 h₁.1.leads.issued (fun _ _ => rfl)
    fun _ _ => ⟨trivial, rfl⟩).mono (fun st s₂ h₂ => ?_) fun _ h₂ => h₂
  exact ⟨h₂.1, Nat.lt_trans h₂.2.1 h₁.2, fun _ => h₂.2.2⟩

/-- A `return` statement, with or without a value. -/
theorem returnStatement_sound {x : Reader Expr} (keyword : Token) (hx : SoundExpr 4 n x) :
    SoundPlain 5 n (returnStatement keyword x) := by
  intro setting s heof
  unfold returnStatement
  refine clause_made hx heof (fun e s₁ h₁ => ?_) fun s₁ h₁ =>
    h₁.after (.refl s) fun hn => by omega
  refine (ended_made (fun _ id => .result id keyword e)
    (fun st => st.Formed ∧ st.declared? = none) h₁ h₁.leads.issued (fun _ _ => rfl)
    fun _ _ => ⟨trivial, rfl⟩).mono (fun st s₂ h₂ => ?_) fun _ h₂ => h₂
  exact ⟨h₂.1, Nat.lt_of_lt_of_le h₂.2.1 h₁.leads.length_le, fun _ => h₂.2.2⟩

/-- A condition in parentheses. -/
theorem condition_made {β : Type} {ok : β → State → Prop} {x : Reader Expr} {f : Expr → Reader β}
    {before after : ParseProblem} (hx : SoundExpr 4 n x) (heof : setting.eof.kind = .eof)
    (next : ∀ e s₁, Made s.issued e.ids s s₁ → s₁.rest.length + 1 < s.rest.length →
      Meets (f e) setting s₁ ok (GaveUp 5 n s)) :
    Meets (do let _ ← expect .leftParen before
              let condition ← x
              let _ ← expect .rightParen after
              f condition) setting s ok (GaveUp 5 n s) := by
  refine expect_leads (.refl s) fun t rest hr _ => ?_
  have hskip : s.Leads { s with rest := rest } := .skip hr
  rw [meets_bind]
  refine (hx setting _ heof).mono (fun condition s₁ h₁ => ?_)
    fun s₁ h₁ => h₁.after hskip fun hn => by simp only [hr, List.length_cons] at hn ⊢; omega
  have hleads := hskip.trans h₁.1.leads
  refine expect_leads hleads fun t' rest' hr' _ => ?_
  refine next condition _ ⟨hleads.trans (.skip hr'), h₁.1.within⟩ ?_
  have hlen := h₁.2
  simp only [hr, hr', List.length_cons] at hlen ⊢
  omega

/-- A `while` statement. Its body declares nothing. -/
theorem whileStatement_sound {x : Reader Expr} {y : Reader Stmt} (hx : SoundExpr 4 n x)
    (hy : SoundPlain 5 n y) : SoundPlain 5 n (whileStatement x y) := by
  intro setting s heof
  refine condition_made hx heof fun condition s₁ h₁ hlen => ?_
  rw [meets_bind]
  refine (hy setting _ heof).mono (fun body s₂ h₂ => ?_)
    fun s₂ h₂ => h₂.after h₁.leads fun hn => by omega
  have hlt := h₂.2.1
  rw [meets_bind, meets_fresh, meets_pure]
  refine ⟨⟨(h₁.leads.trans h₂.1.leads).trans .fresh, ?_⟩, by simp only; omega,
    fun hnamed => ⟨h₂.2.2 (hnamed.of_leads h₁.leads), rfl⟩⟩
  exact (h₁.within.append h₂.1.within h₁.leads.issued h₂.1.leads.issued).cons
    (Nat.le_trans h₁.leads.issued h₂.1.leads.issued)

/-- An `if` statement, with or without an `else`. Neither branch declares anything, because branches
are read as statements and not as declarations. -/
theorem ifStatement_sound {x : Reader Expr} {y : Reader Stmt} (hx : SoundExpr 4 n x)
    (hy : SoundPlain 5 n y) : SoundPlain 5 n (ifStatement x y) := by
  intro setting s heof
  refine condition_made hx heof fun condition s₁ h₁ hlen => ?_
  rw [meets_bind]
  refine (hy setting _ heof).mono (fun positive s₂ h₂ => ?_)
    fun s₂ h₂ => h₂.after h₁.leads fun hn => by omega
  have hlt := h₂.2.1
  have hleads₂ := h₁.leads.trans h₂.1.leads
  have close : ∀ (negative : Stmt) (s₃ : State), Made s₂.issued negative.ids s₂ s₃ →
      (Named s.rest → negative.Formed ∧ negative.declared? = none) →
      Meets (do return Stmt.branch (← fresh) condition positive negative) setting s₃
        (fun st s' => Made s.issued st.ids s s' ∧ s'.rest.length < s.rest.length ∧
          (Named s.rest → st.Formed ∧ st.declared? = none)) (GaveUp 5 n s) := by
    intro negative s₃ h₃ hnegative
    have hlen₃ := h₃.leads.length_le
    rw [meets_bind, meets_fresh, meets_pure]
    refine ⟨⟨(hleads₂.trans h₃.leads).trans .fresh, ?_⟩, by simp only; omega, fun hnamed => ?_⟩
    · have hbranches := h₂.1.within.append h₃.within h₂.1.leads.issued h₃.leads.issued
      have hissued := Nat.le_trans h₂.1.leads.issued h₃.leads.issued
      exact (h₁.within.append hbranches h₁.leads.issued hissued).cons
        (Nat.le_trans h₁.leads.issued hissued)
    · obtain ⟨hformed, hplain⟩ := h₂.2.2 (hnamed.of_leads h₁.leads)
      exact ⟨⟨hformed, (hnegative hnamed).1, hplain, (hnegative hnamed).2⟩, rfl⟩
  rw [meets_bind]
  refine meets_accept _ (fun t rest hr _ => ?_) fun _ => ?_
  · rw [if_pos rfl, meets_bind]
    have hskip : s₂.Leads { s₂ with rest := rest } := .skip hr
    have hleads₃ := hleads₂.trans hskip
    refine (hy setting _ heof).mono (fun negative s₃ h₃ => ?_)
      fun s₃ h₃ => h₃.after hleads₃ fun hn => by
        simp only [hr, List.length_cons] at hlt ⊢
        omega
    exact close negative s₃ ⟨hskip.trans h₃.1.leads, h₃.1.within⟩ fun hnamed =>
      h₃.2.2 (hnamed.of_leads hleads₃)
  · rw [if_neg Bool.false_ne_true, meets_bind, meets_pure]
    exact close .absent s₂ ⟨.refl s₂, .nil⟩ fun _ => ⟨trivial, rfl⟩

-- ==== The parts of a `for` statement

/-- The first clause of a `for` statement, the one place in it that may declare a variable. It takes
at least its semicolon. -/
theorem forInitializer_sound {x : Reader Expr} (hx : SoundExpr 4 n x) :
    SoundStmt 5 (n + 1) (forInitializer x) := by
  intro setting s heof
  unfold forInitializer
  rw [meets_bind]
  refine meets_accept _ (fun t rest hr _ => ?_) fun _ => ?_
  · rw [if_pos rfl, meets_pure]
    exact ⟨⟨.skip hr, .nil⟩, by simp [hr], fun _ => trivial⟩
  · rw [if_neg Bool.false_ne_true, meets_bind]
    refine meets_accept _ (fun t rest hr _ => ?_) fun _ => ?_
    · rw [if_pos rfl]
      have hskip : s.Leads { s with rest := rest } := .skip hr
      refine (varDeclaration_sound hx setting _ heof).mono
        (fun st s₁ h₁ => ?_) fun s₁ h₁ => ?_
      · have hlt := h₁.2.1
        exact ⟨⟨hskip.trans h₁.1.leads, h₁.1.within⟩, by
          simp only [hr, List.length_cons] at hlt ⊢; omega,
          fun hnamed => h₁.2.2 (hnamed.of_leads hskip)⟩
      · exact h₁.after hskip fun hn => by simp only [hr, List.length_cons] at hn ⊢; omega
    · rw [if_neg Bool.false_ne_true]
      exact (expressionStatement_sound hx setting s heof).mono
        (fun st s₁ h₁ => ⟨h₁.1, h₁.2.1, fun hnamed => (h₁.2.2 hnamed).1⟩) fun _ h₁ => h₁

/-- The body of a loop together with its increment, which was read before it. In the tree it stands
behind it, so the identities are the same but in another order. -/
theorem bodyThen_made {body : Stmt} {increment : Expr} {lo mid : Nat} {ko : State → Prop}
    {named : Prop} (hi : Within lo mid increment.ids) (hb : Within mid s.issued body.ids)
    (hlo : lo ≤ mid) (hmid : mid ≤ s.issued) (hgood : named → body.Formed ∧ body.declared? = none) :
    Meets (bodyThen body increment) setting s
      (fun st s' => Made lo st.ids s s' ∧ s'.rest = s.rest ∧
        (named → st.Formed ∧ st.declared? = none))
      ko := by
  have hb' : Within lo s.issued body.ids := hb.mono hlo (Nat.le_refl _)
  unfold bodyThen
  rw [meets_ite]
  split
  · rw [meets_bind, meets_form]
    split
    · exact ⟨⟨.refl s, hb'⟩, rfl, hgood⟩
    · rw [meets_bind, meets_fresh, meets_pure]
      refine ⟨⟨.fresh, ?_⟩, rfl, fun hnamed => ⟨⟨(hgood hnamed).1, trivial⟩, rfl⟩⟩
      simp only [Stmt.ids, Stmt.idsAll, List.append_nil]
      exact hb'.cons (by omega)
  · rw [meets_bind, meets_fresh, meets_bind, meets_fresh, meets_pure]
    refine ⟨⟨State.Leads.fresh.trans .fresh, ?_⟩, rfl,
      fun hnamed => ⟨⟨(hgood hnamed).1, trivial, trivial⟩, rfl⟩⟩
    have hboth := ((hi.append hb hlo hmid).cons (by omega)).cons (by omega)
    refine hboth.perm ?_
    simp only [Stmt.ids, Stmt.idsAll, List.append_nil]
    refine (List.Perm.swap _ _ _).trans (List.Perm.cons _ ?_)
    exact (List.perm_append_comm.cons _).trans List.perm_middle.symm

/-- The condition of a loop, made up if there is none. -/
theorem conditionOrTrue_made {condition : Expr} {body : List Nat} {lo mid : Nat}
    {ko : State → Prop} (hc : Within lo mid condition.ids) (hb : Within mid s.issued body)
    (hlo : lo ≤ mid) (hmid : mid ≤ s.issued) :
    Meets (conditionOrTrue condition) setting s
      (fun e s' => Made lo (e.ids ++ body) s s' ∧ s'.rest = s.rest) ko := by
  unfold conditionOrTrue
  rw [meets_ite]
  split
  · rw [meets_bind, meets_fresh, meets_pure]
    exact ⟨⟨.fresh, (hb.mono hlo (Nat.le_refl _)).cons (by omega)⟩, rfl⟩
  · exact ⟨⟨.refl s, hc.append hb hlo hmid⟩, rfl⟩

/-- A loop together with its initializer, which was read before it and stands before it. The block
around them has the last identity. -/
theorem initializerThen_made {initializer : Stmt} (loop : Stmt) {lo mid : Nat} {ko : State → Prop}
    {named : Prop} (hi : Within lo mid initializer.ids) (hl : Within mid s.issued loop.ids)
    (hlo : lo ≤ mid) (hmid : mid ≤ s.issued) (hinit : named → initializer.Formed)
    (hloop : named → loop.Formed) (hplain : loop.declared? = none) :
    Meets (initializerThen initializer loop) setting s
      (fun st s' => Made lo st.ids s s' ∧ s'.rest = s.rest ∧
        (named → st.Formed ∧ st.declared? = none))
      ko := by
  have hl' : Within lo s.issued loop.ids := hl.mono hlo (Nat.le_refl _)
  unfold initializerThen
  rw [meets_ite]
  split
  · rw [meets_bind, meets_form]
    split
    · exact ⟨⟨.refl s, hl'⟩, rfl, fun hnamed => ⟨hloop hnamed, hplain⟩⟩
    · rw [meets_bind, meets_fresh, meets_pure]
      refine ⟨⟨.fresh, ?_⟩, rfl, fun hnamed => ⟨⟨hloop hnamed, trivial⟩, rfl⟩⟩
      simp only [Stmt.ids, Stmt.idsAll, List.append_nil]
      exact hl'.cons (by omega)
  · rw [meets_bind, meets_fresh, meets_pure]
    refine ⟨⟨.fresh, ?_⟩, rfl, fun hnamed => ⟨⟨hinit hnamed, hloop hnamed, trivial⟩, rfl⟩⟩
    simp only [Stmt.ids, Stmt.idsAll, List.append_nil]
    exact (hi.append hl hlo hmid).cons (by omega)

/-- A `for` statement, whatever clauses it has. The pieces are read one after the other, and the
nodes that are made for those that are missing, and around them, take identities after all of
them. -/
theorem forStatement_sound {x : Reader Expr} {y : Reader Stmt} (hx : SoundExpr 4 n x)
    (hy : SoundPlain 5 n y) : SoundPlain 5 n (forStatement x y) := by
  intro setting s heof
  unfold forStatement
  refine expect_leads (.refl s) fun t rest hr _ => ?_
  have hskip : s.Leads { s with rest := rest } := .skip hr
  have hlen : rest.length < s.rest.length := by simp [hr]
  rw [meets_bind]
  refine (forInitializer_sound hx setting _ heof).mono
    (fun initializer s₁ h₁ => ?_) fun s₁ h₁ => h₁.after hskip fun hn => by simp only; omega
  have hleads₁ := hskip.trans h₁.1.leads
  have hlen₁ := h₁.2.1
  refine clause_made hx heof (fun condition s₂ h₂ => ?_)
    fun s₂ h₂ => h₂.after hleads₁ fun hn => by simp only at hlen₁; omega
  refine expect_leads (hleads₁.trans h₂.leads) fun t₂ rest₂ hr₂ _ => ?_
  have hskip₂ : s₂.Leads { s₂ with rest := rest₂ } := .skip hr₂
  have hleads₂ := (hleads₁.trans h₂.leads).trans hskip₂
  have hlen₂ := (h₂.leads.trans hskip₂).length_le
  refine clause_made hx heof (fun increment s₃ h₃ => ?_)
    fun s₃ h₃ => h₃.after hleads₂ fun hn => by simp only at hlen₁ hlen₂ ⊢; omega
  refine expect_leads (hleads₂.trans h₃.leads) fun t₃ rest₃ hr₃ _ => ?_
  have hskip₃ : s₃.Leads { s₃ with rest := rest₃ } := .skip hr₃
  have hleads₃ := (hleads₂.trans h₃.leads).trans hskip₃
  have hlen₃ := (h₃.leads.trans hskip₃).length_le
  rw [meets_bind]
  refine (hy setting _ heof).mono (fun body s₄ h₄ => ?_)
    fun s₄ h₄ => h₄.after hleads₃ fun hn => by simp only at hlen₁ hlen₂ hlen₃ ⊢; omega
  have hlen₄ := h₄.2.1
  -- everything has been read; what is left makes nodes
  rw [meets_bind]
  refine (bodyThen_made h₃.within h₄.1.within h₃.leads.issued h₄.1.leads.issued
    fun hnamed : Named s.rest => h₄.2.2 (hnamed.of_leads hleads₃)).mono
    (fun body' s₅ h₅ => ?_) fun _ h => h
  obtain ⟨hbody, hrest₅, hgood⟩ := h₅
  have hissued₅ := Nat.le_trans (Nat.le_trans h₃.leads.issued h₄.1.leads.issued) hbody.leads.issued
  rw [meets_bind]
  refine (conditionOrTrue_made h₂.within hbody.within h₂.leads.issued hissued₅).mono
    (fun condition' s₆ h₆ => ?_) fun _ h => h
  obtain ⟨hcond, hrest₆⟩ := h₆
  have hissued₆ := Nat.le_trans (Nat.le_trans h₂.leads.issued hissued₅) hcond.leads.issued
  rw [meets_bind, meets_fresh]
  refine (initializerThen_made (.loop _ condition' body') h₁.1.within (hcond.within.cons hissued₆) h₁.1.leads.issued
    (Nat.le_succ_of_le hissued₆) (fun hnamed : Named s.rest => h₁.2.2 (hnamed.of_leads hskip))
    hgood rfl).mono (fun st s₇ h₇ => ?_) fun _ h => h
  obtain ⟨hst, hrest₇, hgood'⟩ := h₇
  have hleads₅ := ((hleads₃.trans h₄.1.leads).trans hbody.leads).trans hcond.leads
  refine ⟨⟨(hleads₅.trans .fresh).trans hst.leads, hst.within⟩, ?_, hgood'⟩
  simp only [hrest₇, hrest₆, hrest₅] at hlen₁ hlen₂ hlen₃ hlen₄ ⊢
  omega

-- ==== Functions

/-- Parameters are tokens and take no identities. By induction on the depth: each takes a token, and
so does the comma after it. -/
theorem parameters_sound (n : Nat) (before : List Token) :
    ∀ setting s, setting.eof.kind = .eof →
      Meets (parameters n before) setting s
        (fun _ s' => s.Leads s' ∧ s'.issued = s.issued) (GaveUp 1 n s) := by
  induction n generalizing before with
  | zero => exact fun _ _ _ => .bound (by decide)
  | succ n ih =>
      intro setting s heof
      have next : ∀ s₁, s.Leads s₁ → s₁.rest = s.rest → s₁.issued = s.issued →
          Meets (do let param ← expect .identifier .noParameterName
                    if ← accept .comma then parameters n (before ++ [param])
                    else return before ++ [param]) setting s₁
            (fun _ s' => s.Leads s' ∧ s'.issued = s.issued) (GaveUp 1 (n + 1) s) := by
        intro s₁ hl hrest hissued
        refine expect_leads hl fun t rest hr _ => ?_
        have hskip := hl.trans (.skip hr)
        rw [meets_bind]
        refine meets_accept _ (fun t' rest' hr' _ => ?_) fun _ => ⟨hskip, hissued⟩
        have hskip' := hskip.trans (.skip hr')
        rw [if_pos rfl]
        refine (ih _ setting _ heof).mono (fun _ s₂ h₂ => ?_) fun s₂ h₂ => ?_
        · exact ⟨hskip'.trans h₂.1, h₂.2.trans hissued⟩
        · refine h₂.after hskip' fun hn => ?_
          have : rest = t' :: rest' := hr'
          simp only [← hrest, hr, this, List.length_cons] at hn ⊢
          omega
      rw [parameters, meets_ite]
      split
      · rw [meets_bind, meets_peek, meets_bind, meets_note]
        exact next _ (.note _) rfl rfl
      · exact next s (.refl s) rfl rfl

/-- A function declaration. Its body is a block, in which all declarations are well formed; its name
and its parameters are tokens and take no identities. -/
theorem functionDeclaration_sound {params : Reader (List Token)} {block : Reader (List Stmt)}
    (hp : ∀ setting s, setting.eof.kind = .eof →
      Meets params setting s (fun _ s' => s.Leads s' ∧ s'.issued = s.issued) (GaveUp 1 n s))
    (hb : Sound Stmt.idsAll Stmt.FormedAll 8 n block) :
    SoundStmt 5 n (functionDeclaration params block) := by
  intro setting s heof
  unfold functionDeclaration
  refine expect_leads (.refl s) fun name rest hr _ => ?_
  have hskip : s.Leads { s with rest := rest } := .skip hr
  have hlen : rest.length < s.rest.length := by simp [hr]
  refine expect_leads hskip fun t₁ rest₁ hr₁ _ => ?_
  have hleads₁ := hskip.trans (.skip hr₁)
  have hlen₁ : rest₁.length < rest.length := by
    have : rest = t₁ :: rest₁ := hr₁
    simp [this]
  have close : ∀ ps s₂, s.Leads s₂ → s₂.issued = s.issued → s₂.rest.length < s.rest.length →
      Meets (do let _ ← expect .rightParen .unclosedParameters
                let _ ← expect .leftBrace .unopenedBody
                let body ← block
                return Stmt.function (← fresh) name ps body) setting s₂
        (fun st s' => Made s.issued st.ids s s' ∧ s'.rest.length < s.rest.length ∧
          (Named s.rest → st.Formed))
        (GaveUp 5 n s) := by
    intro ps s₂ hl hissued hlt
    refine expect_leads hl fun t₃ rest₃ hr₃ _ => ?_
    have hleads₃ := hl.trans (.skip hr₃)
    refine expect_leads hleads₃ fun t₄ rest₄ hr₄ _ => ?_
    have hleads₄ := hleads₃.trans (.skip hr₄)
    have hlen₄ : rest₄.length + 1 < s₂.rest.length := by
      have : rest₃ = t₄ :: rest₄ := hr₄
      simp [hr₃, this]
    rw [meets_bind]
    refine (hb setting _ heof).mono (fun body s₅ h₅ => ?_)
      fun s₅ h₅ => h₅.after hleads₄ fun hn => by simp only; omega
    have hlen₅ := h₅.2.1
    rw [meets_bind, meets_fresh, meets_pure]
    refine ⟨⟨(hleads₄.trans h₅.1.leads).trans .fresh, ?_⟩, ?_,
      fun hnamed => h₅.2.2 (hnamed.of_leads hleads₄)⟩
    · exact (h₅.1.within.mono (Nat.le_of_eq hissued.symm) (Nat.le_refl _)).cons
        (Nat.le_trans (Nat.le_of_eq hissued.symm) h₅.1.leads.issued)
    · simp only at hlen₅ ⊢
      omega
  rw [meets_bind]
  refine meets_sees _ (fun t₂ rest₂ hr₂ _ => ?_) fun _ => ?_
  · rw [if_pos rfl, meets_bind, meets_pure]
    exact close [] _ hleads₁ rfl (Nat.lt_trans hlen₁ hlen)
  · rw [if_neg Bool.false_ne_true, meets_bind]
    refine (hp setting _ heof).mono (fun ps s₂ h₂ => ?_) fun s₂ h₂ => ?_
    · refine close ps s₂ (hleads₁.trans h₂.1) h₂.2 (Nat.lt_of_le_of_lt h₂.1.length_le ?_)
      exact Nat.lt_trans hlen₁ hlen
    · exact h₂.after hleads₁ fun hn => by simp only; omega

-- ==== Readers that call each other

/-- Looking for the next declaration drops tokens from the front. -/
theorem resume_suffix (tokens : List Token) : resume tokens <:+ tokens := by
  fun_induction resume tokens with
  | case1 => exact List.suffix_refl _
  | case2 t rest => exact List.suffix_cons t rest
  | case3 t => exact List.suffix_cons t []
  | case4 t next others => exact List.suffix_cons t _
  | case5 t next others _ _ ih => exact ih.trans (List.suffix_cons t _)

/-- It drops at least one token, if there is one. -/
theorem resume_length {tokens : List Token} (h : tokens ≠ []) :
    (resume tokens).length < tokens.length := by
  cases tokens with
  | nil => exact absurd rfl h
  | cons t rest =>
      have hle := (resume_suffix rest).length_le
      unfold resume
      repeat' split
      all_goals simp only [List.length_cons, List.length_nil] at hle ⊢
      all_goals omega

/-- Where reading gave up after some tokens, fewer are left to go on with. -/
theorem dropped_shorter (hne : s.rest ≠ []) (hl : s.Leads s₁) :
    (resume s₁.rest).length < s.rest.length := by
  by_cases hs₁ : s₁.rest = []
  · simpa [hs₁, resume] using List.length_pos_iff.mpr hne
  · exact Nat.lt_of_lt_of_le (resume_length hs₁) hl.length_le

/-- All readers of statements at one bound. -/
structure StatementReaders (n : Nat) : Prop where
  statement : SoundPlain 5 n (statement n)
  declaration : SoundStmt 6 n (declaration n)
  block : Sound Stmt.idsAll Stmt.FormedAll 8 n (block n)
  declarations : ∀ enclosed setting s, setting.eof.kind = .eof →
    Meets (declarations n enclosed) setting s
      (fun ss s' => Made s.issued (Stmt.idsAll ss) s s' ∧ (Named s.rest → Stmt.FormedAll ss))
      (GaveUp 7 n s)

namespace StatementReaders

/-- A keyword, and the rest of what it starts. -/
theorem keyword_sound {good : Stmt → Prop} {x : Reader Stmt} {c : Nat} {t : Token}
    {rest : List Token} (hc : 5 ≤ c) (hx : Sound Stmt.ids good 5 n x)
    (heof : setting.eof.kind = .eof) (hr : s.rest = t :: rest) :
    Meets (do skip; x) setting s
      (fun st s' => Made s.issued st.ids s s' ∧ s'.rest.length < s.rest.length ∧
        (Named s.rest → good st))
      (GaveUp c (n + 1) s) := by
  have hskip : s.Leads { s with rest := rest } := .skip hr
  have hlen : s.rest.length = rest.length + 1 := by simp [hr]
  rw [meets_bind, meets_skip, hr, List.tail_cons, ← hr]
  refine (hx setting _ heof).mono (fun st s₁ h₁ => ?_) fun s₁ h₁ => ?_
  · have hlt := h₁.2.1
    refine ⟨⟨hskip.trans h₁.1.leads, h₁.1.within⟩, ?_,
      fun hnamed => h₁.2.2 (hnamed.of_leads hskip)⟩
    simp only at hlt
    omega
  · exact h₁.after hskip fun hn => by simp only; omega

/-- A statement is told by its first token. All that start with a keyword have one token less to go,
which is what pays for one level of depth. -/
theorem statement_succ (h : StatementReaders n) :
    SoundPlain 5 (n + 1) (Reader.statement (n + 1)) := by
  have hx := (expressionReaders n).expression
  intro setting s heof
  rw [Reader.statement, meets_bind, meets_peek]
  cases hr : s.rest with
  | nil =>
      simp only [List.headD_nil, heof]
      rw [← hr]
      exact expressionStatement_sound hx setting s heof
  | cons t rest =>
      simp only [List.headD_cons]
      rw [← hr]
      split
      · exact keyword_sound (Nat.le_refl _) (forStatement_sound hx h.statement) heof hr
      · exact keyword_sound (Nat.le_refl _) (ifStatement_sound hx h.statement) heof hr
      · exact keyword_sound (Nat.le_refl _) (printStatement_sound hx) heof hr
      · exact keyword_sound (Nat.le_refl _) (returnStatement_sound t hx) heof hr
      · exact keyword_sound (Nat.le_refl _) (whileStatement_sound hx h.statement) heof hr
      · -- a block, which is read by a reader of lists
        have hskip : s.Leads { s with rest := rest } := .skip hr
        have hlen : s.rest.length = rest.length + 1 := by simp [hr]
        rw [meets_bind, meets_skip, hr, List.tail_cons, ← hr, meets_bind]
        refine (h.block setting _ heof).mono (fun body s₁ h₁ => ?_)
          fun s₁ h₁ => h₁.after hskip fun hn => by simp only; omega
        have hlt := h₁.2.1
        rw [meets_bind, meets_fresh, meets_pure]
        refine ⟨⟨(hskip.trans h₁.1.leads).trans .fresh, ?_⟩, ?_,
          fun hnamed => ⟨h₁.2.2 (hnamed.of_leads hskip), rfl⟩⟩
        · exact h₁.1.within.cons h₁.1.leads.issued
        · simp only at hlt ⊢
          omega
      · exact expressionStatement_sound hx setting s heof

/-- A declaration is told by its keyword, or is a statement. In the latter case no token was taken,
and the level of statements is one below. -/
theorem declaration_succ (h : StatementReaders n) :
    SoundStmt 6 (n + 1) (Reader.declaration (n + 1)) := by
  have hx := (expressionReaders n).expression
  have plain : ∀ setting s, setting.eof.kind = .eof →
      Meets (Reader.statement n) setting s
        (fun st s' => Made s.issued st.ids s s' ∧ s'.rest.length < s.rest.length ∧
          (Named s.rest → st.Formed))
        (GaveUp 6 (n + 1) s) := by
    intro setting s heof
    exact (h.statement setting s heof).mono
      (fun st s₁ h₁ => ⟨h₁.1, h₁.2.1, fun hnamed => (h₁.2.2 hnamed).1⟩)
      fun s₁ h₁ => h₁.after (.refl s) fun hn => by omega
  intro setting s heof
  rw [Reader.declaration, meets_bind, meets_peek]
  cases hr : s.rest with
  | nil =>
      simp only [List.headD_nil, heof]
      rw [← hr]
      exact plain setting s heof
  | cons t rest =>
      simp only [List.headD_cons]
      rw [← hr]
      split
      · exact keyword_sound (by decide)
          (functionDeclaration_sound (parameters_sound n []) h.block) heof hr
      · exact keyword_sound (by decide) (varDeclaration_sound hx) heof hr
      · exact plain setting s heof

/-- A block is the declarations up to its closing brace. -/
theorem block_succ (h : StatementReaders n) :
    Sound Stmt.idsAll Stmt.FormedAll 8 (n + 1) (Reader.block (n + 1)) := by
  intro setting s heof
  rw [Reader.block, meets_bind]
  refine (h.declarations true setting s heof).mono (fun body s₁ h₁ => ?_)
    fun s₁ h₁ => h₁.after (.refl s) fun hn => by omega
  have hlen := h₁.1.leads.length_le
  refine expect_leads h₁.1.leads fun t rest hr _ => ?_
  rw [meets_pure]
  refine ⟨⟨h₁.1.leads.trans (.skip hr), h₁.1.within⟩, ?_, h₁.2⟩
  simp only [hr, List.length_cons] at hlen ⊢
  omega

/-- Each declaration takes a token, whether it was read or dropped. So a row of them comes to its
end before the depth does, and the identities of dropped ones are not used again. -/
theorem declarations_succ (h : StatementReaders n) (enclosed : Bool) (setting : Setting)
    (s : State) (heof : setting.eof.kind = .eof) :
    Meets (Reader.declarations (n + 1) enclosed) setting s
      (fun ss s' => Made s.issued (Stmt.idsAll ss) s s' ∧ (Named s.rest → Stmt.FormedAll ss))
      (GaveUp 7 (n + 1) s) := by
  have stops : ∀ {ko : State → Prop}, Meets (pure []) setting s
      (fun ss s' => Made s.issued (Stmt.idsAll ss) s s' ∧ (Named s.rest → Stmt.FormedAll ss)) ko :=
    ⟨⟨.refl s, .nil⟩, fun _ => trivial⟩
  have goes : s.rest ≠ [] → Meets (do let first ← recover (Reader.declaration n)
                                      let others ← Reader.declarations n enclosed
                                      return first.toList ++ others) setting s
      (fun ss s' => Made s.issued (Stmt.idsAll ss) s s' ∧ (Named s.rest → Stmt.FormedAll ss))
      (GaveUp 7 (n + 1) s) := by
    intro hne
    have others : ∀ (first : Option Stmt) (s₁ : State),
        Made s.issued (Stmt.idsAll first.toList) s s₁ → s₁.rest.length < s.rest.length →
        (Named s.rest → Stmt.FormedAll first.toList) →
        Meets (do let others ← Reader.declarations n enclosed
                  return first.toList ++ others) setting s₁
          (fun ss s' => Made s.issued (Stmt.idsAll ss) s s' ∧ (Named s.rest → Stmt.FormedAll ss))
          (GaveUp 7 (n + 1) s) := by
      intro first s₁ h₁ hlt hgood
      rw [meets_bind]
      refine (h.declarations enclosed setting s₁ heof).mono
        (fun rest s₂ h₂ => ?_) fun s₂ h₂ => h₂.after h₁.leads fun hn => by omega
      rw [meets_pure]
      refine ⟨⟨h₁.leads.trans h₂.1.leads, ?_⟩, fun hnamed => ?_⟩
      · rw [Stmt.idsAll_append]
        exact h₁.within.append h₂.1.within h₁.leads.issued h₂.1.leads.issued
      · exact (Stmt.formedAll_append _ _).mpr ⟨hgood hnamed, h₂.2 (hnamed.of_leads h₁.leads)⟩
    rw [meets_bind, meets_recover]
    refine (h.declaration setting s heof).mono (fun first s₁ h₁ => ?_) fun s₁ h₁ => ?_
    · refine others (some first) s₁ ⟨h₁.1.leads, ?_⟩ h₁.2.1 fun hnamed => ⟨h₁.2.2 hnamed, trivial⟩
      simpa only [Option.toList, Stmt.idsAll, List.append_nil] using h₁.1.within
    · -- the declaration is dropped: at least one token goes with it
      have hleads : s.Leads { s₁ with rest := resume s₁.rest } :=
        ⟨(resume_suffix _).trans h₁.leads.rest, h₁.leads.issued, h₁.leads.faults⟩
      exact others none _ ⟨hleads, .nil⟩ (dropped_shorter hne h₁.leads) fun _ => trivial
  rw [Reader.declarations, meets_bind, meets_atEnd, meets_ite]
  split
  · exact stops
  next hend =>
    have hne : s.rest ≠ [] := by simpa using hend
    rw [meets_ite]
    split
    · rw [meets_bind]
      refine meets_sees _ (fun t rest hr _ => ?_) fun _ => ?_
      · rw [if_pos rfl]
        exact stops
      · rw [if_neg Bool.false_ne_true]
        exact goes hne
    · exact goes hne

/-- At bound zero no reader of statements does anything. -/
theorem zero : StatementReaders 0 where
  statement _ _ _ := .bound (by decide)
  declaration _ _ _ := .bound (by decide)
  block _ _ _ := .bound (by decide)
  declarations _ _ _ _ := .bound (by decide)

end StatementReaders

/-- Every reader of statements goes forward, at every bound. -/
theorem statementReaders (n : Nat) : StatementReaders n := by
  induction n with
  | zero => exact .zero
  | succ n ih =>
      exact ⟨ih.statement_succ, ih.declaration_succ, ih.block_succ, ih.declarations_succ⟩

/-- A declaration takes tokens, read or dropped. -/
theorem recover_shorter {s₁ : State} {first : Option Stmt} (heof : setting.eof.kind = .eof)
    (hne : s.rest ≠ [])
    (hrun : recover (declaration n) setting s = (some first, s₁)) :
    s₁.rest.length < s.rest.length := by
  have hmeets : Meets (recover (declaration n)) setting s
      (fun _ s₁ => s₁.rest.length < s.rest.length) (fun _ => True) := by
    rw [meets_recover]
    exact ((statementReaders n).declaration setting s heof).mono
      (fun _ _ h => h.2.1) fun _ h => dropped_shorter hne h.leads
  exact hmeets.result hrun

end Lox.Reader
