/-
Reading expressions goes forward.

# Readers that take readers

One lemma for each reader of expressions, all of the form that `Reader.Sound` and `Reader.SoundFrom`
give. A leaf is made from one token (`leaf_made`). A node takes its identity after its operands have
taken theirs, so the identities of the tree lie one after the other in the interval that was taken
(`join_made`). An operand that was read before is passed on as a list of identities below the ones
to come.

# Levels

The readers that call each other are done in one induction on their bound. To show that the bound is
never reached, each call has to go down: to fewer tokens, or else by a level. The levels are ordered
as the readers call each other without consuming a token: arguments at five, expression at four,
operation at three, unary at two, and last calls and operators at one. Ten levels are allowed for
each token.

`ExpressionReaders n` holds what is said of all six readers at the bound `n`; there is one lemma for
each of them that goes from one bound to the next (`expression_succ` and those after it), and
`expressionReaders` puts them together.
-/
import Lox.Proofs.Reader.Progress

namespace Lox.Reader

variable {n : Nat}

-- ==== Readers that take readers

/-- A node that joins two operands takes the identity after both. -/
theorem join_made {left right : Expr} {lo mid : Nat} {setting : Setting} {s : State}
    {ko : State → Prop} (operator : Token) (hl : Within lo mid left.ids)
    (hr : Within mid s.issued right.ids) (hlo : lo ≤ mid) (hmid : mid ≤ s.issued) :
    Meets (join left operator right) setting s (fun e s' => Made lo e.ids s s') ko := by
  have hboth : Within lo (s.issued + 1) ((s.issued + 1) :: (left.ids ++ right.ids)) :=
    (hl.append hr hlo hmid).cons (by omega)
  unfold join
  rw [meets_bind, meets_fresh, meets_ite]
  split
  · exact ⟨.fresh, hboth⟩
  · exact ⟨.fresh, hboth⟩

/-- A leaf of the tree, made from one token. -/
theorem leaf_made {setting : Setting} {s : State} {t : Token} {rest : List Token} {ko : State → Prop}
    (make : Nat → Expr) (hids : ∀ id, (make id).ids = [id]) (hr : s.rest = t :: rest) :
    Meets (do skip; return make (← fresh)) setting s
      (fun e s' => Made s.issued e.ids s s' ∧ s'.rest.length < (t :: rest).length) ko := by
  simp only [meets_bind, meets_skip, meets_fresh, meets_pure, hids, hr, List.tail_cons]
  refine ⟨⟨⟨hr ▸ List.suffix_cons t rest, Nat.le_succ _, List.prefix_refl _⟩, ?_⟩, ?_⟩
  · exact Within.nil.cons (Nat.le_refl _)
  · simp

/-- An expression that needs no operator is made from its first token, or from what stands in
parentheses. -/
theorem primary_sound {x : Reader Expr} (hx : SoundExpr 4 n x) : SoundExpr 2 (n + 1) (primary x) := by
  intro setting s heof
  unfold primary
  rw [meets_bind, meets_peek]
  cases hr : s.rest with
  | nil =>
      simp only [List.headD_nil, heof, meets_fail]
      exact .note (.refl s) _
  | cons t rest =>
      simp only [List.headD_cons]
      split
      · exact leaf_made (.literal · (.bool false)) (fun _ => rfl) hr
      · exact leaf_made (.literal · (.bool true)) (fun _ => rfl) hr
      · exact leaf_made (.literal · .nil) (fun _ => rfl) hr
      · exact leaf_made (.literal · t.literal) (fun _ => rfl) hr
      · exact leaf_made (.literal · t.literal) (fun _ => rfl) hr
      · exact leaf_made (.ident · t) (fun _ => rfl) hr
      · -- a group: the bound is for the tokens after the parenthesis
        rw [meets_bind, meets_skip, meets_bind, hr, List.tail_cons]
        have hskip : s.Leads { s with rest := rest } := .skip hr
        refine (hx setting _ heof).mono (fun inner s₁ h₁ => ?_) fun s₁ h₁ => ?_
        · obtain ⟨hm, hlt⟩ := h₁
          rw [meets_bind]
          refine meets_expect _ _ (fun t' rest' hr' _ => ?_) fun _ => ?_
          · simp only [meets_bind, meets_fresh, meets_pure]
            refine ⟨⟨(hskip.trans hm.leads).trans ((State.Leads.skip hr').trans .fresh), ?_⟩, ?_⟩
            · exact hm.within.cons hm.leads.issued
            · have : s₁.rest.length < rest.length := hlt
              simp only [hr', List.length_cons] at this ⊢
              omega
          · exact .note (hskip.trans hm.leads) _
        · refine h₁.after hskip fun hn => ?_
          simp only [hr, List.length_cons] at hn ⊢
          omega
      · exact .note (.refl s) _

/-- An assignment, where the value's bound is the one that the target had. The node of the target is
dropped if the target is a name, and kept with a note if not; then it is the value that is dropped.
So no identity occurs twice. -/
theorem assignment_made {x : Reader Expr} {c : Nat} {target : Expr} {lo : Nat} {setting : Setting}
    {s : State} (hx : SoundExpr c n x) (heof : setting.eof.kind = .eof) (hlo : lo ≤ s.issued)
    (ht : Within lo s.issued target.ids) :
    Meets (assignment target x) setting s (fun e s' => Made lo e.ids s s')
      (GaveUp c (n + 1) s) := by
  unfold assignment
  rw [meets_bind, meets_peek, meets_bind]
  refine meets_accept _ (fun t rest hr _ => ?_) fun _ => ⟨.refl s, ht⟩
  have hskip : s.Leads { s with rest := rest } := .skip hr
  rw [if_pos rfl, meets_bind]
  refine (hx setting _ heof).mono (fun v s₁ h₁ => ?_) fun s₁ h₁ => ?_
  · obtain ⟨hm, -⟩ := h₁
    have hleads := hskip.trans hm.leads
    split
    · -- a variable's own node is dropped, and its name goes into the assignment
      simp only [meets_bind, meets_fresh, meets_pure]
      refine ⟨hleads.trans .fresh, ?_⟩
      exact (hm.within.mono hlo (Nat.le_refl _)).cons (Nat.le_trans hlo hm.leads.issued)
    · simp only [meets_bind, meets_note, meets_pure]
      exact ⟨hleads.trans (.note _), ht.mono (Nat.le_refl _) hm.leads.issued⟩
  · refine h₁.after hskip fun hn => ?_
    simp only [hr, List.length_cons] at hn ⊢
    omega

-- ==== Readers that call each other

/-- All readers of expressions at one bound. They call each other, so what is said of them is shown
for all at once, by induction on the bound. -/
structure ExpressionReaders (n : Nat) : Prop where
  expression : SoundExpr 4 n (expression n)
  operation : ∀ least, SoundExpr 3 n (operation n least)
  operators : ∀ least left, SoundFrom Expr.ids 1 n left.ids (operators n least left)
  unary : SoundExpr 2 n (unary n)
  calls : ∀ callee, SoundFrom Expr.ids 1 n callee.ids (calls n callee)
  arguments : ∀ before, SoundFrom Expr.idsAll 5 n (Expr.idsAll before) (arguments n before)

namespace ExpressionReaders

/-- An expression is an operation, which may be assigned to. -/
theorem expression_succ (h : ExpressionReaders n) : SoundExpr 4 (n + 1) (Reader.expression (n + 1)) := by
  intro setting s heof
  rw [Reader.expression, meets_bind]
  refine (h.operation 1 setting s heof).mono (fun target s₁ h₁ => ?_) fun s₁ h₁ => ?_
  · obtain ⟨hm, hlt⟩ := h₁
    refine (assignment_made h.expression heof hm.leads.issued hm.within).mono
      (fun e s₂ h₂ => ?_) fun s₂ h₂ => ?_
    · exact ⟨⟨hm.leads.trans h₂.leads, h₂.within⟩, Nat.lt_of_le_of_lt h₂.leads.length_le hlt⟩
    · exact h₂.after hm.leads fun hn => by omega
  · exact h₁.after (.refl s) fun hn => by omega

/-- An operation is an operand and the operators after it. -/
theorem operation_succ (h : ExpressionReaders n) (least : Nat) :
    SoundExpr 3 (n + 1) (Reader.operation (n + 1) least) := by
  intro setting s heof
  rw [Reader.operation, meets_bind]
  refine (h.unary setting s heof).mono (fun left s₁ h₁ => ?_) fun s₁ h₁ => ?_
  · obtain ⟨hm, hlt⟩ := h₁
    refine (h.operators least left setting s₁ s.issued heof hm.leads.issued hm.within).mono
      (fun e s₂ h₂ => ?_) fun s₂ h₂ => ?_
    · exact ⟨⟨hm.leads.trans h₂.leads, h₂.within⟩, Nat.lt_of_le_of_lt h₂.leads.length_le hlt⟩
    · exact h₂.after hm.leads fun hn => by omega
  · exact h₁.after (.refl s) fun hn => by omega

/-- Each operator takes a token, and so does its right operand. So the rest is shorter when the loop
comes back to itself, and the bound is large enough for it. -/
theorem operators_succ (h : ExpressionReaders n) (least : Nat) (left : Expr) :
    SoundFrom Expr.ids 1 (n + 1) left.ids (Reader.operators (n + 1) least left) := by
  intro setting s lo heof hlo hleft
  rw [Reader.operators, meets_bind, meets_peek]
  cases hr : s.rest with
  | nil =>
      -- the end of the script is no operator
      simp only [List.headD_nil, heof, Kind.precedence?, meets_pure]
      exact ⟨.refl s, hleft⟩
  | cons t rest =>
      simp only [List.headD_cons]
      split
      · exact ⟨.refl s, hleft⟩
      · rw [meets_ite]
        split
        · rw [meets_bind, meets_skip, meets_bind, hr, List.tail_cons]
          have hskip : s.Leads { s with rest := rest } := .skip hr
          refine (h.operation _ setting _ heof).mono (fun right s₁ h₁ => ?_) fun s₁ h₁ => ?_
          · obtain ⟨hm, hlt⟩ := h₁
            have hlen : s₁.rest.length < rest.length := hlt
            rw [meets_bind]
            refine (join_made t hleft hm.within hlo hm.leads.issued).mono (fun e s₂ h₂ => ?_)
              fun s₂ h₂ => h₂
            have hleads := (hskip.trans hm.leads).trans h₂.leads
            refine (h.operators least e setting s₂ lo heof (Nat.le_trans hlo hleads.issued)
              h₂.within).mono
              (fun e' s₃ h₃ => ⟨hleads.trans h₃.leads, h₃.within⟩) fun s₃ h₃ => ?_
            refine h₃.after hleads fun hn => ?_
            have hlen₂ := h₂.leads.length_le
            simp only [hr, List.length_cons] at hn
            omega
          · refine h₁.after hskip fun hn => ?_
            simp only [hr, List.length_cons] at hn ⊢
            omega
        · exact ⟨.refl s, hleft⟩

/-- An operand is one with an operator before it, or one that may be called. The operator is a token
that is taken, and what is called takes one as well. -/
theorem unary_succ (h : ExpressionReaders n) : SoundExpr 2 (n + 1) (Reader.unary (n + 1)) := by
  intro setting s heof
  rw [Reader.unary, meets_bind, meets_peek, meets_ite]
  split
  next hop =>
    cases hr : s.rest with
    | nil => simp [hr, heof] at hop
    | cons t rest =>
        rw [meets_bind, meets_skip, meets_bind, hr, List.tail_cons]
        have hskip : s.Leads { s with rest := rest } := .skip hr
        refine (h.unary setting _ heof).mono (fun operand s₁ h₁ => ?_) fun s₁ h₁ => ?_
        · obtain ⟨hm, hlt⟩ := h₁
          have hlen : s₁.rest.length < rest.length := hlt
          simp only [meets_bind, meets_fresh, meets_pure]
          refine ⟨⟨(hskip.trans hm.leads).trans .fresh, ?_⟩, ?_⟩
          · exact hm.within.cons hm.leads.issued
          · simp only [List.length_cons]
            omega
        · refine h₁.after hskip fun hn => ?_
          simp only [hr, List.length_cons] at hn ⊢
          omega
  next =>
    rw [meets_bind]
    refine (primary_sound h.expression setting s heof).mono (fun callee s₁ h₁ => ?_)
      fun s₁ h₁ => h₁
    obtain ⟨hm, hlt⟩ := h₁
    refine (h.calls callee setting s₁ s.issued heof hm.leads.issued hm.within).mono
      (fun e s₂ h₂ => ?_) fun s₂ h₂ => ?_
    · exact ⟨⟨hm.leads.trans h₂.leads, h₂.within⟩, Nat.lt_of_le_of_lt h₂.leads.length_le hlt⟩
    · exact h₂.after hm.leads fun hn => by omega

/-- Each argument list takes at least its parentheses. The node of a call is made after the nodes in
it, so its identity is greater than theirs. -/
theorem calls_succ (h : ExpressionReaders n) (callee : Expr) :
    SoundFrom Expr.ids 1 (n + 1) callee.ids (Reader.calls (n + 1) callee) := by
  intro setting s lo heof hlo hcallee
  rw [Reader.calls, meets_bind]
  refine meets_accept _ (fun t rest hr _ => ?_) fun _ => ⟨.refl s, hcallee⟩
  have hskip : s.Leads { s with rest := rest } := .skip hr
  have close : ∀ args s₁, Made s.issued (Expr.idsAll args) { s with rest := rest } s₁ →
      Meets (do let paren ← expect .rightParen .unclosedArguments
                Reader.calls n (.call (← fresh) callee paren args)) setting s₁
        (fun e s' => Made lo e.ids s s') (GaveUp 1 (n + 1) s) := by
    intro args s₁ h₁
    have hleads := hskip.trans h₁.leads
    rw [meets_bind]
    refine meets_expect _ _ (fun t' rest' hr' _ => ?_) fun _ => .note hleads _
    rw [meets_bind, meets_fresh]
    have hleads' := hleads.trans ((State.Leads.skip hr').trans .fresh)
    have hwithin : Within lo (s₁.issued + 1)
        (Expr.call (s₁.issued + 1) callee t' args).ids :=
      (hcallee.append h₁.within hlo h₁.leads.issued).cons (Nat.le_trans hlo h₁.leads.issued)
    refine (h.calls _ setting _ lo heof (Nat.le_trans hlo hleads'.issued) hwithin).mono
      (fun e s₂ h₂ => ⟨hleads'.trans h₂.leads, h₂.within⟩) fun s₂ h₂ => ?_
    refine h₂.after hleads' fun hn => ?_
    have hlen := h₁.leads.length_le
    simp only [hr, hr', List.length_cons] at hn hlen ⊢
    omega
  rw [if_pos rfl, meets_bind]
  refine meets_sees _ (fun t' rest' hr' _ => ?_) fun _ => ?_
  · rw [if_pos rfl, meets_bind, meets_pure]
    exact close [] _ ⟨.refl _, .nil⟩
  · rw [if_neg Bool.false_ne_true, meets_bind]
    refine (h.arguments [] setting { s with rest := rest } s.issued heof (Nat.le_refl _) .nil).mono
      close fun s₁ h₁ => ?_
    refine h₁.after hskip fun hn => ?_
    simp only [hr, List.length_cons] at hn ⊢
    omega

/-- Each argument is an expression, and takes a token. Too many of them are noted, at the one that
is too many, and reading goes on. -/
theorem arguments_succ (h : ExpressionReaders n) (before : List Expr) :
    SoundFrom Expr.idsAll 5 (n + 1) (Expr.idsAll before) (Reader.arguments (n + 1) before) := by
  intro setting s lo heof hlo hbefore
  have next : ∀ s₁, s.Leads s₁ → s₁.rest = s.rest → s₁.issued = s.issued →
      Meets (do let arg ← Reader.expression n
                if ← accept .comma then Reader.arguments n (before ++ [arg])
                else return before ++ [arg]) setting s₁
        (fun args s' => Made lo (Expr.idsAll args) s s') (GaveUp 5 (n + 1) s) := by
    intro s₁ hl hrest hissued
    rw [meets_bind]
    refine (h.expression setting s₁ heof).mono (fun arg s₂ h₂ => ?_) fun s₂ h₂ =>
      h₂.after hl fun hn => by rw [hrest]; omega
    obtain ⟨hm, hlt⟩ := h₂
    have hleads := hl.trans hm.leads
    have hwithin : Within lo s₂.issued (Expr.idsAll (before ++ [arg])) := by
      simp only [Expr.idsAll_append, Expr.idsAll, List.append_nil]
      exact hbefore.append (hissued ▸ hm.within) hlo hleads.issued
    rw [meets_bind]
    refine meets_accept _ (fun t rest hr _ => ?_) fun _ => ?_
    · rw [if_pos rfl]
      have hleads' := hleads.trans (.skip hr)
      refine (h.arguments _ setting { s₂ with rest := rest } lo heof
        (Nat.le_trans hlo hleads.issued) hwithin).mono
        (fun args s₃ h₃ => ⟨hleads'.trans h₃.leads, h₃.within⟩) fun s₃ h₃ => ?_
      refine h₃.after hleads' fun hn => ?_
      have hlen := hm.leads.length_le
      simp only [hr, hrest, List.length_cons] at hlen ⊢
      omega
    · rw [if_neg Bool.false_ne_true, meets_pure]
      exact ⟨hleads, hwithin⟩
  rw [Reader.arguments, meets_ite]
  split
  · rw [meets_bind, meets_peek, meets_bind, meets_note]
    exact next _ (.note _) rfl rfl
  · exact next s (.refl s) rfl rfl

/-- At bound zero no reader of expressions does anything. -/
theorem zero : ExpressionReaders 0 where
  expression _ _ _ := .bound (by decide)
  operation _ _ _ _ := .bound (by decide)
  operators _ _ _ _ _ _ _ _ := .bound (by decide)
  unary _ _ _ := .bound (by decide)
  calls _ _ _ _ _ _ _ := .bound (by decide)
  arguments _ _ _ _ _ _ _ := .bound (by decide)

end ExpressionReaders

/-- Every reader of expressions goes forward, at every bound. -/
theorem expressionReaders (n : Nat) : ExpressionReaders n := by
  induction n with
  | zero => exact .zero
  | succ n ih =>
      exact ⟨ih.expression_succ, ih.operation_succ, ih.operators_succ, ih.unary_succ,
        ih.calls_succ, ih.arguments_succ⟩

end Lox.Reader
