/-
Two scripts with the same tokens up to a semicolon.

# Cuts

No expression goes over a semicolon. So two scripts that have the same tokens up to one, and that
one, are read alike as far as an expression goes, whatever comes after it: the same is yielded or
both readings give up, with the same faults and before the same token (`alike_expression`). A `Cut`
is such a pair of scripts. Unlike a `Fork`, it looks at readings that fail, too, which is possible
since at the place where the scripts go apart both have the same token.

# The induction

`Alike x u` says this of a reader, with the tokens `u` left before the semicolon. A reader that only
looks does the same on both sides, since both have the same token at the front (`front`), be it one
of `u` or the semicolon itself. A reader that takes a token keeps the two alike as long as it does
not ask for a semicolon (`alike_accept`, `alike_expect`), and no reader of expressions or parameters
does.

The readers that call each other are then done in one mutual induction, on the bound on their calls
and for all `u`.
-/
import Lox.Proofs.Reader.Progress

namespace Lox.Reader

/-- Two scripts that go apart after a semicolon. Before it they have the same tokens; what comes
after it, and how the scripts end, may differ. -/
structure Cut where
  before : Setting
  after : Setting
  semicolon : Token
  isSemicolon : semicolon.kind = .semicolon
  leftRest : List Token
  rightRest : List Token

namespace Cut

variable {α β : Type} {c : Cut} {u v : List Token}

/-- The first script, with the tokens `u` left before the semicolon. -/
def left (c : Cut) (u : List Token) (issued : Nat) (faults : List ParseFault) : State :=
  ⟨u ++ c.semicolon :: c.leftRest, issued, faults⟩

/-- The second script, with the tokens `u` left before the semicolon. -/
def right (c : Cut) (u : List Token) (issued : Nat) (faults : List ParseFault) : State :=
  ⟨u ++ c.semicolon :: c.rightRest, issued, faults⟩

/-- The token that both scripts have at the front. -/
def front (c : Cut) (u : List Token) : Token := u.headD c.semicolon

theorem front_nil : c.front [] = c.semicolon := rfl

theorem front_cons (t : Token) : c.front (t :: u) = t := rfl

-- ==== The judgement

/-- With the tokens `u` before the semicolon, the reader does the same in both scripts and leaves the
semicolon in place. -/
def Alike (c : Cut) (x : Reader α) (u : List Token) : Prop :=
  ∀ issued faults, ∃ o v issued' faults', v <:+ u ∧
    x c.before (c.left u issued faults) = (o, c.left v issued' faults') ∧
      x c.after (c.right u issued faults) = (o, c.right v issued' faults')

/-- A reading goes on in the same way from states that are the same. -/
theorem Alike.look {x y : Reader α} (h : c.Alike y u)
    (hleft : ∀ issued faults,
      x c.before (c.left u issued faults) = y c.before (c.left u issued faults))
    (hright : ∀ issued faults,
      x c.after (c.right u issued faults) = y c.after (c.right u issued faults)) : c.Alike x u := by
  intro issued faults
  rw [hleft, hright]
  exact h issued faults

/-- A token is taken in both scripts. -/
theorem Alike.past {x y : Reader α} {t : Token} (h : c.Alike y v)
    (hleft : ∀ issued faults,
      x c.before (c.left (t :: v) issued faults) = y c.before (c.left v issued faults))
    (hright : ∀ issued faults,
      x c.after (c.right (t :: v) issued faults) = y c.after (c.right v issued faults)) :
    c.Alike x (t :: v) := by
  intro issued faults
  rw [hleft, hright]
  obtain ⟨o, v', issued', faults', hv, hx, hx'⟩ := h issued faults
  exact ⟨o, v', issued', faults', hv.trans (List.suffix_cons t v), hx, hx'⟩

/-- Two readers, one after the other. The first may have taken some of the tokens. -/
theorem Alike.bind {x : Reader α} {g : α → Reader β} (hx : c.Alike x u)
    (hg : ∀ a v, v <:+ u → c.Alike (g a) v) : c.Alike (x >>= g) u := by
  intro issued faults
  obtain ⟨o, v, issued₁, faults₁, hv, hrun, hrun'⟩ := hx issued faults
  cases o with
  | none => exact ⟨none, v, issued₁, faults₁, hv, bind_stopped hrun, bind_stopped hrun'⟩
  | some a =>
      obtain ⟨o, w, issued₂, faults₂, hw, hnext, hnext'⟩ := hg a v hv issued₁ faults₁
      refine ⟨o, w, issued₂, faults₂, hw.trans hv, ?_, ?_⟩
      · rw [bind_run hrun, hnext]
      · rw [bind_run hrun', hnext']

-- ==== The readers that look at no token

theorem alike_pure (a : α) : c.Alike (pure a) u :=
  fun issued faults => ⟨some a, u, issued, faults, List.suffix_refl u, rfl, rfl⟩

theorem alike_stop : c.Alike (stop : Reader α) u :=
  fun issued faults => ⟨none, u, issued, faults, List.suffix_refl u, rfl, rfl⟩

theorem alike_note (t : Token) (problem : ParseProblem) : c.Alike (note t problem) u :=
  fun issued _ => ⟨some (), u, issued, _, List.suffix_refl u, rfl, rfl⟩

theorem alike_fresh : c.Alike fresh u :=
  fun _ faults => ⟨some _, u, _, faults, List.suffix_refl u, rfl, rfl⟩

/-- A node takes the next identity. -/
theorem alike_made (make : Nat → α) : c.Alike (do return make (← fresh)) u :=
  alike_fresh.bind fun id _ _ => alike_pure (make id)

/-- The same is asked on both sides, of what does not depend on the scripts. -/
theorem alike_ite {p : Prop} [Decidable p] {x y : Reader α} (hx : p → c.Alike x u)
    (hy : ¬p → c.Alike y u) : c.Alike (if p then x else y) u := by
  split
  next h => exact hx h
  next h => exact hy h

-- ==== The readers that look at the next token

/-- In the first script the token at the front comes next. -/
theorem left_front (u : List Token) (issued : Nat) (faults : List ParseFault) :
    ∃ rest, (c.left u issued faults).rest = c.front u :: rest := by
  cases u with
  | nil => exact ⟨c.leftRest, rfl⟩
  | cons t u => exact ⟨_, rfl⟩

/-- So it does in the second one. -/
theorem right_front (u : List Token) (issued : Nat) (faults : List ParseFault) :
    ∃ rest, (c.right u issued faults).rest = c.front u :: rest := by
  cases u with
  | nil => exact ⟨c.rightRest, rfl⟩
  | cons t u => exact ⟨_, rfl⟩

/-- If the token at the front is of another kind, then the next one of the first script is. -/
theorem left_missing {kind : Kind} (hk : (c.front u).kind ≠ kind) (issued : Nat)
    (faults : List ParseFault) :
    ∀ t rest, (c.left u issued faults).rest = t :: rest → t.kind ≠ kind := by
  intro t rest ht
  obtain ⟨rest', hr⟩ := c.left_front u issued faults
  obtain ⟨rfl, -⟩ := List.cons.inj (hr.symm.trans ht)
  exact hk

/-- So is the next one of the second. -/
theorem right_missing {kind : Kind} (hk : (c.front u).kind ≠ kind) (issued : Nat)
    (faults : List ParseFault) :
    ∀ t rest, (c.right u issued faults).rest = t :: rest → t.kind ≠ kind := by
  intro t rest ht
  obtain ⟨rest', hr⟩ := c.right_front u issued faults
  obtain ⟨rfl, -⟩ := List.cons.inj (hr.symm.trans ht)
  exact hk

/-- A token that is no semicolon stands before it. -/
theorem eq_cons_of_front (h : (c.front u).kind ≠ .semicolon) : ∃ v, u = c.front u :: v := by
  cases u with
  | nil => exact absurd c.isSemicolon h
  | cons t u => exact ⟨u, rfl⟩

/-- Both scripts have the same next token. -/
theorem alike_peek {g : Token → Reader α} (h : c.Alike (g (c.front u)) u) :
    c.Alike (peek >>= g) u := by
  refine h.look (fun issued faults => ?_) fun issued faults => ?_
  · obtain ⟨rest, hr⟩ := c.left_front u issued faults
    rw [bind_run peek_run, hr, List.headD_cons]
  · obtain ⟨rest, hr⟩ := c.right_front u issued faults
    rw [bind_run peek_run, hr, List.headD_cons]

/-- A fault is noted at the next token, which is the same. -/
theorem alike_fail (problem : ParseProblem) : c.Alike (fail problem : Reader α) u :=
  alike_peek ((alike_note _ problem).bind fun _ _ _ => alike_stop)

/-- Going over a token before the semicolon. -/
theorem alike_skip {g : Unit → Reader α} {t : Token} (h : c.Alike (g ()) v) :
    c.Alike (skip >>= g) (t :: v) :=
  h.past (fun _ _ => rfl) fun _ _ => rfl

/-- Looking for a kind, even for a semicolon. -/
theorem alike_sees (kind : Kind) : c.Alike (sees kind) u := by
  refine (alike_pure (decide ((c.front u).kind = kind))).look (fun issued faults => ?_)
    fun issued faults => ?_
  · obtain ⟨rest, hr⟩ := c.left_front u issued faults
    simp only [sees, hr, Pure.pure]
  · obtain ⟨rest, hr⟩ := c.right_front u issued faults
    simp only [sees, hr, Pure.pure]

/-- Taking a token of a kind other than a semicolon. -/
theorem alike_accept {kind : Kind} (hkind : kind ≠ .semicolon) : c.Alike (accept kind) u := by
  -- a token of that kind is not the semicolon, so it stands before it
  by_cases hk : (c.front u).kind = kind
  · obtain ⟨v, hu⟩ := eq_cons_of_front (c := c) (u := u) (hk ▸ hkind)
    generalize c.front u = t at hk hu
    subst hu
    exact (alike_pure true).past (fun _ _ => accept_run_found rfl hk)
      fun _ _ => accept_run_found rfl hk
  · exact (alike_pure false).look
      (fun issued faults => accept_run_missing (left_missing hk issued faults))
      fun issued faults => accept_run_missing (right_missing hk issued faults)

/-- Expecting a token of a kind other than a semicolon. -/
theorem alike_expect {kind : Kind} (hkind : kind ≠ .semicolon) (problem : ParseProblem) :
    c.Alike (expect kind problem) u := by
  by_cases hk : (c.front u).kind = kind
  · obtain ⟨v, hu⟩ := eq_cons_of_front (c := c) (u := u) (hk ▸ hkind)
    generalize c.front u = t at hk hu
    subst hu
    exact (alike_pure t).past (fun _ _ => expect_run_found rfl hk)
      fun _ _ => expect_run_found rfl hk
  · exact (alike_fail problem).look
      (fun issued faults => expect_run_missing (left_missing hk issued faults))
      fun issued faults => expect_run_missing (right_missing hk issued faults)

-- ==== Expressions

theorem alike_join (left : Expr) (operator : Token) (right : Expr) :
    c.Alike (join left operator right) u :=
  alike_fresh.bind fun _ _ _ => alike_ite (fun _ => alike_pure _) fun _ => alike_pure _

/-- An expression that needs no operator. At the semicolon both readings fail, with the same note;
any other token stands before it in both scripts and is gone over in both. -/
theorem alike_primary {inner : Reader Expr} (h : ∀ v, c.Alike inner v) (u : List Token) :
    c.Alike (primary inner) u := by
  refine alike_peek ?_
  by_cases hk : (c.front u).kind = .semicolon
  · rw [hk]
    exact alike_fail _
  · -- the token is there, so it can be gone over
    obtain ⟨v, hu⟩ := eq_cons_of_front hk
    generalize c.front u = t at hk hu
    subst hu
    cases t.kind with
    | «false» => exact alike_skip (alike_made _)
    | «true» => exact alike_skip (alike_made _)
    | nil => exact alike_skip (alike_made _)
    | number => exact alike_skip (alike_made _)
    | string => exact alike_skip (alike_made _)
    | identifier => exact alike_skip (alike_made _)
    | leftParen =>
        exact alike_skip ((h v).bind fun inner _ _ =>
          (alike_expect Kind.noConfusion _).bind fun _ _ _ => alike_made _)
    | _ => exact alike_fail _

/-- What an equals sign makes of its target. -/
theorem alike_assignment (target : Expr) {value : Reader Expr} (h : ∀ v, c.Alike value v)
    (u : List Token) : c.Alike (assignment target value) u := by
  refine alike_peek ((alike_accept Kind.noConfusion).bind fun found v _ => ?_)
  refine alike_ite (fun _ => (h v).bind fun value w _ => ?_) fun _ => alike_pure _
  cases target with
  | ident id name => exact alike_made _
  | _ => exact (alike_note _ _).bind fun _ _ _ => alike_pure _

mutual

/-- Every expression is read alike up to a semicolon, or fails alike. -/
theorem alike_expression : ∀ n u, c.Alike (expression n) u
  | 0, _ => alike_stop
  | n + 1, u =>
      (alike_operation n 1 u).bind fun target v _ =>
        alike_assignment target (alike_expression n) v

theorem alike_operation : ∀ n least u, c.Alike (operation n least) u
  | 0, _, _ => alike_stop
  | n + 1, least, u => (alike_unary n u).bind fun left v _ => alike_operators n least left v

theorem alike_operators : ∀ n least left u, c.Alike (operators n least left) u
  | 0, _, _, _ => alike_stop
  | n + 1, least, left, u => by
      refine alike_peek ?_
      by_cases hk : (c.front u).kind = .semicolon
      · rw [hk]
        exact alike_pure left
      · obtain ⟨v, hu⟩ := eq_cons_of_front hk
        generalize c.front u = t at hk hu
        subst hu
        cases t.kind.precedence? with
        | none => exact alike_pure left
        | some precedence =>
            refine alike_ite (fun _ => alike_skip ?_) fun _ => alike_pure left
            exact (alike_operation n (precedence + 1) v).bind fun right w _ =>
              (alike_join left t right).bind fun e w' _ => alike_operators n least e w'

theorem alike_unary : ∀ n u, c.Alike (unary n) u
  | 0, _ => alike_stop
  | n + 1, u => by
      refine alike_peek (alike_ite (fun hk => ?_) fun _ => ?_)
      · have hne : (c.front u).kind ≠ .semicolon := by
          rcases hk with hk | hk <;> rw [hk] <;> exact Kind.noConfusion
        obtain ⟨v, hu⟩ := eq_cons_of_front hne
        generalize c.front u = t at hu
        subst hu
        exact alike_skip ((alike_unary n v).bind fun operand w _ => alike_made _)
      · exact (alike_primary (alike_expression n) u).bind fun callee v _ => alike_calls n callee v

theorem alike_calls : ∀ n callee u, c.Alike (calls n callee) u
  | 0, _, _ => alike_stop
  | n + 1, callee, u => by
      have close : ∀ args v, c.Alike
          (do let paren ← expect .rightParen .unclosedArguments
              calls n (.call (← fresh) callee paren args)) v := fun args v =>
        (alike_expect Kind.noConfusion _).bind fun paren w _ =>
          alike_fresh.bind fun id w' _ => alike_calls n _ w'
      refine (alike_accept Kind.noConfusion).bind fun found v _ => ?_
      refine alike_ite (fun _ => (alike_sees _).bind fun none w _ => ?_) fun _ => alike_pure callee
      exact alike_ite (fun _ => close [] w) fun _ =>
        (alike_arguments n [] w).bind fun args w' _ => close args w'

theorem alike_arguments : ∀ n before u, c.Alike (arguments n before) u
  | 0, _, _ => alike_stop
  | n + 1, before, u => by
      have next : ∀ v, c.Alike
          (do let arg ← expression n
              if ← accept .comma then arguments n (before ++ [arg]) else return before ++ [arg]) v :=
        fun v => (alike_expression n v).bind fun arg w _ =>
          (alike_accept Kind.noConfusion).bind fun found w' _ =>
            alike_ite (fun _ => alike_arguments n _ w') fun _ => alike_pure _
      exact alike_ite (fun _ => alike_peek ((alike_note _ _).bind fun _ v _ => next v)) fun _ => next u

end

/-- Parameters are read alike, too. -/
theorem alike_parameters : ∀ n before u, c.Alike (parameters n before) u
  | 0, _, _ => alike_stop
  | n + 1, before, u => by
      have next : ∀ v, c.Alike
          (do let param ← expect .identifier .noParameterName
              if ← accept .comma then parameters n (before ++ [param])
              else return before ++ [param]) v := fun v =>
        (alike_expect Kind.noConfusion _).bind fun param w _ =>
          (alike_accept Kind.noConfusion).bind fun found w' _ =>
            alike_ite (fun _ => alike_parameters n _ w') fun _ => alike_pure _
      exact alike_ite (fun _ => alike_peek ((alike_note _ _).bind fun _ v _ => next v)) fun _ => next u

end Cut

end Lox.Reader
