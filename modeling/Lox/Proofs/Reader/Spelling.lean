/-
What was read is what stands there.

# What is shown

If nothing was noted while a tree was read, the tree has the grammar's shape, is made of the tokens
that were taken, and written down it gives them back one by one: none was lost, and none made up.
`Expr.Spelled` says these three of an expression and the tokens taken for it. Tokens are compared by
what a tree can keep of them (`Token.gist`): their kinds, the names of identifiers and the constants
of numbers and strings. Of a number or a string a tree has only the constant, so what comes back is
the token that the constant is written as (`Token.returned`).

# The judgement

`Spells` says so of a reader, by a relation between the tokens that it takes, what it yields, and
the tokens that it leaves. It speaks of readings that end without a note, and a note made later
cannot be known beforehand: so what is known of one part of a reading stands as a premise in the
relation of the next part (`Spells.bind`), and all of it is there where the tree is made.

# Operators

The loop over operators holds a left operand that was spelled by tokens taken before. It has to be
known that no operator is left out: where the loop for one precedence stops, no operator of at least
that precedence comes next (`Below`). With this the operand on the right of an operator binds more
tightly than the operator, and the one on the left at least as tightly, which is the grammar's
shape.

The readers that call each other are done in one induction on their bound (`ExpressionSpells`).
-/
import Mathlib.Data.List.Forall2
import Lox.Proofs.Reader.Progress
import Lox.Proofs.Tree.Written

namespace Lox

-- ==== Comparing tokens

namespace Token

/-- What counts of a token: its kind, the name of an identifier, and the constant of a number or a
string. -/
def gist (t : Token) : Kind × Bytes × Literal :=
  (t.kind, if t.kind = .identifier then t.lexeme else [],
    if t.kind = .number ∨ t.kind = .string then t.literal else .nil)

/-- The token that comes back when what was read is written: of a number or a string only the
constant is kept. -/
def returned (t : Token) : Token :=
  if t.kind = .number ∨ t.kind = .string then t.literal.token else t

/-- In the place of `t`, `u` is written. -/
def Gives (t u : Token) : Prop := u.gist = t.returned.gist

/-- What is not a number or a string comes back as it was. -/
theorem gives_self {t : Token} (h : ¬(t.kind = .number ∨ t.kind = .string)) : t.Gives t := by
  rw [Gives, returned, if_neg h]

/-- A mark is written for any token of its kind. -/
theorem gives_mark {t : Token} {k : Kind} {text : String} (hk : t.kind = k)
    (hplain : k ≠ .identifier ∧ k ≠ .number ∧ k ≠ .string) : t.Gives (.mark k text) := by
  obtain ⟨hident, hnumber, hstring⟩ := hplain
  subst hk
  rw [Gives, returned, if_neg (by simp [hnumber, hstring])]
  simp [gist, mark, hident, hnumber, hstring]

end Token

/-- The tokens `ts` are written for the tokens `w`. -/
abbrev Gives (w ts : List Token) : Prop := List.Forall₂ Token.Gives w ts

theorem Gives.append {w w' ts ts' : List Token} (h : Gives w ts) (h' : Gives w' ts') :
    Gives (w ++ w') (ts ++ ts') := List.rel_append h h'

theorem Gives.single {t u : Token} (h : t.Gives u) : Gives [t] [u] := .cons h .nil

/-- The tokens `w` spell the expression, as an operand that binds at least this tightly. -/
structure Expr.Spelled (least : Nat) (w : List Token) (e : Expr) : Prop where
  fits : e.Fits least
  holds : ∀ T : Token → Prop, (∀ t ∈ w, T t) → e.Holds T
  gives : Gives w e.tokens

/-- An operand may stand where less is asked for. -/
theorem Expr.Spelled.mono {p q : Nat} {w : List Token} {e : Expr} (h : e.Spelled q w) (hpq : p ≤ q) :
    e.Spelled p w :=
  ⟨h.fits.mono hpq, h.holds, h.gives⟩

namespace Reader

variable {α β : Type} {n : Nat} {setting : Setting} {s : State} {t : Token} {rest : List Token}

-- ==== The judgement

/-- If nothing was noted up to its end, `x` yields something that is so related to the tokens that
it takes and to those that it leaves. -/
def Spells (x : Reader α) (setting : Setting) (s : State)
    (rel : List Token → α → List Token → Prop) : Prop :=
  ∀ a s₁, x setting s = (some a, s₁) →
    s.Leads s₁ ∧ (s₁.faults = [] → ∃ w, s.rest = w ++ s₁.rest ∧ rel w a s₁.rest)

section Rules

variable {x : Reader α} {f : α → Reader β} {rel : List Token → α → List Token → Prop}
variable {rel' : List Token → β → List Token → Prop}

/-- Less may be said of the tokens. -/
theorem Spells.mono {rel₁ : List Token → α → List Token → Prop} (h : Spells x setting s rel₁)
    (himp : ∀ w a rest, rel₁ w a rest → rel w a rest) : Spells x setting s rel := by
  intro a s₁ hx
  obtain ⟨hl, hrel⟩ := h a s₁ hx
  refine ⟨hl, fun hclean => ?_⟩
  obtain ⟨w, hw, ha⟩ := hrel hclean
  exact ⟨w, hw, himp w a _ ha⟩

/-- The second reader takes its tokens after those of the first, whose relation it may use. -/
theorem Spells.bind (hx : Spells x setting s rel)
    (hf : ∀ a s₁, x setting s = (some a, s₁) → s.Leads s₁ →
      Spells (f a) setting s₁ fun w' b rest => ∀ w, rel w a (w' ++ rest) → rel' (w ++ w') b rest) :
    Spells (x >>= f) setting s rel' := by
  intro b s₂ h
  obtain ⟨a, s₁, hrun, hnext⟩ := run_of_bind h
  obtain ⟨hl₁, hrel₁⟩ := hx a s₁ hrun
  obtain ⟨hl₂, hrel₂⟩ := hf a s₁ hrun hl₁ b s₂ hnext
  refine ⟨hl₁.trans hl₂, fun hclean => ?_⟩
  obtain ⟨w, hw, ha⟩ := hrel₁ (hl₂.faults_nil hclean)
  obtain ⟨w', hw', hb⟩ := hrel₂ hclean
  refine ⟨w ++ w', ?_, hb w (hw' ▸ ha)⟩
  rw [hw, hw', List.append_assoc]

/-- Nothing is taken. -/
theorem spells_pure {a : α} (h : rel [] a s.rest) : Spells (pure a) setting s rel := by
  intro b s₁ hx
  obtain ⟨hb, rfl⟩ := Prod.mk.inj hx
  obtain rfl := Option.some.inj hb
  exact ⟨.refl _, fun _ => ⟨[], rfl, h⟩⟩

/-- Going on from a later state, after the tokens `w`. -/
theorem Spells.after {y : Reader α} {s₁ : State} {w : List Token}
    (h : Spells y setting s₁ fun w' a rest => rel (w ++ w') a rest) (hl : s.Leads s₁)
    (hr : s.rest = w ++ s₁.rest) (hrun : x setting s = y setting s₁) : Spells x setting s rel := by
  intro a s₂ hx
  obtain ⟨hl₂, hrel⟩ := h a s₂ (hrun ▸ hx)
  refine ⟨hl.trans hl₂, fun hclean => ?_⟩
  obtain ⟨w', hw', ha⟩ := hrel hclean
  refine ⟨w ++ w', ?_, ha⟩
  rw [hr, hw', List.append_assoc]

/-- A reader that gives up spells anything. -/
theorem spells_none {s₁ : State} (h : x setting s = (none, s₁)) : Spells x setting s rel := by
  intro a s₂ hx
  rw [h] at hx
  cases hx

/-- After a note nothing more is said. -/
theorem spells_note {f : Unit → Reader α} {problem : ParseProblem}
    (h : ∀ s₁, s.Leads s₁ → s₁.rest = s.rest → Spells (f ()) setting s₁ fun _ _ _ => True) :
    Spells (note t problem >>= f) setting s rel := by
  intro a s₁ hx
  obtain ⟨hl, -⟩ := h _ (.note ⟨t, problem⟩) rfl a s₁ hx
  refine ⟨(State.Leads.note ⟨t, problem⟩).trans hl, fun hclean => ?_⟩
  have hnone := hl.faults_nil hclean
  simp at hnone

/-- An identity is taken, and no token. -/
theorem spells_fresh {f : Nat → Reader α}
    (h : Spells (f (s.issued + 1)) setting { s with issued := s.issued + 1 } rel) :
    Spells (fresh >>= f) setting s rel :=
  Spells.after (w := []) h .fresh rfl rfl

theorem spells_form {f : LoopForm → Reader α} (h : Spells (f setting.form) setting s rel) :
    Spells (form >>= f) setting s rel := h

theorem spells_atEnd {f : Bool → Reader α} (h : Spells (f s.rest.isEmpty) setting s rel) :
    Spells (atEnd >>= f) setting s rel := h

/-- The next token, be it the one that ends the script. -/
theorem spells_look {f : Token → Reader α}
    (h : Spells (f (s.rest.headD setting.eof)) setting s rel) :
    Spells (peek >>= f) setting s rel := h

/-- The next token, which is there. -/
theorem spells_peek {f : Token → Reader α} (hr : s.rest = t :: rest)
    (h : Spells (f t) setting s rel) :
    Spells (peek >>= f) setting s rel := by
  refine Spells.after (w := []) h (.refl s) rfl ?_
  show f (s.rest.headD setting.eof) setting s = f t setting s
  rw [hr, List.headD_cons]

/-- A token is taken. -/
theorem spells_skip {f : Unit → Reader α} (hr : s.rest = t :: rest)
    (h : Spells (f ()) setting { s with rest := rest } fun w a rest => rel (t :: w) a rest) :
    Spells (skip >>= f) setting s rel := by
  refine Spells.after (w := [t]) h (.skip hr) hr ?_
  show f () setting { s with rest := s.rest.tail } = _
  rw [hr, List.tail_cons]

/-- Looking for a kind takes nothing. -/
theorem spells_sees {f : Bool → Reader α} (kind : Kind)
    (found : ∀ t rest, s.rest = t :: rest → t.kind = kind → Spells (f true) setting s rel)
    (missing : (∀ t rest, s.rest = t :: rest → t.kind ≠ kind) → Spells (f false) setting s rel) :
    Spells (sees kind >>= f) setting s rel := by
  rcases front_cases s kind with ⟨t, rest, hr, hk⟩ | hother
  · exact Spells.after (w := []) (found t rest hr hk) (.refl s) rfl (bind_run (sees_run_found hr hk))
  · exact Spells.after (w := []) (missing hother) (.refl s) rfl (bind_run (sees_run_missing hother))

/-- A token of the kind is taken, or nothing. -/
theorem spells_accept {f : Bool → Reader α} (kind : Kind)
    (found : ∀ t rest, s.rest = t :: rest → t.kind = kind →
      Spells (f true) setting { s with rest := rest } fun w a rest => rel (t :: w) a rest)
    (missing : (∀ t rest, s.rest = t :: rest → t.kind ≠ kind) → Spells (f false) setting s rel) :
    Spells (accept kind >>= f) setting s rel := by
  rcases front_cases s kind with ⟨t, rest, hr, hk⟩ | hother
  · exact Spells.after (w := [t]) (found t rest hr hk) (.skip hr) hr
      (bind_run (accept_run_found hr hk))
  · exact Spells.after (w := []) (missing hother) (.refl s) rfl
      (bind_run (accept_run_missing hother))

/-- A token of the kind is taken. If it is missing, there is nothing to show. -/
theorem spells_expect {f : Token → Reader α} {kind : Kind} {problem : ParseProblem}
    (found : ∀ t rest, s.rest = t :: rest → t.kind = kind →
      Spells (f t) setting { s with rest := rest } fun w a rest => rel (t :: w) a rest) :
    Spells (expect kind problem >>= f) setting s rel := by
  rcases front_cases s kind with ⟨t, rest, hr, hk⟩ | hother
  · exact Spells.after (w := [t]) (found t rest hr hk) (.skip hr) hr
      (bind_run (expect_run_found hr hk))
  · exact spells_none (bind_stopped (expect_run_missing hother))

end Rules

-- ==== Operands

/-- A leaf is spelled by the token it is made from. -/
theorem leaf_spells {make : Nat → Expr} (hr : s.rest = t :: rest)
    (h : ∀ id, (make id).Spelled 8 [t]) :
    Spells (do skip; return make (← fresh)) setting s fun w e _ => e.Spelled 8 w :=
  spells_skip hr (spells_fresh (spells_pure (h _)))

/-- An expression that needs no operator is of the innermost level. Of each leaf the token is given
back: a constant by its text, a keyword by its kind, and a name as it is. -/
theorem primary_spells {x : Reader Expr} (heof : setting.eof.kind = .eof)
    (hx : ∀ s₁, s.Leads s₁ → Spells x setting s₁ fun w e _ => e.Spelled 0 w) :
    Spells (primary x) setting s fun w e _ => e.Spelled 8 w := by
  cases hr : s.rest with
  | nil =>
      have hrun : primary x setting s =
          (none, { s with faults := s.faults ++ [⟨setting.eof, .noExpression⟩] }) := by
        simp [primary, Bind.bind, peek, fail, note, stop, hr, heof]
      exact spells_none hrun
  | cons t rest =>
      refine spells_peek hr ?_
      have constant : (t.kind = .number ∨ t.kind = .string) →
          ∀ id, (Expr.literal id t.literal).Spelled 8 [t] := fun hk id =>
        ⟨.literal 8 id _, fun T hT => .inr (.inr ⟨t, hT t (List.mem_singleton_self t), hk, rfl⟩),
          .single (by rw [Token.Gives, Token.returned, if_pos hk])⟩
      split
      next hk =>
        exact leaf_spells hr fun id => ⟨.literal 8 id _, fun _ _ => .inr (.inl ⟨false, rfl⟩),
          .single (Token.gives_mark hk (by decide))⟩
      next hk =>
        exact leaf_spells hr fun id => ⟨.literal 8 id _, fun _ _ => .inr (.inl ⟨true, rfl⟩),
          .single (Token.gives_mark hk (by decide))⟩
      next hk =>
        exact leaf_spells hr fun id => ⟨.literal 8 id _, fun _ _ => .inl rfl,
          .single (Token.gives_mark hk (by decide))⟩
      next hk => exact leaf_spells hr (constant (.inl hk))
      next hk => exact leaf_spells hr (constant (.inr hk))
      next hk =>
        exact leaf_spells hr fun id => ⟨.ident 8 id hk, fun T hT => hT t (List.mem_singleton_self t),
          .single (Token.gives_self (by simp [hk]))⟩
      next hk =>
        refine spells_skip hr ((hx _ (.skip hr)).bind fun inner s₁ _ _ => ?_)
        refine spells_expect fun r rest' hr' hk' => spells_fresh (spells_pure ?_)
        intro w hinner
        refine ⟨.grouping 8 _ hinner.fits,
          fun T hT => hinner.holds T fun u hu => hT u (by simp [hu]), ?_⟩
        exact .cons (Token.gives_mark hk (by decide))
          (hinner.gives.append (.single (Token.gives_mark hk' (by decide))))
      next => exact spells_none rfl

/-- What an equals sign makes of its target. A target that is a name is spelled by the name, and any
other one is noted, so nothing is asked then. -/
theorem assignment_spells {x : Reader Expr} {target : Expr}
    (hx : ∀ s₁, s.Leads s₁ → Spells x setting s₁ fun w e _ => e.Spelled 0 w) :
    Spells (assignment target x) setting s fun w e _ =>
      ∀ w₀, target.Spelled 1 w₀ → e.Spelled 0 (w₀ ++ w) := by
  refine spells_look (spells_accept .equal (fun t rest hr hk => ?_) fun _ => spells_pure ?_)
  · refine (hx _ (.skip hr)).bind fun v s₁ _ _ => ?_
    split
    next id name =>
      refine spells_fresh (spells_pure ?_)
      intro w hv w₀ htarget
      have hname : name.kind = .identifier := by
        cases htarget.fits with
        | ident _ _ kind => exact kind
      refine ⟨.assign _ hname hv.fits, fun T hT => ⟨?_, ?_⟩, ?_⟩
      · exact htarget.holds T fun u hu => hT u (by simp [hu])
      · exact hv.holds T fun u hu => hT u (by simp [hu])
      · rw [List.append_nil]
        exact htarget.gives.append (.cons (Token.gives_mark hk (by decide)) hv.gives)
    next => exact spells_note fun _ _ _ => spells_pure trivial
  · intro w₀ htarget
    rw [List.append_nil]
    exact htarget.mono (Nat.zero_le _)

/-- An operator between operands that bind tightly enough. The left one may bind as the operator
does, and the right one has to bind more tightly: this is where operators lean to the left. -/
theorem join_spells {left right : Expr} {operator : Token} :
    Spells (join left operator right) setting s fun w e _ => w = [] ∧ ∀ p w₁ w₂,
      operator.kind.precedence? = some p → left.Spelled p w₁ → right.Spelled (p + 1) w₂ →
        e.Spelled p (w₁ ++ operator :: w₂) := by
  have holds : ∀ {p w₁ w₂} (T : Token → Prop), (∀ u ∈ w₁ ++ operator :: w₂, T u) →
      left.Spelled p w₁ → right.Spelled (p + 1) w₂ → left.Holds T ∧ T operator ∧ right.Holds T := by
    intro p w₁ w₂ T hT hleft hright
    exact ⟨hleft.holds T fun u hu => hT u (by simp [hu]), hT operator (by simp),
      hright.holds T fun u hu => hT u (by simp [hu])⟩
  have gives : ∀ {p w₁ w₂}, operator.kind.precedence? = some p → left.Spelled p w₁ →
      right.Spelled (p + 1) w₂ →
      Gives (w₁ ++ operator :: w₂) (left.tokens ++ operator :: right.tokens) := by
    intro p w₁ w₂ hp hleft hright
    refine hleft.gives.append (.cons (Token.gives_self ?_) hright.gives)
    rintro (hk | hk) <;> simp [hk, Kind.precedence?] at hp
  refine spells_fresh ?_
  split
  next hk =>
    exact spells_pure ⟨rfl, fun p w₁ w₂ hp hleft hright =>
      ⟨.logical _ (mem_logicalLevels.mpr ⟨hp, hk⟩) (Nat.le_refl _) hleft.fits hright.fits,
        fun T hT => holds T hT hleft hright, gives hp hleft hright⟩⟩
  next hk =>
    exact spells_pure ⟨rfl, fun p w₁ w₂ hp hleft hright =>
      ⟨.binary _ (mem_binaryLevels.mpr ⟨hp, hk⟩) (Nat.le_refl _) hleft.fits hright.fits,
        fun T hT => holds T hT hleft hright, gives hp hleft hright⟩⟩

-- ==== Arguments

/-- The tokens `w` spell the expressions, written as `ts`. -/
structure SpelledAll (w : List Token) (es : List Expr) (ts : List Token) : Prop where
  fits : ∀ e ∈ es, e.Fits 0
  holds : ∀ T : Token → Prop, (∀ t ∈ w, T t) → Expr.HoldsAll T es
  gives : Gives w ts

/-- The pieces, with a comma after each. -/
def trailed (pieces : List (List Token)) : List Token :=
  pieces.flatMap fun piece => piece ++ [.mark .comma ","]

/-- Pieces with commas between them, and one more at the end. -/
theorem listed_append (pieces : List (List Token)) (last : List Token) :
    Token.listed (pieces ++ [last]) = trailed pieces ++ last := by
  induction pieces with
  | nil => rfl
  | cons piece pieces ih =>
      have hlisted : Token.listed (piece :: (pieces ++ [last])) =
          piece ++ .mark .comma "," :: Token.listed (pieces ++ [last]) := by
        cases pieces <;> rfl
      rw [List.cons_append, hlisted, ih]
      simp [trailed]

/-- Pieces with commas after them, and one more at the end. -/
theorem trailed_append (pieces : List (List Token)) (last : List Token) :
    trailed (pieces ++ [last]) = trailed pieces ++ last ++ [.mark .comma ","] := by
  simp [trailed]

theorem tokensEach_append (es : List Expr) (e : Expr) :
    Expr.tokensEach (es ++ [e]) = Expr.tokensEach es ++ [e.tokens] := by
  induction es with
  | nil => rfl
  | cons e' es ih => simp only [List.cons_append, Expr.tokensEach, ih]

/-- One more expression at the end. -/
theorem SpelledAll.snoc {w w₁ ts : List Token} {es : List Expr} {e : Expr} (h : SpelledAll w es ts)
    (he : e.Spelled 0 w₁) : SpelledAll (w ++ w₁) (es ++ [e]) (ts ++ e.tokens) where
  fits := by
    intro e' he'
    rcases List.mem_append.mp he' with he' | he'
    · exact h.fits e' he'
    · obtain rfl := List.mem_singleton.mp he'
      exact he.fits
  holds T hT := by
    refine (Expr.holdsAll_append es [e]).mpr ⟨h.holds T fun t ht => hT t (by simp [ht]), ?_, trivial⟩
    exact he.holds T fun t ht => hT t (by simp [ht])
  gives := h.gives.append he.gives

/-- A comma after the expressions. -/
theorem SpelledAll.comma {w ts : List Token} {es : List Expr} {c : Token} (h : SpelledAll w es ts)
    (hc : c.kind = .comma) : SpelledAll (w ++ [c]) es (ts ++ [.mark .comma ","]) where
  fits := h.fits
  holds T hT := h.holds T fun t ht => hT t (by simp [ht])
  gives := h.gives.append (.single (Token.gives_mark hc (by decide)))

-- ==== Readers that call each other

/-- No operator of at least this precedence comes next. -/
def Below (least : Nat) (rest : List Token) : Prop :=
  ∀ t ts, rest = t :: ts → ∀ p, t.kind.precedence? = some p → p < least

/-- All readers of expressions at one bound, each with the level of what it reads. The readers that
go on from an operand say what becomes of the tokens of the operand and those that they take. -/
structure ExpressionSpells (setting : Setting) (n : Nat) : Prop where
  expression : ∀ s, Spells (expression n) setting s fun w e _ => e.Spelled 0 w
  operation : ∀ least, least ≤ 7 → ∀ s, Spells (operation n least) setting s fun w e rest =>
    e.Spelled least w ∧ Below least rest
  operators : ∀ least left s, Spells (operators n least left) setting s fun w e rest =>
    ∀ q w₀, left.Spelled q w₀ → least ≤ q → Below (q + 1) (w ++ rest) →
      e.Spelled least (w₀ ++ w) ∧ Below least rest
  unary : ∀ s, Spells (unary n) setting s fun w e _ => e.Spelled 7 w
  calls : ∀ callee s, Spells (calls n callee) setting s fun w e _ =>
    ∀ w₀, callee.Spelled 8 w₀ → e.Spelled 8 (w₀ ++ w)
  arguments : ∀ before s, Spells (arguments n before) setting s fun w args _ =>
    ∀ w₀, SpelledAll w₀ before (trailed (Expr.tokensEach before)) →
      SpelledAll (w₀ ++ w) args (Token.listed (Expr.tokensEach args)) ∧ args.length ≤ maxArity

namespace ExpressionSpells

/-- An expression is an operation, or an assignment to one. -/
theorem expression_succ (h : ExpressionSpells setting n) (s : State) :
    Spells (Reader.expression (n + 1)) setting s fun w e _ => e.Spelled 0 w := by
  rw [Reader.expression]
  refine (h.operation 1 (by decide) s).bind fun target s₁ _ _ => ?_
  refine (assignment_spells fun s₂ _ => h.expression s₂).mono fun w e rest he w₀ htarget => ?_
  exact he w₀ htarget.1

/-- After an operation no operator comes that it should have taken. -/
theorem operation_succ (h : ExpressionSpells setting n) (least : Nat) (hleast : least ≤ 7)
    (s : State) :
    Spells (Reader.operation (n + 1) least) setting s fun w e rest =>
      e.Spelled least w ∧ Below least rest := by
  rw [Reader.operation]
  refine (h.unary s).bind fun left s₁ _ _ => ?_
  refine (h.operators least left s₁).mono fun w e rest he w₀ hleft => ?_
  refine he 7 w₀ hleft hleast fun t ts _ p hp => ?_
  have := Kind.precedence_bounds hp
  omega

/-- An operator is taken if it binds tightly enough, and its right operand binds more tightly. What
is read so far binds as the operators in it do (`q`), and no operator that comes next binds more
tightly than that. -/
theorem operators_succ (h : ExpressionSpells setting n) (heof : setting.eof.kind = .eof) (least : Nat)
    (left : Expr) (s : State) :
    Spells (Reader.operators (n + 1) least left) setting s fun w e rest =>
      ∀ q w₀, left.Spelled q w₀ → least ≤ q → Below (q + 1) (w ++ rest) →
        e.Spelled least (w₀ ++ w) ∧ Below least rest := by
  have stops : ∀ {rest : List Token}, s.rest = rest → Below least rest →
      Spells (pure left) setting s fun w e rest => ∀ q w₀, left.Spelled q w₀ → least ≤ q →
        Below (q + 1) (w ++ rest) → e.Spelled least (w₀ ++ w) ∧ Below least rest := by
    intro rest hr hbelow
    refine spells_pure fun q w₀ hleft hq _ => ?_
    rw [List.append_nil]
    exact ⟨hleft.mono hq, hr ▸ hbelow⟩
  rw [Reader.operators]
  cases hr : s.rest with
  | nil =>
      refine spells_look ?_
      rw [hr, List.headD_nil, heof]
      exact stops hr fun t ts h => nomatch h
  | cons t rest =>
      refine spells_peek hr ?_
      split
      next hp =>
        refine stops hr fun t' ts h p hp' => ?_
        obtain ⟨rfl, -⟩ := List.cons.inj h
        rw [hp] at hp'
        cases hp'
      next p hp =>
        split
        next hleast =>
          have hbounds := Kind.precedence_bounds hp
          refine spells_skip hr ((h.operation (p + 1) (by omega) _).bind fun right s₁ _ _ => ?_)
          refine join_spells.bind fun joined s₂ _ _ => (h.operators least joined s₂).mono ?_
          rintro w e rest' he _ ⟨rfl, hjoined⟩ w₁ ⟨hright, hbelow⟩ q w₀ hleft hq hfollow
          -- the operator binds no more tightly than what is on its left
          have hpq : p ≤ q := Nat.le_of_lt_succ (hfollow t _ rfl p hp)
          obtain ⟨hspelled, hstops⟩ :=
            he p (w₀ ++ t :: w₁) (hjoined p w₀ w₁ hp (hleft.mono hpq) hright)
            hleast hbelow
          refine ⟨?_, hstops⟩
          rwa [List.append_assoc] at hspelled
        next hleast =>
          refine stops hr fun t' ts h p' hp' => ?_
          obtain ⟨rfl, -⟩ := List.cons.inj h
          obtain rfl := Option.some.inj (hp.symm.trans hp')
          omega

/-- An operand, with or without an operator before it. Without one it is what can be called, of the
innermost level. -/
theorem unary_succ (h : ExpressionSpells setting n) (heof : setting.eof.kind = .eof) (s : State) :
    Spells (Reader.unary (n + 1)) setting s fun w e _ => e.Spelled 7 w := by
  have plain : Spells (do let callee ← primary (Reader.expression n); Reader.calls n callee) setting s
      fun w e _ => e.Spelled 7 w := by
    refine (primary_spells heof fun s₁ _ => h.expression s₁).bind fun callee s₁ _ _ => ?_
    refine (h.calls callee s₁).mono fun w e rest he w₀ hcallee => ?_
    exact (he w₀ hcallee).mono (by decide)
  rw [Reader.unary]
  cases hr : s.rest with
  | nil =>
      refine spells_look ?_
      rw [hr, List.headD_nil, heof]
      exact plain
  | cons t rest =>
      refine spells_peek hr ?_
      split
      next hk =>
        refine spells_skip hr ((h.unary _).bind fun operand s₁ _ _ => spells_fresh (spells_pure ?_))
        intro w hoperand
        rw [List.append_nil]
        refine ⟨.unary _ (Nat.le_refl _) hk hoperand.fits, fun T hT => ⟨hT t (by simp), ?_⟩, ?_⟩
        · exact hoperand.holds T fun u hu => hT u (by simp [hu])
        · refine .cons (Token.gives_self ?_) hoperand.gives
          rintro (hk' | hk') <;> simp [hk'] at hk
      next => exact plain

/-- What is called is of the innermost level, and so is the call. The tokens in its parentheses are
those of the arguments, with commas between them. -/
theorem calls_succ (h : ExpressionSpells setting n) (callee : Expr) (s : State) :
    Spells (Reader.calls (n + 1) callee) setting s fun w e _ =>
      ∀ w₀, callee.Spelled 8 w₀ → e.Spelled 8 (w₀ ++ w) := by
  have close : ∀ args s₁, Spells (do let paren ← expect .rightParen .unclosedArguments
                                     Reader.calls n (.call (← fresh) callee paren args)) setting s₁
      fun w e _ => ∀ l w₀ w₁, l.kind = .leftParen → callee.Spelled 8 w₀ →
        SpelledAll w₁ args (Token.listed (Expr.tokensEach args)) → args.length ≤ maxArity →
          e.Spelled 8 (w₀ ++ l :: (w₁ ++ w)) := by
    intro args s₁
    refine spells_expect fun r rest' hr' hk' => spells_fresh ((h.calls _ _).mono ?_)
    intro w e _ he l w₀ w₁ hl hcallee hargs hfew
    have hcall := he (w₀ ++ l :: (w₁ ++ [r])) ?_
    · simpa using hcall
    refine ⟨.call _ (Nat.le_refl _) hcallee.fits hargs.fits hk' (maxArity_eq ▸ hfew), fun T hT => ⟨?_, ?_, ?_⟩, ?_⟩
    · exact hcallee.holds T fun u hu => hT u (by simp [hu])
    · exact hT r (by simp)
    · exact hargs.holds T fun u hu => hT u (by simp [hu])
    · refine hcallee.gives.append (.cons (Token.gives_mark hl (by decide)) (hargs.gives.append ?_))
      exact .single (Token.gives_self (by simp [hk']))
  rw [Reader.calls]
  refine spells_accept .leftParen (fun l rest hr hl => ?_) fun _ => spells_pure fun w₀ hcallee => ?_
  · rw [if_pos rfl]
    refine spells_sees .rightParen (fun t rest hr _ => ?_) fun _ => ?_
    · refine (close [] _).mono fun w e _ he w₀ hcallee => ?_
      exact he l w₀ [] hl hcallee ⟨List.forall_mem_nil _, fun _ _ => trivial, .nil⟩ (Nat.zero_le _)
    · refine (h.arguments [] _).bind fun args s₁ _ _ => ?_
      refine (close args s₁).mono fun w e _ he w₁ hargs w₀ hcallee => ?_
      obtain ⟨hall, hfew⟩ := hargs [] ⟨List.forall_mem_nil _, fun _ _ => trivial, .nil⟩
      exact he l w₀ w₁ hl hcallee hall hfew
  · rw [List.append_nil]
    exact hcallee

/-- The arguments are those before, with a comma after each (`trailed`), and one more. Too many
would have been noted, which is why there are at most as many as the grammar allows. -/
theorem arguments_succ (h : ExpressionSpells setting n) (before : List Expr) (s : State) :
    Spells (Reader.arguments (n + 1) before) setting s fun w args _ =>
      ∀ w₀, SpelledAll w₀ before (trailed (Expr.tokensEach before)) →
        SpelledAll (w₀ ++ w) args (Token.listed (Expr.tokensEach args)) ∧ args.length ≤ maxArity := by
  have next : ∀ s₁, Spells (do let arg ← Reader.expression n
                               if ← accept .comma then Reader.arguments n (before ++ [arg])
                               else return before ++ [arg]) setting s₁ fun w args _ =>
      ∀ w₀, before.length < maxArity → SpelledAll w₀ before (trailed (Expr.tokensEach before)) →
        SpelledAll (w₀ ++ w) args (Token.listed (Expr.tokensEach args)) ∧ args.length ≤ maxArity := by
    intro s₁
    refine (h.expression s₁).bind fun arg s₂ _ _ => ?_
    refine spells_accept .comma (fun c rest hr hc => ?_) fun _ => spells_pure ?_
    · rw [if_pos rfl]
      refine (h.arguments _ _).mono fun w args _ hargs w₁ harg w₀ _ hbefore => ?_
      have hmore := (hbefore.snoc harg).comma hc
      rw [← trailed_append, ← tokensEach_append] at hmore
      obtain ⟨hall, hfew⟩ := hargs _ hmore
      simp only [List.append_assoc, List.singleton_append] at hall
      exact ⟨hall, hfew⟩
    · intro w₁ harg w₀ hshort hbefore
      have hall := hbefore.snoc harg
      rw [← listed_append, ← tokensEach_append] at hall
      rw [List.append_nil, List.length_append, List.length_singleton]
      exact ⟨hall, hshort⟩
  rw [Reader.arguments]
  split
  · exact spells_look (spells_note fun s₁ _ _ => (next s₁).mono fun _ _ _ _ => trivial)
  next hshort =>
    exact (next s).mono fun w args _ hargs w₀ hbefore => hargs w₀ (Nat.lt_of_not_le hshort) hbefore

theorem zero : ExpressionSpells setting 0 where
  expression _ := spells_none rfl
  operation _ _ _ := spells_none rfl
  operators _ _ _ := spells_none rfl
  unary _ := spells_none rfl
  calls _ _ := spells_none rfl
  arguments _ _ := spells_none rfl

end ExpressionSpells

/-- Every reader of expressions spells what it yields, at every bound. -/
theorem expressionSpells (heof : setting.eof.kind = .eof) (n : Nat) : ExpressionSpells setting n := by
  induction n with
  | zero => exact .zero
  | succ n ih =>
      exact ⟨ih.expression_succ, ih.operation_succ, ih.operators_succ heof, ih.unary_succ heof,
        ih.calls_succ, ih.arguments_succ⟩

end Reader

end Lox
