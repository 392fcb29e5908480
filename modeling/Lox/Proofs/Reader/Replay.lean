/-
Reading the same tokens further down a longer script.

# Replays

A `Replay` puts a reading beside another one: the same tokens, each moved down by `δ` lines, and
after them a tail that the first reading does not have. Where the first reading ends without a
fault, the second one yields the moved tree, takes the same identities, and leaves the tail. A
reading that notes a fault is not looked at.

# Three judgements

Only a look at the next token can tell the two apart, and only where the first reading has no token
left. Three judgements say how a reader avoids that, all of them cases of `Follows`:

- `Copies` asks for nothing.
- `CopiesOpen` speaks of readings that leave a token (or of two that end together), which is how
  expressions end.
- `CopiesTaking` is for readers that cannot do without a first token, which is what a statement's
  last mark is to the expression before it.

# One reader after another

The rules for `do` (`copies_bind`, `open_bind`, `open_bind_taking`) put a reader's judgement
together from those of its parts. They come from one rule, `Follows.bind`: what the first reader
asks of its end has to be shown by the start of the second, or by its end. So an expression, which
asks for a token to be left, and a mark after it, which takes one, together ask for nothing.
-/
import Lox.Proofs.Reader.Progress
import Lox.Proofs.Tree.Moved

namespace Lox.Reader

/-- Two settings in which the same tokens are read, in the second one `δ` lines further down and
before a tail. An `else` would go with an `if` of the tokens before it. -/
structure Replay where
  δ : Int
  tail : List Token
  before : Setting
  after : Setting
  eof : before.eof.kind = .eof
  sameForm : after.form = before.form
  /-- Do the two readings end together? -/
  closed : Prop
  ending : closed → tail = [] ∧ after.eof = before.eof.moved δ
  next : ∀ t rest, tail = t :: rest → t.kind ≠ .else

namespace Replay

variable {α β : Type} {r : Replay} {s : State}

-- ==== The judgements

/-- The state beside a state of the first reading. -/
def state (r : Replay) (s : State) : State :=
  ⟨s.rest.map (Token.moved r.δ) ++ r.tail, s.issued, []⟩

/-- The tree beside an expression. -/
def expr (r : Replay) (e : Expr) : Expr := e.moved fun _ => r.δ

/-- The trees beside a list of expressions. -/
def exprs (r : Replay) (es : List Expr) : List Expr := Expr.movedAll (fun _ => r.δ) es

/-- The tree beside a statement. -/
def stmt (r : Replay) (s : Stmt) : Stmt := s.moved fun _ => r.δ

/-- The trees beside a list of statements. -/
def stmts (r : Replay) (ss : List Stmt) : List Stmt := Stmt.movedAll (fun _ => r.δ) ss

/-- If `x` yields something, it has gone forward from a state where `pre` holds; and if it noted no
fault and `post` holds at its end, then `x'` does the same beside it. -/
def Follows (r : Replay) (pre post : State → Prop) (move : α → α) (x x' : Reader α) (s : State) :
    Prop :=
  ∀ a s₁, x r.before s = (some a, s₁) →
    s.Leads s₁ ∧ pre s ∧
      (s₁.faults = [] → post s₁ → x' r.after (r.state s) = (some (move a), r.state s₁))

/-- Nothing is asked for. -/
abbrev Copies (r : Replay) (move : α → α) (x x' : Reader α) (s : State) : Prop :=
  r.Follows (fun _ => True) (fun _ => True) move x x' s

/-- A token is left at the end, or the two readings end together. -/
abbrev CopiesOpen (r : Replay) (move : α → α) (x x' : Reader α) (s : State) : Prop :=
  r.Follows (fun _ => True) (fun s₁ => s₁.rest ≠ [] ∨ r.closed) move x x' s

/-- A token is there at the start. -/
abbrev CopiesTaking (r : Replay) (move : α → α) (x x' : Reader α) (s : State) : Prop :=
  r.Follows (fun s => s.rest ≠ []) (fun _ => True) move x x' s

/-- What is known of the start may be forgotten. -/
theorem Follows.any {pre post : State → Prop} {move : α → α} {x x' : Reader α}
    (h : r.Follows pre post move x x' s) : r.Follows (fun _ => True) post move x x' s := by
  intro a s₁ hx
  obtain ⟨hleads, -, hcopy⟩ := h a s₁ hx
  exact ⟨hleads, trivial, hcopy⟩

/-- A first token may be forgotten. -/
theorem CopiesTaking.any {move : α → α} {x x' : Reader α} (h : r.CopiesTaking move x x' s) :
    r.Copies move x x' s :=
  Follows.any h

/-- What asks for nothing may be given a token to leave. -/
theorem Copies.opening {move : α → α} {x x' : Reader α} (h : r.Copies move x x' s) :
    r.CopiesOpen move x x' s := by
  intro a s₁ hx
  obtain ⟨hleads, -, hcopy⟩ := h a s₁ hx
  exact ⟨hleads, trivial, fun hf _ => hcopy hf trivial⟩

-- ==== One reader after another

section Bind

variable {move : α → α} {move' : β → β} {x x' : Reader α} {f f' : α → Reader β}

/-- The second reader's start has to show what the first one's end is asked for. -/
theorem Follows.bind {pre pre₁ pre₂ post₁ post₂ : State → Prop}
    (hx : r.Follows pre₁ post₁ move x x' s)
    (hf : ∀ a s₁, x r.before s = (some a, s₁) → s.Leads s₁ →
      r.Follows pre₂ post₂ move' (f a) (f' (move a)) s₁)
    (hpost : ∀ s₁ s₂, s₁.Leads s₂ → pre₂ s₁ → post₂ s₂ → post₁ s₁)
    (hpre : ∀ s₁, s.Leads s₁ → pre₁ s → pre₂ s₁ → pre s) :
    r.Follows pre post₂ move' (x >>= f) (x' >>= f') s := by
  intro b s₂ h
  obtain ⟨a, s₁, hrun, hnext⟩ := run_of_bind h
  obtain ⟨hl₁, hp₁, hcopy₁⟩ := hx a s₁ hrun
  obtain ⟨hl₂, hp₂, hcopy₂⟩ := hf a s₁ hrun hl₁ b s₂ hnext
  refine ⟨hl₁.trans hl₂, hpre s₁ hl₁ hp₁ hp₂, fun hfaults hpost₂ => ?_⟩
  have hnone : s₁.faults = [] := hl₂.faults_nil hfaults
  rw [bind_run (hcopy₁ hnone (hpost s₁ s₂ hl₂ hp₂ hpost₂))]
  exact hcopy₂ hfaults hpost₂

/-- Two readers that ask for nothing. -/
theorem copies_bind (hx : r.Copies move x x' s)
    (hf : ∀ a s₁, s.Leads s₁ → r.Copies move' (f a) (f' (move a)) s₁) :
    r.Copies move' (x >>= f) (x' >>= f') s :=
  Follows.bind hx (fun a s₁ _ => hf a s₁) (fun _ _ _ _ _ => trivial) fun _ _ _ _ => trivial

/-- What is left after the second reader was left after the first. -/
theorem open_bind_run (hx : r.CopiesOpen move x x' s)
    (hf : ∀ a s₁, x r.before s = (some a, s₁) → s.Leads s₁ →
      r.CopiesOpen move' (f a) (f' (move a)) s₁) :
    r.CopiesOpen move' (x >>= f) (x' >>= f') s := by
  refine Follows.bind hx hf (fun s₁ s₂ hl _ hleft => ?_) fun _ _ _ _ => trivial
  refine hleft.imp_left fun hne hnil => hne ?_
  exact List.suffix_nil.mp (hnil ▸ hl.rest)

/-- Two readers, of which the second leaves a token. -/
theorem open_bind (hx : r.CopiesOpen move x x' s)
    (hf : ∀ a s₁, s.Leads s₁ → r.CopiesOpen move' (f a) (f' (move a)) s₁) :
    r.CopiesOpen move' (x >>= f) (x' >>= f') s :=
  open_bind_run hx fun a s₁ _ => hf a s₁

/-- The second reader's first token is left by the first reader. -/
theorem open_bind_taking (hx : r.CopiesOpen move x x' s)
    (hf : ∀ a s₁, s.Leads s₁ → r.CopiesTaking move' (f a) (f' (move a)) s₁) :
    r.CopiesTaking move' (x >>= f) (x' >>= f') s := by
  refine Follows.bind hx (fun a s₁ _ => hf a s₁) (fun s₁ s₂ _ htaken _ => .inl htaken)
    fun s₁ hl _ htaken hnil => ?_
  exact htaken (List.suffix_nil.mp (hnil ▸ hl.rest))

end Bind

-- ==== The readers that look at no token

theorem pure_copies {move : α → α} {a a' : α} (h : a' = move a) :
    r.Copies move (pure a) (pure a') s := by
  intro b s₁ hx
  obtain ⟨ha, rfl⟩ := Prod.mk.inj hx
  obtain rfl := Option.some.inj ha
  exact ⟨.refl _, trivial, fun _ _ => by rw [h]; rfl⟩

/-- The same identity is taken. -/
theorem fresh_copies : r.Copies id fresh fresh s := by
  intro id s₁ hx
  obtain ⟨hid, rfl⟩ := Prod.mk.inj hx
  obtain rfl := Option.some.inj hid
  exact ⟨.fresh, trivial, fun _ _ => rfl⟩

/-- A node takes the next identity. -/
theorem made_copies {move : α → α} {make make' : Nat → α} (h : ∀ id, make' id = move (make id)) :
    r.Copies move (do return make (← fresh)) (do return make' (← fresh)) s :=
  copies_bind fresh_copies fun id _ _ => pure_copies (h id)

/-- The form is the same further down. -/
theorem form_copies : r.Copies id form form s := by
  intro loops s₁ hx
  obtain ⟨hform, rfl⟩ := Prod.mk.inj hx
  obtain rfl := Option.some.inj hform
  refine ⟨.refl _, trivial, fun _ _ => ?_⟩
  unfold form
  rw [r.sameForm]
  rfl

/-- A reading that notes a fault is not looked at. -/
theorem note_copies (t t' : Token) (p : ParseProblem) : r.Copies id (note t p) (note t' p) s := by
  intro _ s₁ hx
  obtain ⟨-, rfl⟩ := Prod.mk.inj hx
  exact ⟨.note _, trivial, fun hnone => absurd hnone (by simp)⟩

/-- A reading that gives up is not looked at. -/
theorem stop_copies {pre post : State → Prop} {move : α → α} {x' : Reader α} :
    r.Follows pre post move stop x' s :=
  fun _ _ hx => nomatch (Prod.mk.inj hx).1

theorem fail_copies {pre post : State → Prop} {move : α → α} {x' : Reader α} (p : ParseProblem) :
    r.Follows pre post move (fail p) x' s :=
  fun _ _ hx => nomatch (Prod.mk.inj hx).1

-- ==== The readers that look at the next token

/-- The next token, where the state beside still has the same one. -/
theorem headD_state (h : s.rest ≠ [] ∨ r.closed) :
    (r.state s).rest.headD r.after.eof = (s.rest.headD r.before.eof).moved r.δ := by
  unfold state
  cases hr : s.rest with
  | cons t rest => rfl
  | nil =>
      obtain ⟨htail, hending⟩ := r.ending (h.resolve_left fun hne => hne hr)
      simpa [htail] using hending

/-- The next token is the same, moved down, if there is one. -/
theorem peek_open : r.CopiesOpen (Token.moved r.δ) peek peek s := by
  intro t s₁ hx
  obtain ⟨ht, rfl⟩ := Prod.mk.inj hx
  obtain rfl := Option.some.inj ht
  refine ⟨.refl _, trivial, fun _ hleft => ?_⟩
  unfold peek
  rw [headD_state hleft]

/-- The next token is taken on both sides. -/
theorem skip_open : r.CopiesOpen id skip skip s := by
  intro _ s₁ hx
  obtain ⟨-, rfl⟩ := Prod.mk.inj hx
  refine ⟨⟨List.tail_suffix _, Nat.le_refl _, List.prefix_refl _⟩, trivial, fun _ hleft => ?_⟩
  unfold skip state
  cases hr : s.rest with
  | cons t rest => rfl
  | nil =>
      have htail := (r.ending (hleft.resolve_left fun hne => hne (by rw [hr]; rfl))).1
      simp [htail]

/-- A token has the same kind further down. -/
theorem sees_open (kind : Kind) : r.CopiesOpen id (sees kind) (sees kind) s := by
  intro b s₁ hx
  obtain ⟨hb, rfl⟩ := Prod.mk.inj hx
  refine ⟨.refl _, trivial, fun _ hleft => ?_⟩
  rw [id_eq, ← hb]
  unfold sees state
  cases hr : s.rest with
  | cons t rest => rfl
  | nil =>
      have htail := (r.ending (hleft.resolve_left fun hne => hne hr)).1
      simp [htail]

/-- If a token is left, neither reading is at its end. -/
theorem atEnd_open : r.CopiesOpen id atEnd atEnd s := by
  intro b s₁ hx
  obtain ⟨hb, rfl⟩ := Prod.mk.inj hx
  refine ⟨.refl _, trivial, fun _ hleft => ?_⟩
  rw [id_eq, ← hb]
  unfold atEnd state
  cases hr : s.rest with
  | cons t rest => rfl
  | nil =>
      have htail := (r.ending (hleft.resolve_left fun hne => hne hr)).1
      simp [htail]

/-- A token of the kind is taken on both sides, or on neither. -/
theorem accept_open (kind : Kind) : r.CopiesOpen id (accept kind) (accept kind) s := by
  unfold accept
  refine open_bind (sees_open kind) fun found s₁ _ => ?_
  cases found with
  | true => exact open_bind skip_open fun _ _ _ => (pure_copies rfl).opening
  | false => exact (pure_copies rfl).opening

/-- What is expected is there, so that no tail is looked at. -/
theorem expect_bind {post : State → Prop} {move : β → β} {kind : Kind} {problem : ParseProblem}
    {f f' : Token → Reader β}
    (hf : ∀ t rest, s.rest = t :: rest → t.kind = kind →
      r.Follows (fun _ => True) post move (f t) (f' (t.moved r.δ)) { s with rest := rest }) :
    r.Follows (fun s => s.rest ≠ []) post move (expect kind problem >>= f)
      (expect kind problem >>= f') s := by
  intro b s₂ h
  rcases front_cases s kind with ⟨t, rest, hr, hk⟩ | hother
  · rw [bind_run (expect_run_found hr hk)] at h
    obtain ⟨hleads, -, hcopy⟩ := hf t rest hr hk b s₂ h
    refine ⟨(State.Leads.skip hr).trans hleads, by simp [hr], fun hnone hpost => ?_⟩
    have hr' : (r.state s).rest = t.moved r.δ :: (r.state { s with rest := rest }).rest := by
      simp [state, hr]
    rw [bind_run (expect_run_found hr' hk)]
    exact hcopy hnone hpost
  · rw [bind_stopped (expect_run_missing hother)] at h
    cases h

end Replay

end Lox.Reader
