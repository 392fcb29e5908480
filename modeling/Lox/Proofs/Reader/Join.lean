/-
The tree of two scripts with a line feed between them.

# What is shown

If both scripts are read without a fault, then the two together are read without one, as the
statements of the first and after them those of the second, moved down by the lines of the first
(`parse_join`). The identities go on from one script to the next, as they do when the scripts are
read one after the other.

# How

The first part is a replay with a tail, the second one a replay that ends where the script does.
Between them stands the one place where the reader of the whole goes on and the reader of the first
script stops: at the end of the first script's declarations. There the reader of the whole has used
up some of its bound, but no more than a call for each declaration, and each declaration took a
token; so what is left is enough for the tail (`declarations_before`, by induction on the bound).

A replay with a tail asks one thing of the tail: that it does not start with an `else`, which an
`if` at the end of the first script would take as its own. No script that is read without a fault
starts with an `else` (`declarations_else`), since no expression starts with one.
-/
import Lox.Proofs.Reader.ReplayStatement
import Lox.Proofs.Reader.Parse

namespace Lox

namespace Reader

variable {setting : Setting} {s s₁ : State} {n n' : Nat}

-- ==== Top-level declarations, one after the other

/-- At the end there are no more declarations. -/
theorem declarations_end (hr : s.rest = []) :
    declarations (n + 1) false setting s = (some [], s) := by
  simp [declarations, Bind.bind, Pure.pure, atEnd, hr]

/-- Before the end there is a first declaration, and then the others. -/
theorem declarations_next (hr : s.rest ≠ []) :
    declarations (n + 1) false setting s
      = (do let first ← recover (declaration n)
            let others ← declarations n false
            return first.toList ++ others) setting s := by
  rw [declarations]
  simp [Bind.bind, atEnd, hr]

/-- The reader of the whole has read the first script's declarations and stands before the tail. Each
declaration took a token, so what is left of the bound is enough for the tail. -/
theorem declarations_before {r : Replay} {program : List Stmt} (hn : n ≤ n')
    (hroom : 10 * s.rest.length + 7 ≤ n)
    (hrun : declarations n false r.before s = (some program, s₁)) (hclean : s₁.faults = []) :
    s₁.rest = [] ∧ ∃ m, n' ≤ m + s.rest.length ∧
      declarations n' false r.after (r.state s)
        = (do let others ← declarations m false
              return r.stmts program ++ others) r.after (r.state s₁) := by
  induction n generalizing n' s program with
  | zero => exact absurd hroom (by omega)
  | succ n ih =>
      obtain ⟨k, rfl⟩ : ∃ k, n' = k + 1 := ⟨n' - 1, by omega⟩
      by_cases hr : s.rest = []
      · rw [declarations_end hr] at hrun
        obtain ⟨hprogram, rfl⟩ := Prod.mk.inj hrun
        obtain rfl := Option.some.inj hprogram
        refine ⟨hr, k + 1, Nat.le_add_right _ _, ?_⟩
        simp only [Bind.bind]
        rcases declarations (k + 1) false r.after (r.state s) with ⟨_ | others, s₂⟩ <;> rfl
      · have hr' : (r.state s).rest ≠ [] := by simp [Replay.state, hr]
        have hle : n ≤ k := Nat.le_of_succ_le_succ hn
        rw [declarations_next hr] at hrun
        obtain ⟨first, s₂, hfirst, hrun⟩ := run_of_bind hrun
        obtain ⟨others, s₃, hothers, hrun⟩ := run_of_bind hrun
        obtain ⟨hprogram, rfl⟩ := Prod.mk.inj hrun
        obtain rfl := Option.some.inj hprogram
        obtain ⟨hl₂, -, hcopy⟩ :=
          (statementCopies r hle).recover_copies (by omega) first s₂ hfirst
        have hshort := recover_shorter r.eof hr hfirst
        have hl₃ := (((statementReaders n).declarations false r.before s₂ r.eof).result
          hothers).1.leads
        obtain ⟨hend, m, hm, hrest⟩ := ih hle (by omega) hothers
        refine ⟨hend, m, by omega, ?_⟩
        rw [declarations_next hr', bind_run (hcopy (hl₃.faults_nil hclean) trivial)]
        simp only [Bind.bind] at hrest ⊢
        rw [hrest]
        rcases declarations m false r.after (r.state s₃) with ⟨_ | more, s₄⟩
        · rfl
        · cases first <;> simp [Pure.pure, Replay.stmts, Replay.stmt, Stmt.movedAll]

-- ==== No script starts with an `else`

/-- No declaration starts with an `else` or a closing brace. -/
theorem declaration_misplaced {t : Token} {rest : List Token} (hr : s.rest = t :: rest)
    (hk : t.kind = .else ∨ t.kind = .rightBrace) :
    declaration (n + 5) setting s
      = (none, { s with faults := s.faults ++ [⟨t, .noExpression⟩] }) := by
  have hprimary : ∀ x, primary x setting s
      = (none, { s with faults := s.faults ++ [⟨t, .noExpression⟩] }) := by
    intro x
    rcases hk with hk | hk <;> simp [primary, Bind.bind, peek, fail, note, stop, hr, hk]
  have hunary : unary (n + 1) setting s
      = (none, { s with faults := s.faults ++ [⟨t, .noExpression⟩] }) := by
    rw [unary]
    rcases hk with hk | hk <;> simp [Bind.bind, peek, hr, hk, hprimary]
  have hexpression : expression (n + 3) setting s
      = (none, { s with faults := s.faults ++ [⟨t, .noExpression⟩] }) := by
    rw [expression, operation]
    simp [Bind.bind, hunary]
  rw [declaration, statement]
  rcases hk with hk | hk <;> simp [Bind.bind, peek, hr, hk, expressionStatement, hexpression]

/-- Reading an `else` first notes a fault. -/
theorem declarations_else {t : Token} {rest : List Token} {program : List Stmt}
    (heof : setting.eof.kind = .eof) (hr : s.rest = t :: rest)
    (hrun : declarations (n + 6) false setting s = (some program, s₁)) (hclean : s₁.faults = []) :
    t.kind ≠ .else := by
  intro hk
  have hne : s.rest ≠ [] := by simp [hr]
  rw [declarations_next hne] at hrun
  obtain ⟨first, s₂, hfirst, hrun⟩ := run_of_bind hrun
  obtain ⟨others, s₃, hothers, hrun⟩ := run_of_bind hrun
  obtain ⟨-, rfl⟩ := Prod.mk.inj hrun
  unfold recover at hfirst
  rw [declaration_misplaced hr (.inl hk)] at hfirst
  obtain ⟨-, rfl⟩ := Prod.mk.inj hfirst
  have hl := (((statementReaders (n + 5)).declarations false setting _ heof).result
    hothers).1.leads
  have hnone := hl.faults_nil hclean
  simp at hnone

end Reader

-- ==== The two scripts

variable {issued : Nat} {form : LoopForm}

/-- The two scripts together give the statements of both, in order and with the same identities; the
second script's are moved down. -/
theorem parse_join {a b : Bytes} (hscan : (scan a).diagnostics = [])
    (ha : (parse (scan a).tokens issued form).diagnostics = [])
    (hb : (parse (scan b).tokens (parse (scan a).tokens issued form).issued form).diagnostics = []) :
    parse (scan (joined a b)).tokens issued form
      = ⟨(parse (scan a).tokens issued form).program ++ Stmt.movedAll (fun _ => linesOf a)
            (parse (scan b).tokens (parse (scan a).tokens issued form).issued form).program, [],
          (parse (scan b).tokens (parse (scan a).tokens issued form).issued form).issued⟩ := by
  obtain ⟨sa, hruna, hcleana, hissueda⟩ := parse_clean ha
  obtain ⟨sb, hrunb, hcleanb, hissuedb⟩ := parse_clean hb
  have hbody := body_join b hscan
  have hnext : ∀ t rest, (Token.body (scan b).tokens).map (Token.moved (linesOf a)) = t :: rest →
      t.kind ≠ .else := by
    intro t rest ht
    obtain ⟨t', rest', hr, rfl, -⟩ := List.map_eq_cons_iff.mp ht
    show t'.kind ≠ .else
    exact Reader.declarations_else (Token.ending_kind _) hr hrunb hcleanb
  let first : Reader.Replay :=
    { δ := 0
      tail := (Token.body (scan b).tokens).map (Token.moved (linesOf a))
      before := ⟨Token.ending (scan a).tokens, form⟩
      after := ⟨Token.ending (scan (joined a b)).tokens, form⟩
      eof := Token.ending_kind _
      sameForm := rfl
      closed := False
      ending := False.elim
      next := hnext }
  let second : Reader.Replay :=
    { δ := linesOf a
      tail := []
      before := ⟨Token.ending (scan b).tokens, form⟩
      after := ⟨Token.ending (scan (joined a b)).tokens, form⟩
      eof := Token.ending_kind _
      sameForm := rfl
      closed := True
      ending := fun _ => ⟨rfl, ending_join a b⟩
      next := fun _ _ h => nomatch h }
  have hlen : (Token.body (scan (joined a b)).tokens).length
      = (Token.body (scan a).tokens).length + (Token.body (scan b).tokens).length := by
    rw [hbody, List.length_append, List.length_map]
  have hgrows : Reader.depthBound (Token.body (scan a).tokens).length
      ≤ Reader.depthBound (Token.body (scan (joined a b)).tokens).length := by
    simp only [Reader.depthBound, hlen]
    omega
  -- the first script's declarations, up to its end
  obtain ⟨hend, m, hm, hrest⟩ := Reader.declarations_before (r := first) hgrows
    (by dsimp only [Reader.depthBound]; omega) hruna hcleana
  have hstart : first.state ⟨Token.body (scan a).tokens, issued, []⟩
      = ⟨Token.body (scan (joined a b)).tokens, issued, []⟩ := by
    simp only [Reader.Replay.state, first, Token.map_moved_zero, hbody]
  -- and from there the second script's
  have hmid : first.state sa
      = second.state ⟨Token.body (scan b).tokens, (parse (scan a).tokens issued form).issued, []⟩ := by
    simp [Reader.Replay.state, first, second, hend, hissueda]
  have hbound : Reader.depthBound (Token.body (scan b).tokens).length ≤ m := by
    simp only [Reader.depthBound, hlen] at hm ⊢
    omega
  obtain ⟨-, -, hcopy⟩ := (Reader.statementCopies second hbound).declarations false _
    (by dsimp only [Reader.depthBound]; omega) _ _ hrunb
  rw [hstart, hmid, Reader.bind_run (hcopy hcleanb (.inr trivial))] at hrest
  have hfirst : first.stmts (parse (scan a).tokens issued form).program
      = (parse (scan a).tokens issued form).program := Stmt.movedAll_unmoved _
  rw [hfirst] at hrest
  exact (parse_of_run hrest rfl).trans (by rw [← hissuedb]; rfl)

end Lox
