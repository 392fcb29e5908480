/-
A declaration that cannot be read does not harm what follows it.

# What is shown

Take tokens that end with their only semicolon, and in which no other statement begins
(`Token.OneStatement`). If nothing of them can be read, then before any other tokens they are
dropped just so: the program is that of the other tokens, and the diagnostics are those of the one
and then those of the other (`recovery_is_local`).

# Up to the semicolon

If the tokens cannot be read as a declaration, the reader gives up before the semicolon: whatever
takes the semicolon is complete with it (`Cut.Ends`). For expressions it is known that they are read
alike up to there (`Cut.Alike`), and a statement is expressions, a few tokens and the semicolon. An
`if` would look for an `else` after it; in the first script there is nothing after it, so if its
branch was read it is complete. A `for` has semicolons inside and a block may have any number of
them, so there is neither.

# After it

Up to there the reader has seen nothing of what follows, so it gives up at the same place with any
tokens after the semicolon, and the tokens that are dropped end with the semicolon (`resume_past`):
no token before it begins a statement, but for the first, which is always gone over. From there on
the reading is that of the other tokens alone, but for the identities taken and the faults noted
before (`Later`). The bound on the depth of calls is larger for the longer script, which changes
nothing (`parse_of_bound`).
-/
import Lox.Proofs.Reader.Alike
import Lox.Proofs.Reader.Join
import Lox.Proofs.Reader.Later
import Lox.Proofs.Reader.Position

namespace Lox

namespace Reader

-- ==== Where reading goes on

/-- None of the tokens ends a statement or begins one. -/
def Inner (u : List Token) : Prop :=
  ∀ t ∈ u, t.kind ≠ .semicolon ∧ t.kind ≠ .leftBrace ∧ t.kind.startsStatement = false

/-- So it is with the tokens that are left. -/
theorem Inner.of_suffix {u v : List Token} (h : Inner u) (hv : v <:+ u) : Inner v :=
  fun t ht => h t (hv.subset ht)

/-- There is no semicolon among them. -/
theorem Inner.no_semicolon {u : List Token} (h : Inner u) : ∀ t ∈ u, t.kind ≠ .semicolon :=
  fun t ht => (h t ht).1

/-- The tokens of one statement, before its semicolon: only the first may begin it. -/
structure Single (u : List Token) : Prop where
  first : ∀ t ∈ u, t.kind ≠ .semicolon ∧ t.kind ≠ .leftBrace ∧ t.kind ≠ .for
  inner : Inner u.tail

/-- The tokens that are left of a statement. -/
theorem Single.of_suffix {u v : List Token} (h : Single u) (hv : v <:+ u) : Single v := by
  refine ⟨fun t ht => h.first t (hv.subset ht), ?_⟩
  cases u with
  | nil =>
      rw [List.suffix_nil.mp hv]
      exact h.inner
  | cons t u =>
      rcases List.suffix_cons_iff.mp hv with rfl | hv
      · exact h.inner
      · exact h.inner.of_suffix ((List.tail_suffix v).trans hv)

/-- The tokens up to the semicolon are dropped, and those after it are left. -/
theorem resume_past {semicolon : Token} (hk : semicolon.kind = .semicolon) (rest : List Token)
    {u : List Token} (h : Single u) : resume (u ++ semicolon :: rest) = rest := by
  induction u with
  | nil => exact Cursor.resume_semicolon hk rest
  | cons t u ih =>
      have ht := (h.first t List.mem_cons_self).1
      have hnext := ih (h.of_suffix (List.suffix_cons t u))
      cases u with
      | nil =>
          show (if t.kind = .semicolon then _ else
            if semicolon.kind.startsStatement then _ else resume (semicolon :: rest)) = rest
          rw [if_neg ht, hk]
          exact hnext
      | cons t' u =>
          have ht' := (h.inner t' List.mem_cons_self).2.2
          show (if t.kind = .semicolon then _ else
            if t'.kind.startsStatement then _ else resume (t' :: u ++ semicolon :: rest)) = rest
          rw [if_neg ht, ht']
          exact hnext

-- ==== Up to the semicolon, and with it

namespace Cut

variable {α β : Type} {c : Cut} {u v : List Token}

/-- The reader takes the semicolon in the first script and is done, or gives up in both scripts before
the same token and with the same faults. -/
def Ends (c : Cut) (x : Reader α) (u : List Token) : Prop :=
  ∀ issued faults,
    (∃ a s, x c.before (c.left u issued faults) = (some a, s) ∧ s.rest = c.leftRest) ∨
      ∃ v issued' faults', v <:+ u ∧
        x c.before (c.left u issued faults) = (none, c.left v issued' faults') ∧
          x c.after (c.right u issued faults) = (none, c.right v issued' faults')

/-- Both give up at once. -/
theorem ends_stop : c.Ends (stop : Reader α) u :=
  fun issued faults => .inr ⟨u, issued, faults, List.suffix_refl u, rfl, rfl⟩

/-- What is read alike comes before. -/
theorem Alike.ends {x : Reader α} {g : α → Reader β} (hx : c.Alike x u)
    (hg : ∀ a v, v <:+ u → c.Ends (g a) v) : c.Ends (x >>= g) u := by
  intro issued faults
  obtain ⟨o, v, issued₁, faults₁, hv, hrun, hrun'⟩ := hx issued faults
  cases o with
  | none => exact .inr ⟨v, issued₁, faults₁, hv, bind_stopped hrun, bind_stopped hrun'⟩
  | some a =>
      rw [bind_run hrun, bind_run hrun']
      rcases hg a v hv issued₁ faults₁ with hdone | ⟨w, issued₂, faults₂, hw, hnone, hnone'⟩
      · exact .inl hdone
      · exact .inr ⟨w, issued₂, faults₂, hw.trans hv, hnone, hnone'⟩

/-- What comes after the semicolon always succeeds. -/
theorem Ends.bind {x : Reader α} {g : α → Reader β} (hx : c.Ends x u)
    (hg : ∀ a s, s.rest = c.leftRest →
      ∃ b s', g a c.before s = (some b, s') ∧ s'.rest = c.leftRest) : c.Ends (x >>= g) u := by
  intro issued faults
  rcases hx issued faults with ⟨a, s, hrun, hs⟩ | ⟨v, issued', faults', hv, hrun, hrun'⟩
  · rw [bind_run hrun]
    exact .inl (hg a s hs)
  · exact .inr ⟨v, issued', faults', hv, bind_stopped hrun, bind_stopped hrun'⟩

/-- Both look at the same token. -/
theorem ends_peek {g : Token → Reader α} (h : c.Ends (g (c.front u)) u) : c.Ends (peek >>= g) u := by
  intro issued faults
  obtain ⟨rest, hr⟩ := c.left_front u issued faults
  obtain ⟨rest', hr'⟩ := c.right_front u issued faults
  rw [bind_run peek_run, bind_run peek_run, hr, hr']
  exact h issued faults

/-- Going over a token before the semicolon. -/
theorem ends_skip {g : Unit → Reader α} {t : Token} (h : c.Ends (g ()) v) :
    c.Ends (skip >>= g) (t :: v) := by
  intro issued faults
  rcases h issued faults with hdone | ⟨w, issued', faults', hw, hnone, hnone'⟩
  · exact .inl hdone
  · exact .inr ⟨w, issued', faults', hw.trans (List.suffix_cons t v), hnone, hnone'⟩

/-- Where a token is missing, both readings note that and give up. -/
theorem ends_missing {g : Token → Reader α} {kind : Kind} (hk : (c.front u).kind ≠ kind)
    (problem : ParseProblem) : c.Ends (expect kind problem >>= g) u := by
  have hfail : c.Ends (fail problem : Reader α) u :=
    ends_peek ((alike_note _ problem).ends fun _ _ _ => ends_stop)
  intro issued faults
  rw [bind_stopped (expect_run_missing (left_missing hk issued faults)),
    bind_stopped (expect_run_missing (right_missing hk issued faults))]
  exact hfail issued faults

/-- The semicolon itself. -/
theorem ends_semicolon {g : Token → Reader α} (problem : ParseProblem)
    (hu : ∀ t ∈ u, t.kind ≠ .semicolon)
    (hg : ∀ t s, s.rest = c.leftRest →
      ∃ a s', g t c.before s = (some a, s') ∧ s'.rest = c.leftRest) :
    c.Ends (expect .semicolon problem >>= g) u := by
  cases u with
  | cons t u => exact ends_missing (u := t :: u) (hu t List.mem_cons_self) problem
  | nil =>
      intro issued faults
      rw [bind_run (expect_run_found (s := c.left [] issued faults) rfl c.isSemicolon)]
      exact .inl (hg _ _ rfl)

/-- The semicolon, and a node that is made after it. -/
theorem ends_made {make : Token → Nat → α} (problem : ParseProblem)
    (hu : ∀ t ∈ u, t.kind ≠ .semicolon) :
    c.Ends (do let t ← expect .semicolon problem; return make t (← fresh)) u :=
  ends_semicolon problem hu fun _ _ hs => ⟨_, _, rfl, hs⟩

-- ==== Statements

variable {expression : Reader Expr} {statement : Reader Stmt}

/-- An expression and the semicolon. -/
theorem ends_expressionStatement (he : ∀ v, c.Alike expression v)
    (hu : ∀ t ∈ u, t.kind ≠ .semicolon) : c.Ends (expressionStatement expression) u :=
  (he u).ends fun _ _ hv => ends_made _ fun t ht => hu t (hv.subset ht)

theorem ends_printStatement (he : ∀ v, c.Alike expression v)
    (hu : ∀ t ∈ u, t.kind ≠ .semicolon) : c.Ends (printStatement expression) u :=
  (he u).ends fun _ _ hv => ends_made _ fun t ht => hu t (hv.subset ht)

/-- A `return` statement, with or without a value. -/
theorem ends_returnStatement (keyword : Token) (he : ∀ v, c.Alike expression v)
    (hu : ∀ t ∈ u, t.kind ≠ .semicolon) : c.Ends (returnStatement keyword expression) u := by
  refine (alike_sees _).ends fun found v hv => ?_
  have hv : ∀ t ∈ v, t.kind ≠ .semicolon := fun t ht => hu t (hv.subset ht)
  cases found with
  | true => exact ends_made _ hv
  | false => exact (he v).ends fun _ _ hw => ends_made _ fun t ht => hv t (hw.subset ht)

/-- A variable declaration, with or without an initializer. -/
theorem ends_varDeclaration (he : ∀ v, c.Alike expression v)
    (hu : ∀ t ∈ u, t.kind ≠ .semicolon) : c.Ends (varDeclaration expression) u := by
  refine (alike_expect Kind.noConfusion _).ends fun name v hv => ?_
  refine (alike_accept Kind.noConfusion).ends fun found w hw => ?_
  have hw : ∀ t ∈ w, t.kind ≠ .semicolon := fun t ht => hu t (hv.subset (hw.subset ht))
  cases found with
  | true => exact (he w).ends fun _ _ hw' => ends_made _ fun t ht => hw t (hw'.subset ht)
  | false => exact ends_made _ hw

/-- There is no body, since there is no brace before the semicolon. So a function declaration is
always given up, at the latest where its body would begin. -/
theorem ends_functionDeclaration {params : Reader (List Token)} {block : Reader (List Stmt)}
    (hparams : ∀ v, c.Alike params v) (hu : ∀ t ∈ u, t.kind ≠ .leftBrace) :
    c.Ends (functionDeclaration params block) u := by
  have body : ∀ {v : List Token} (name : Token) (params : List Token), v <:+ u →
      c.Ends (do let _ ← expect .rightParen .unclosedParameters
                 let _ ← expect .leftBrace .unopenedBody
                 let body ← block
                 return Stmt.function (← fresh) name params body) v := by
    intro v name params hv
    refine (alike_expect Kind.noConfusion _).ends fun _ w hw => ends_missing ?_ _
    cases w with
    | nil =>
        rw [front_nil, c.isSemicolon]
        exact Kind.noConfusion
    | cons t w => exact hu t (hv.subset (hw.subset List.mem_cons_self))
  refine (alike_expect Kind.noConfusion _).ends fun name v hv => ?_
  refine (alike_expect Kind.noConfusion _).ends fun _ w hw => ?_
  refine (alike_sees _).ends fun found w' hw' => ?_
  have hsuffix := (hw'.trans hw).trans hv
  cases found with
  | true => exact body name [] hsuffix
  | false => exact (hparams w').ends fun params _ h => body name params (h.trans hsuffix)

/-- A `while` statement ends with its body. -/
theorem ends_whileStatement (he : ∀ v, c.Alike expression v)
    (hs : ∀ v, v <:+ u → c.Ends statement v) : c.Ends (whileStatement expression statement) u := by
  refine (alike_expect Kind.noConfusion _).ends fun _ v hv => ?_
  refine (he v).ends fun condition w hw => ?_
  refine (alike_expect Kind.noConfusion _).ends fun _ w' hw' => ?_
  exact (hs w' ((hw'.trans hw).trans hv)).bind fun body s hrest => ⟨_, _, rfl, hrest⟩

/-- After the semicolon the first script has nothing more, so no `else` either. -/
theorem ends_ifStatement (hend : c.leftRest = []) (he : ∀ v, c.Alike expression v)
    (hs : ∀ v, v <:+ u → c.Ends statement v) : c.Ends (ifStatement expression statement) u := by
  refine (alike_expect Kind.noConfusion _).ends fun _ v hv => ?_
  refine (he v).ends fun condition w hw => ?_
  refine (alike_expect Kind.noConfusion _).ends fun _ w' hw' => ?_
  refine (hs w' ((hw'.trans hw).trans hv)).bind fun positive s hrest => ?_
  have hmissing : ∀ t rest, s.rest = t :: rest → t.kind ≠ .else := by
    intro t rest hr
    rw [hrest, hend] at hr
    cases hr
  rw [bind_run (accept_run_missing hmissing)]
  exact ⟨_, _, rfl, hrest⟩

/-- What begins no statement of its own is read as an expression. There is no semicolon in it, so
that it ends with the one that follows or is given up before it. -/
theorem ends_statement_inner (n : Nat) (hu : Inner u) : c.Ends (Reader.statement n) u := by
  cases n with
  | zero => exact ends_stop
  | succ n =>
      have hfront : (c.front u).kind ≠ .leftBrace ∧ (c.front u).kind.startsStatement = false := by
        cases u with
        | nil =>
            rw [front_nil, c.isSemicolon]
            exact ⟨Kind.noConfusion, rfl⟩
        | cons t u => exact (hu t List.mem_cons_self).2
      have hexpression : c.Ends (expressionStatement (Reader.expression n)) u :=
        ends_expressionStatement (alike_expression n) hu.no_semicolon
      refine ends_peek ?_
      revert hfront
      cases (c.front u).kind with
      | leftBrace => exact fun h => absurd rfl h.1
      | «for» => exact fun h => Bool.noConfusion h.2
      | «if» => exact fun h => Bool.noConfusion h.2
      | print => exact fun h => Bool.noConfusion h.2
      | «return» => exact fun h => Bool.noConfusion h.2
      | «while» => exact fun h => Bool.noConfusion h.2
      | _ => exact fun _ => hexpression

/-- A statement takes the semicolon and is done, or gives up before it. There is neither a block nor
a `for` statement to begin here, and what stands inside begins no statement of its own. -/
theorem ends_statement (hend : c.leftRest = []) (n : Nat) (hu : Single u) :
    c.Ends (Reader.statement n) u := by
  cases n with
  | zero => exact ends_stop
  | succ n =>
      have hsemicolon : ∀ t ∈ u, t.kind ≠ .semicolon := fun t ht => (hu.first t ht).1
      cases u with
      | nil => exact ends_statement_inner (n + 1) hu.inner
      | cons t v =>
          obtain ⟨-, hbrace, hfor⟩ := hu.first t List.mem_cons_self
          have hv : ∀ t ∈ v, t.kind ≠ .semicolon := fun t ht => hsemicolon t (List.mem_cons_of_mem _ ht)
          have hinner : ∀ w, w <:+ v → c.Ends (Reader.statement n) w :=
            fun w hw => ends_statement_inner n (Inner.of_suffix (u := v) hu.inner hw)
          have hexpression : c.Ends (expressionStatement (Reader.expression n)) (t :: v) :=
            ends_expressionStatement (alike_expression n) hsemicolon
          refine ends_peek ?_
          rw [front_cons]
          revert hbrace hfor
          cases t.kind with
          | leftBrace => exact fun h _ => absurd rfl h
          | «for» => exact fun _ h => absurd rfl h
          | «if» =>
              exact fun _ _ => ends_skip (ends_ifStatement hend (alike_expression n) hinner)
          | print => exact fun _ _ => ends_skip (ends_printStatement (alike_expression n) hv)
          | «return» => exact fun _ _ => ends_skip (ends_returnStatement t (alike_expression n) hv)
          | «while» => exact fun _ _ => ends_skip (ends_whileStatement (alike_expression n) hinner)
          | _ => exact fun _ _ => hexpression

/-- So does a declaration. One that starts with its keyword is read behind it, and all others are
statements. -/
theorem ends_declaration (hend : c.leftRest = []) (n : Nat) (hu : Single u) :
    c.Ends (declaration n) u := by
  cases n with
  | zero => exact ends_stop
  | succ n =>
      have hstatement := ends_statement hend n hu
      refine ends_peek ?_
      cases u with
      | nil =>
          rw [front_nil, c.isSemicolon]
          exact hstatement
      | cons t v =>
          have hv : Single v := hu.of_suffix (List.suffix_cons t v)
          rw [front_cons]
          cases t.kind with
          | «fun» =>
              exact ends_skip (ends_functionDeclaration (alike_parameters n [])
                fun t ht => (hv.first t ht).2.1)
          | var =>
              exact ends_skip (ends_varDeclaration (alike_expression n)
                fun t ht => (hv.first t ht).1)
          | _ => exact hstatement

/-- A declaration is read in the first script, or dropped in both, with the semicolon. In the second
case what is skipped is the same, and both readings are resumed behind the semicolon. -/
theorem recover_cases (hend : c.leftRest = []) (hu : Single u) (n issued : Nat) :
    (∃ first s, recover (declaration n) c.before (c.left u issued []) = (some (some first), s) ∧
        s.rest = []) ∨
      ∃ issued' faults,
        recover (declaration n) c.before (c.left u issued []) =
            (some none, ⟨[], issued', faults⟩) ∧
          recover (declaration n) c.after (c.right u issued []) =
            (some none, ⟨c.rightRest, issued', faults⟩) := by
  unfold recover
  rcases ends_declaration hend n hu issued [] with
    ⟨first, s, hrun, hs⟩ | ⟨v, issued', faults, hv, hrun, hrun'⟩
  · rw [hrun]
    exact .inl ⟨first, s, rfl, hs.trans hend⟩
  · have hv : Single v := hu.of_suffix hv
    refine .inr ⟨issued', faults, ?_, ?_⟩
    · rw [hrun]
      show (_, State.mk (resume (v ++ c.semicolon :: c.leftRest)) issued' faults) = _
      rw [resume_past c.isSemicolon _ hv, hend]
    · rw [hrun']
      show (_, State.mk (resume (v ++ c.semicolon :: c.rightRest)) issued' faults) = _
      rw [resume_past c.isSemicolon _ hv]

/-- If nothing is read in the first script, the second one is read as what follows the semicolon, with
the identities taken and the faults noted up to there. -/
theorem declarations_dropped (hend : c.leftRest = []) (heof : c.before.eof.kind = .eof)
    (hu : Single u) (n issued : Nat)
    (hnone : ∀ first others s,
      declarations (n + 2) false c.before (c.left u issued []) ≠ (some (first :: others), s)) :
    ∃ d faults,
      declarations (n + 2) false c.before (c.left u issued []) =
          (some [], ⟨[], issued + d, faults⟩) ∧
        ∀ program s,
          declarations (n + 1) false c.after ⟨c.rightRest, issued, []⟩ = (program, s) →
            declarations (n + 2) false c.after (c.right u issued []) =
              (program.map (laterStmts d), s.later d faults) := by
  have hleft : (c.left u issued []).rest ≠ [] :=
    List.append_ne_nil_of_right_ne_nil _ (List.cons_ne_nil _ _)
  have hright : (c.right u issued []).rest ≠ [] :=
    List.append_ne_nil_of_right_ne_nil _ (List.cons_ne_nil _ _)
  rcases recover_cases hend hu (n + 1) issued with
    ⟨first, s, hrun, hs⟩ | ⟨issued', faults, hrun, hrun'⟩
  · rw [declarations_next hleft, bind_run hrun, bind_run (declarations_end hs)] at hnone
    exact absurd rfl (hnone first [] s)
  · have hread : declarations (n + 2) false c.before (c.left u issued []) =
        (some [], ⟨[], issued', faults⟩) := by
      rw [declarations_next hleft, bind_run hrun, bind_run (declarations_end rfl)]
      rfl
    have hresult := ((statementReaders (n + 2)).declarations false c.before _ heof).result hread
    have hleads := hresult.1.leads
    obtain ⟨d, rfl⟩ : ∃ d, issued' = issued + d :=
      ⟨issued' - issued, (Nat.add_sub_cancel' hleads.issued).symm⟩
    refine ⟨d, faults, hread, fun program s hother => ?_⟩
    have hlater := later_declarations (d := d) (n + 1) false faults c.after
      ⟨c.rightRest, issued, []⟩
    rw [hother, State.later, List.append_nil] at hlater
    rw [declarations_next hright, bind_run hrun']
    simp only [Bind.bind, hlater]
    cases program with
    | none => rfl
    | some program => rfl

end Cut

end Reader

-- ==== Scripts

namespace Token

/-- The last token is the only semicolon. There is no block, no `for` and no end of the script, and no
other statement or declaration begins after the first token. -/
structure OneStatement (s : List Token) : Prop where
  semicolon : ∃ u last, s = u ++ [last] ∧ last.kind = .semicolon ∧ ∀ t ∈ u, t.kind ≠ .semicolon
  simple : ∀ t ∈ s, t.kind ≠ .eof ∧ t.kind ≠ .leftBrace ∧ t.kind ≠ .for
  begins : ∀ t ∈ s.tail, t.kind ∉ [.klass, .fun, .var, .if, .while, .print, .return]

/-- The tokens before the semicolon are those of one statement. -/
theorem OneStatement.exists_single {s : List Token} (h : OneStatement s) :
    ∃ u last, s = u ++ [last] ∧ last.kind = .semicolon ∧ Reader.Single u := by
  obtain ⟨u, last, rfl, hlast, hu⟩ := h.semicolon
  have starts : ∀ k : Kind, k ≠ .for → k ∉ [.klass, .fun, .var, .if, .while, .print, .return] →
      k.startsStatement = false := by
    intro k hfor hk
    cases k with
    | «for» => exact absurd rfl hfor
    | klass | «fun» | var | «if» | «while» | print | «return» => exact absurd (by simp) hk
    | _ => rfl
  have simple : ∀ t ∈ u, t.kind ≠ .eof ∧ t.kind ≠ .leftBrace ∧ t.kind ≠ .for :=
    fun t ht => h.simple t (List.mem_append_left _ ht)
  refine ⟨u, last, rfl, hlast, fun t ht => ⟨hu t ht, (simple t ht).2⟩, fun t ht => ?_⟩
  have hmem := List.mem_of_mem_tail ht
  have htail : t ∈ (u ++ [last]).tail := by
    rw [List.tail_append_of_ne_nil (List.ne_nil_of_mem hmem)]
    exact List.mem_append_left _ ht
  exact ⟨hu t hmem, (simple t hmem).2.1, starts t.kind (simple t hmem).2.2 (h.begins t htail)⟩

/-- Tokens that do not end the script stand before its end. -/
theorem body_before {s : List Token} (h : ∀ t ∈ s, t.kind ≠ .eof) (rest : List Token) :
    body (s ++ rest) = s ++ body rest :=
  List.takeWhile_append_of_pos (by simpa using h)

/-- The end of the script is that of what follows. -/
theorem ending_before {s rest : List Token} (h : ∀ t ∈ s, t.kind ≠ .eof)
    (hrest : ∃ t ∈ rest, t.kind = .eof) : ending (s ++ rest) = ending rest := by
  have hnone : s.find? (fun t => t.kind = .eof) = none := by simpa using h
  obtain ⟨t, ht, hk⟩ := hrest
  obtain ⟨eof, hfind⟩ : ∃ eof, rest.find? (fun t => t.kind = .eof) = some eof :=
    Option.isSome_iff_exists.mp (List.find?_isSome.mpr ⟨t, ht, by simpa using hk⟩)
  unfold ending
  rw [List.find?_append, hnone, hfind]
  rfl

end Token

/-- A greater bound on the depth of calls changes nothing. -/
theorem parse_of_bound {tokens : List Token} {issued n : Nat} {form : LoopForm}
    {program : Option (List Stmt)} {s : Reader.State}
    (hn : Reader.depthBound (Token.body tokens).length ≤ n)
    (h : Reader.declarations n false ⟨Token.ending tokens, form⟩ ⟨Token.body tokens, issued, []⟩ =
      (program, s)) :
    parse tokens issued form =
      ⟨program.getD [], s.faults.map ParseFault.diagnostic, s.issued⟩ := by
  obtain ⟨r, -, hreader, hbody⟩ := exists_script tokens form
  rw [← hreader, ← hbody] at h
  rw [← hbody] at hn
  rw [Cursor.reader_bound issued hn] at h
  unfold parse
  rw [← hreader, ← hbody]
  simp only [h]

/-- Recovery is local. Take tokens that end with their only semicolon and in which no other statement
begins, and that are dropped when they are read alone. Before any other tokens they are dropped just
so: the program is that of the other tokens, with greater identities, and the diagnostics are those
of the one and then those of the other. -/
theorem recovery_is_local {s rest : List Token} {eof : Token} (issued : Nat) (form : LoopForm)
    (hs : Token.OneStatement s) (heof : eof.kind = .eof)
    (hrest : ∃ front last, rest = front ++ [last] ∧ last.kind = .eof)
    (hdropped : (parse (s ++ [eof]) issued form).program = []) :
    (∃ d, (parse (s ++ rest) issued form).program =
        Stmt.renamedAll (· + d) (parse rest issued form).program) ∧
      (parse (s ++ rest) issued form).diagnostics =
        (parse (s ++ [eof]) issued form).diagnostics ++ (parse rest issued form).diagnostics := by
  obtain ⟨u, last, rfl, hlast, hu⟩ := hs.exists_single
  have hinside : ∀ t ∈ u ++ [last], t.kind ≠ .eof := fun t ht => (hs.simple t ht).1
  have hend : ∃ t ∈ rest, t.kind = .eof := by
    obtain ⟨front, last, rfl, hlast⟩ := hrest
    exact ⟨last, List.mem_append_right _ (List.mem_singleton_self _), hlast⟩
  let c : Reader.Cut :=
    { before := ⟨eof, form⟩
      after := ⟨Token.ending rest, form⟩
      semicolon := last
      isSemicolon := hlast
      leftRest := []
      rightRest := Token.body rest }
  have hbody : Token.body (u ++ [last] ++ [eof]) = u ++ [last] := by
    rw [Token.body_append heof hinside]
  have hbody' : Token.body (u ++ [last] ++ rest) = u ++ last :: Token.body rest := by
    rw [Token.body_before hinside, List.append_assoc, List.singleton_append]
  have hlength : (Token.body (u ++ [last] ++ rest)).length =
      u.length + 1 + (Token.body rest).length := by
    rw [Token.body_before hinside, List.length_append, List.length_append, List.length_singleton]
  -- one bound for all three readings
  obtain ⟨n, hn⟩ : ∃ n, Reader.depthBound (Token.body (u ++ [last] ++ rest)).length = n + 2 :=
    ⟨_, rfl⟩
  have hroom : 10 * (u.length + 1 + (Token.body rest).length) + 20 = n + 2 := hlength ▸ hn
  have parse_alone : ∀ {program s}, Reader.declarations (n + 2) false c.before (c.left u issued []) =
      (program, s) → parse (u ++ [last] ++ [eof]) issued form =
        ⟨program.getD [], s.faults.map ParseFault.diagnostic, s.issued⟩ := by
    intro program s hrun
    refine parse_of_bound (n := n + 2) ?_ ?_
    · rw [hbody, List.length_append, List.length_singleton]
      unfold Reader.depthBound
      omega
    · rw [hbody, Token.ending_append heof hinside]
      exact hrun
  obtain ⟨d, faults, hrun, hwhole⟩ :=
    Reader.Cut.declarations_dropped (c := c) rfl heof hu n issued fun first others s hread => by
      rw [parse_alone hread] at hdropped
      exact List.cons_ne_nil _ _ hdropped
  rcases hother : Reader.declarations (n + 1) false c.after ⟨Token.body rest, issued, []⟩ with
    ⟨program, s⟩
  have hparse : parse rest issued form =
      ⟨program.getD [], s.faults.map ParseFault.diagnostic, s.issued⟩ := by
    refine parse_of_bound (n := n + 1) ?_ hother
    unfold Reader.depthBound
    omega
  have hparse' : parse (u ++ [last] ++ rest) issued form =
      ⟨(program.map (Reader.laterStmts d)).getD [], (faults ++ s.faults).map ParseFault.diagnostic,
        s.issued + d⟩ := by
    refine parse_of_bound (s := s.later d faults) (Nat.le_of_eq hn) ?_
    rw [hbody', Token.ending_before hinside hend]
    exact hwhole program s hother
  rw [parse_alone hrun, hparse, hparse', List.map_append]
  refine ⟨⟨d, ?_⟩, rfl⟩
  cases program with
  | none => rfl
  | some program => rfl

/-- An operand is missing inside the arguments of a call, and the next statement is read all the
same. -/
theorem recovery_is_local_in_call :
    let name (text : String) (line : Int) : Token := ⟨.identifier, utf8 text, .nil, line⟩
    let eof : Token := ⟨.eof, [], .nil, 2⟩
    let s : List Token := [⟨.print, utf8 "print", .nil, 1⟩, name "f" 1, ⟨.leftParen, utf8 "(", .nil, 1⟩,
      name "x" 1, ⟨.plus, utf8 "+", .nil, 1⟩, ⟨.semicolon, utf8 ";", .nil, 1⟩]
    let rest : List Token := [name "g" 2, ⟨.semicolon, utf8 ";", .nil, 2⟩, eof]
    Token.OneStatement s ∧ (parse (s ++ [eof]) 0 .compact).program = [] ∧
      (∃ d, (parse (s ++ rest) 0 .compact).program =
        Stmt.renamedAll (· + d) (parse rest 0 .compact).program) ∧
      (parse (s ++ rest) 0 .compact).diagnostics =
        (parse (s ++ [eof]) 0 .compact).diagnostics ++ (parse rest 0 .compact).diagnostics := by
  intro name eof s rest
  have hs : Token.OneStatement s :=
    ⟨⟨s.dropLast, ⟨.semicolon, utf8 ";", .nil, 1⟩, rfl, rfl, by decide⟩, by decide, by decide⟩
  exact ⟨hs, rfl, recovery_is_local 0 .compact hs rfl ⟨rest.dropLast, eof, rfl, rfl⟩ rfl⟩

end Lox
