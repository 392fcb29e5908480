/-
Where reading by position goes.

# Statements

The cursors of statements track their readers, as those of expressions do (`Tracks`). What is read
inside a statement, an expression or another statement, is given as something that tracks from any
later position on and takes a token there (`Onward`).

# Recovery

So does recovery: a declaration is only ever begun at a token that does not end the script, so there
is always a token to look back at when it is dropped (`advance_dropped`). From there on the cursor
seeks a place to go on, looking back at each step to see whether a semicolon was passed, and the
reader drops tokens from the front; they stop at the same token (`tracks_seek`, by induction on the
bound). Each declaration, read or dropped, leaves the cursor further on (`tracks_recover`).

# Scripts of any tokens

Declarations never give up, whatever the tokens (`settles_declarations`), since each that fails is
dropped. So with room enough, what comes of the declarations of a script is a program, and it is the
parse of the script (`declarations_run`). Any list of tokens is a script once it has a token that
ends it (`exists_script`). Put together, this is `parse_by_position`: reading by position never
looks at a position where there is no token, nor at one after the first token that ends the script,
and comes to what the parse comes to.
-/
import Lox.Proofs.Reader.Parse
import Lox.Proofs.Reader.Tracking

namespace Lox.Cursor

variable {r : Script} {room : Prop} {goal d : Nat} {s : State}

-- ==== Statements

/-- From `s` on, whatever comes between, the cursor tracks the reader and takes a token. -/
def Onward {α : Type} (r : Script) (room : Prop) (x : Cursor α) (y : Reader α) (s : State) : Prop :=
  ∀ s', s.current ≤ s'.current → s'.current ≤ r.body.length →
    Tracks r room (s'.current + 1) x y s'

section Parts

variable {expression : Cursor Expr} {expression' : Reader Expr}
variable {statement : Cursor Stmt} {statement' : Reader Stmt}

/-- An expression that may be left out. -/
theorem tracks_clause {kind : Kind} {k : Expr → Cursor Stmt} {k' : Expr → Reader Stmt}
    (hs : s.current ≤ r.body.length) (he : Onward r room expression expression' s)
    (hk : ∀ e s', s.current ≤ s'.current → s'.current ≤ r.body.length →
      Tracks r room goal (k e) (k' e) s') :
    Tracks r room goal (do if ← sees kind then k .absent else k (← expression))
      (do if ← Reader.sees kind then k' .absent else k' (← expression')) s := by
  refine tracks_sees hs (fun s₁ hs₁ hlt => ?_) fun s₁ hs₁ => ?_
  · exact hk .absent s₁ (by omega) (by omega)
  · exact (he s₁ (by omega) (by omega)).bind fun e s₂ hs₂ hend₂ => hk e s₂ (by omega) hend₂

/-- A variable declaration, with or without an initializer. -/
theorem tracks_varDeclaration (hs : s.current ≤ r.body.length)
    (he : Onward r room expression expression' s) :
    Tracks r room s.current (varDeclaration expression) (Reader.varDeclaration expression') s := by
  have close : ∀ name initializer s', s.current ≤ s'.current → s'.current ≤ r.body.length →
      Tracks r room s.current
        (do let _ ← expect .semicolon .unendedVariable
            return Stmt.var (← fresh) name initializer)
        (do let _ ← Reader.expect .semicolon .unendedVariable
            return Stmt.var (← Reader.fresh) name initializer) s' :=
    fun _ _ s₁ hs₁ hend₁ => (tracks_expect hend₁ _ _).bind fun _ s₂ hs₂ hend₂ =>
      tracks_made hend₂ (by omega) _
  refine (tracks_expect hs _ _).bind fun name s₁ hs₁ hend₁ => ?_
  refine tracks_accept hend₁ (fun s₂ hs₂ hend₂ _ => ?_) fun s₂ hs₂ => ?_
  · exact (he s₂ (by omega) hend₂).bind fun e s₃ hs₃ hend₃ => close name e s₃ (by omega) hend₃
  · exact close name .absent s₂ (by omega) (by omega)

/-- Each parameter takes a token. So the cursor has moved on when the next one is read, and there is
room for it. -/
theorem tracks_parameters : ∀ n before s, s.current ≤ r.body.length →
    Tracks r (r.Room 1 n s) s.current (parameters n before) (Reader.parameters (d + n) before) s
  | 0, _, s, hs => tracks_exhaust hs (Script.not_room_zero (by decide))
  | n + 1, before, s, hs => by
      have next : ∀ s', s.current ≤ s'.current → s'.current ≤ r.body.length →
          Tracks r (r.Room 1 (n + 1) s) s.current
            (do let param ← expect .identifier .noParameterName
                if ← accept .comma then parameters n (before ++ [param])
                else return before ++ [param])
            (do let param ← Reader.expect .identifier .noParameterName
                if ← Reader.accept .comma then Reader.parameters (d + n) (before ++ [param])
                else return before ++ [param]) s' := by
        intro s₁ hs₁ hend₁
        refine (tracks_expect hend₁ _ _).bind fun param s₂ hs₂ hend₂ => ?_
        refine tracks_accept hend₂ (fun s₃ hs₃ hend₃ _ => ?_) fun s₃ hs₃ =>
          tracks_pure (hs₃ ▸ hend₂) (by omega) _
        exact (tracks_parameters n _ s₃ hend₃).mono (by omega)
          fun room => room.later (by omega) hend₃ (by decide)
      refine tracks_ite (fun _ => ?_) fun _ => next s (Nat.le_refl _) hs
      refine tracks_peek_peek hs fun s₁ hs₁ => ?_
      exact (tracks_note (hs₁ ▸ hs) _ _).bind fun _ s₂ hs₂ hend₂ => next s₂ (by omega) hend₂

/-- A function declaration, whose pieces are read one after the other. Its block takes a token, and
no piece moves the cursor back. -/
theorem tracks_functionDeclaration {params : Cursor (List Token)} {params' : Reader (List Token)}
    {block : Cursor (List Stmt)} {block' : Reader (List Stmt)} (hs : s.current ≤ r.body.length)
    (hp : ∀ s', s.current ≤ s'.current → s'.current ≤ r.body.length →
      Tracks r room s'.current params params' s')
    (hb : Onward r room block block' s) :
    Tracks r room s.current (functionDeclaration params block)
      (Reader.functionDeclaration params' block') s := by
  have close : ∀ name ps s', s.current ≤ s'.current → s'.current ≤ r.body.length →
      Tracks r room s.current
        (do let _ ← expect .rightParen .unclosedParameters
            let _ ← expect .leftBrace .unopenedBody
            let body ← block
            return Stmt.function (← fresh) name ps body)
        (do let _ ← Reader.expect .rightParen .unclosedParameters
            let _ ← Reader.expect .leftBrace .unopenedBody
            let body ← block'
            return Stmt.function (← Reader.fresh) name ps body) s' := by
    intro name ps s₁ hs₁ hend₁
    refine (tracks_expect hend₁ _ _).bind fun _ s₂ hs₂ hend₂ => ?_
    refine (tracks_expect hend₂ _ _).bind fun _ s₃ hs₃ hend₃ => ?_
    refine (hb s₃ (by omega) hend₃).bind fun body s₄ hs₄ hend₄ => ?_
    exact tracks_made hend₄ (by omega) _
  refine (tracks_expect hs _ _).bind fun name s₁ hs₁ hend₁ => ?_
  refine (tracks_expect hend₁ _ _).bind fun _ s₂ hs₂ hend₂ => ?_
  refine tracks_sees hend₂ (fun s₃ hs₃ hlt => close name [] s₃ (by omega) (by omega))
    fun s₃ hs₃ => ?_
  exact (hp s₃ (by omega) (by omega)).bind fun ps s₄ hs₄ hend₄ => close name ps s₄ (by omega) hend₄

/-- An expression that is a statement. -/
theorem tracks_expressionStatement (hs : s.current ≤ r.body.length)
    (he : Onward r room expression expression' s) :
    Tracks r room (s.current + 1) (expressionStatement expression)
      (Reader.expressionStatement expression') s := by
  refine (he s (Nat.le_refl _) hs).bind fun e s₁ hs₁ hend₁ => ?_
  refine (tracks_expect hend₁ _ _).bind fun _ s₂ hs₂ hend₂ => ?_
  exact tracks_made hend₂ (by omega) _

theorem tracks_printStatement (hs : s.current ≤ r.body.length)
    (he : Onward r room expression expression' s) :
    Tracks r room s.current (printStatement expression) (Reader.printStatement expression') s := by
  refine (he s (Nat.le_refl _) hs).bind fun e s₁ hs₁ hend₁ => ?_
  refine (tracks_expect hend₁ _ _).bind fun _ s₂ hs₂ hend₂ => ?_
  exact tracks_made hend₂ (by omega) _

/-- A `return` statement, which looks back at its keyword. -/
theorem tracks_returnStatement {i : Nat} {keyword : Token} (hs : s.current = i + 1)
    (hkeyword : r.body[i]? = some keyword) (he : Onward r room expression expression' s) :
    Tracks r room s.current (returnStatement expression)
      (Reader.returnStatement keyword expression') s := by
  have hi : i < r.body.length := (List.getElem?_eq_some_iff.mp hkeyword).1
  refine tracks_previous hs hkeyword fun s₁ hs₁ => ?_
  refine tracks_clause (by omega) (fun s' hs' => he s' (by omega)) fun e s₂ hs₂ hend₂ => ?_
  refine (tracks_expect hend₂ _ _).bind fun _ s₃ hs₃ hend₃ => ?_
  exact tracks_made hend₃ (by omega) _

/-- A `while` statement. -/
theorem tracks_whileStatement (hs : s.current ≤ r.body.length)
    (he : Onward r room expression expression' s) (hst : Onward r room statement statement' s) :
    Tracks r room s.current (whileStatement expression statement)
      (Reader.whileStatement expression' statement') s := by
  refine (tracks_expect hs _ _).bind fun _ s₁ hs₁ hend₁ => ?_
  refine (he s₁ (by omega) hend₁).bind fun condition s₂ hs₂ hend₂ => ?_
  refine (tracks_expect hend₂ _ _).bind fun _ s₃ hs₃ hend₃ => ?_
  refine (hst s₃ (by omega) hend₃).bind fun body s₄ hs₄ hend₄ => ?_
  exact tracks_made hend₄ (by omega) _

/-- An `if` statement, with or without an `else`. -/
theorem tracks_ifStatement (hs : s.current ≤ r.body.length)
    (he : Onward r room expression expression' s) (hst : Onward r room statement statement' s) :
    Tracks r room s.current (ifStatement expression statement)
      (Reader.ifStatement expression' statement') s := by
  have close : ∀ condition positive negative s', s.current ≤ s'.current →
      s'.current ≤ r.body.length → Tracks r room s.current
        (do return Stmt.branch (← fresh) condition positive negative)
        (do return Stmt.branch (← Reader.fresh) condition positive negative) s' :=
    fun _ _ _ s₁ hs₁ hend₁ => tracks_made hend₁ hs₁ _
  refine (tracks_expect hs _ _).bind fun _ s₁ hs₁ hend₁ => ?_
  refine (he s₁ (by omega) hend₁).bind fun condition s₂ hs₂ hend₂ => ?_
  refine (tracks_expect hend₂ _ _).bind fun _ s₃ hs₃ hend₃ => ?_
  refine (hst s₃ (by omega) hend₃).bind fun positive s₄ hs₄ hend₄ => ?_
  refine tracks_accept hend₄ (fun s₅ hs₅ hend₅ _ => ?_) fun s₅ hs₅ => ?_
  · exact (hst s₅ (by omega) hend₅).bind fun negative s₆ hs₆ hend₆ =>
      close condition positive negative s₆ (by omega) hend₆
  · exact close condition positive .absent s₅ (by omega) (by omega)

/-- The first clause of a `for` statement. -/
theorem tracks_forInitializer (hs : s.current ≤ r.body.length)
    (he : Onward r room expression expression' s) :
    Tracks r room s.current (forInitializer expression) (Reader.forInitializer expression') s := by
  refine tracks_accept hs (fun s₁ hs₁ hend₁ _ => tracks_pure hend₁ (by omega) _) fun s₁ hs₁ => ?_
  refine tracks_accept (by omega) (fun s₂ hs₂ hend₂ _ => ?_) fun s₂ hs₂ => ?_
  · exact (tracks_varDeclaration hend₂ fun s' hs' => he s' (by omega)).mono (by omega) id
  · exact (tracks_expressionStatement (by omega) fun s' hs' => he s' (by omega)).mono (by omega) id

/-- What is made of a body and an increment takes no token. -/
theorem tracks_bodyThen (hs : s.current ≤ r.body.length) (body : Stmt) (increment : Expr) :
    Tracks r room s.current (bodyThen body increment) (Reader.bodyThen body increment) s := by
  refine tracks_ite (fun _ => (tracks_form hs).bind fun form s₁ hs₁ hend₁ => ?_) fun _ => ?_
  · cases form with
    | compact => exact tracks_pure hend₁ hs₁ body
    | full => exact tracks_made hend₁ hs₁ _
  · exact (tracks_fresh hs).bind fun _ s₁ hs₁ hend₁ => tracks_made hend₁ hs₁ _

theorem tracks_conditionOrTrue (hs : s.current ≤ r.body.length) (condition : Expr) :
    Tracks r room s.current (conditionOrTrue condition) (Reader.conditionOrTrue condition) s :=
  tracks_ite (fun _ => tracks_made hs (Nat.le_refl _) _)
    fun _ => tracks_pure hs (Nat.le_refl _) condition

theorem tracks_initializerThen (hs : s.current ≤ r.body.length) (initializer loop : Stmt) :
    Tracks r room s.current (initializerThen initializer loop)
      (Reader.initializerThen initializer loop) s := by
  refine tracks_ite (fun _ => (tracks_form hs).bind fun form s₁ hs₁ hend₁ => ?_) fun _ =>
    tracks_made hs (Nat.le_refl _) _
  cases form with
  | compact => exact tracks_pure hend₁ hs₁ loop
  | full => exact tracks_made hend₁ hs₁ _

/-- A `for` statement, whatever clauses it has. -/
theorem tracks_forStatement (hs : s.current ≤ r.body.length)
    (he : Onward r room expression expression' s) (hst : Onward r room statement statement' s) :
    Tracks r room s.current (forStatement expression statement)
      (Reader.forStatement expression' statement') s := by
  refine (tracks_expect hs _ _).bind fun _ s₁ hs₁ hend₁ => ?_
  refine (tracks_forInitializer hend₁ fun s' hs' => he s' (by omega)).bind
    fun initializer s₂ hs₂ hend₂ => ?_
  refine tracks_clause hend₂ (fun s' hs' => he s' (by omega)) fun condition s₃ hs₃ hend₃ => ?_
  refine (tracks_expect hend₃ _ _).bind fun _ s₄ hs₄ hend₄ => ?_
  refine tracks_clause hend₄ (fun s' hs' => he s' (by omega)) fun increment s₅ hs₅ hend₅ => ?_
  refine (tracks_expect hend₅ _ _).bind fun _ s₆ hs₆ hend₆ => ?_
  refine (hst s₆ (by omega) hend₆).bind fun body s₇ hs₇ hend₇ => ?_
  refine (tracks_bodyThen hend₇ body increment).bind fun body s₈ hs₈ hend₈ => ?_
  refine (tracks_conditionOrTrue hend₈ condition).bind fun condition s₉ hs₉ hend₉ => ?_
  refine (tracks_fresh hend₉).bind fun _ s' hs' hend' => ?_
  exact (tracks_initializerThen hend' initializer _).mono (by omega) id

end Parts

-- ==== Recovery

/-- Go on after a declaration that was dropped, where `t` is the last token of it. -/
def resumed (t : Token) : Reader Unit := fun _ s =>
  (some (), { s with rest := Reader.resume (t :: s.rest) })

/-- After the last token there is nothing to go on with. -/
theorem resume_end (t : Token) : Reader.resume [t] = [] := by
  simp only [Reader.resume, ite_self]

/-- After a semicolon the next declaration may start. -/
theorem resume_semicolon {t : Token} (h : t.kind = .semicolon) (rest : List Token) :
    Reader.resume (t :: rest) = rest := by
  cases rest <;> rw [Reader.resume, if_pos h]

/-- Seeking stops where reading is resumed. The cursor looks at the token before it and at the next
one; the tokens that are left are those from `t` on, and the two go over them in step. -/
theorem tracks_seek : ∀ n s i t, s.current = i + 1 → r.body[i]? = some t →
    Tracks r (r.body.length - s.current < n) s.current (seek n) (resumed t) s
  | 0, s, i, t, hs, ht =>
      have hi : i < r.body.length := (List.getElem?_eq_some_iff.mp ht).1
      tracks_exhaust (hs ▸ hi) (Nat.not_lt_zero _)
  | n + 1, s, i, t, hs, ht => by
      have hi : i < r.body.length := (List.getElem?_eq_some_iff.mp ht).1
      have hend : s.current ≤ r.body.length := hs ▸ hi
      -- seeking is over if the tokens that are left are those that reading resumes with
      have stop : ∀ s', s'.current = s.current →
          Reader.resume (t :: (r.view s').rest) = (r.view s').rest →
          Tracks r (r.body.length - s.current < n + 1) s.current (pure ()) (resumed t) s' := by
        intro s' hs' hrest
        refine (tracks_pure (hs' ▸ hend) (Nat.le_of_eq hs'.symm) ()).after rfl ?_ (Nat.le_refl _) id
        simp only [resumed, hrest]
        rfl
      refine tracks_isAtEnd hend (fun s₁ hs₁ heq => ?_) fun s₁ hs₁ hlt => ?_
      · exact stop s₁ hs₁ (by rw [Script.view_rest_end heq, resume_end])
      refine tracks_previous (hs₁.trans hs) ht fun s₂ hs₂ => ?_
      by_cases hsemi : t.kind = .semicolon
      · rw [if_pos hsemi]
        exact stop s₂ (by omega) (resume_semicolon hsemi _)
      rw [if_neg hsemi]
      refine tracks_peek (by omega) fun s₃ hs₃ => ?_
      have hlt₃ : s₃.current < r.body.length := by omega
      have hnext : r.next s₃ = r.next s₂ := by rw [Script.next, hs₃, Script.next]
      rw [← hnext]
      have hresume : Reader.resume (t :: (r.view s₃).rest) =
          if (r.next s₃).kind.startsStatement then (r.view s₃).rest
          else Reader.resume (r.view s₃).rest := by
        rw [Script.view_rest_lt hlt₃, Reader.resume, if_neg hsemi]
      by_cases hstart : (r.next s₃).kind.startsStatement = true
      · rw [if_pos hstart]
        exact stop s₃ (by omega) (by rw [hresume, if_pos hstart])
      rw [if_neg hstart]
      obtain ⟨s₄, hx, hy, hs₄, hl⟩ := advance_run hlt₃
      have hrest : (r.view s₃).rest = r.next s₃ :: (r.view s₄).rest := by
        rw [Script.view_rest_lt hlt₃, Script.view, hs₄]
      have hseek := tracks_seek n s₄ s₃.current (r.next s₃) hs₄ (Script.getElem?_lt hlt₃)
      refine (hseek.mono (by omega) fun room => by omega).after (bind_run hx) ?_ (by omega) hl
      simp only [Reader.skip, Prod.mk.injEq, true_and] at hy
      rw [resumed, hresume, if_neg hstart, hrest, resumed, ← hy]

/-- The first step after a declaration that was begun at `first` and could not be read. The cursor
looks back even at the end of the script, and since `first` is before the end there is a token. -/
theorem advance_dropped {first : Nat} (hfirst : first < r.body.length) (hs : first ≤ s.current)
    (hend : s.current ≤ r.body.length) :
    ∃ i t s', advance r.cursor s = (.yields t, s') ∧ s'.current = i + 1 ∧ r.body[i]? = some t ∧
      first < s'.current ∧ s.current ≤ s'.current ∧ (r.Looked s → r.Looked s') ∧
      { r.view s' with rest := Reader.resume (t :: (r.view s').rest) } =
        { r.view s with rest := Reader.resume (r.view s).rest } := by
  rcases Nat.lt_or_eq_of_le hend with hlt | heq
  · obtain ⟨s', hx, hy, hs', hl⟩ := advance_run hlt
    refine ⟨s.current, r.next s, s', hx, hs', Script.getElem?_lt hlt, by omega, by omega, hl, ?_⟩
    simp only [Reader.skip, Prod.mk.injEq, true_and] at hy
    rw [← hy, Script.view_rest_lt hlt, List.tail_cons]
  · obtain ⟨i, hi⟩ : ∃ i, s.current = i + 1 := Nat.exists_eq_succ_of_ne_zero (by omega)
    have hlt : i < r.body.length := by omega
    have ht : r.body[i]? = some (r.body.get ⟨i, hlt⟩) := List.getElem?_eq_getElem hlt
    have hprev := previous_run (s := s.seen s.current) hi ht
    refine ⟨i, _, (s.seen s.current).seen i, ?_, hi, ht, Nat.lt_of_lt_of_eq hfirst heq.symm,
      Nat.le_refl _, fun h₀ => looked_seen (Nat.le_of_lt hlt) (looked_seen hend h₀), ?_⟩
    · rw [advance, bind_run (isAtEnd_run hend), decide_eq_true heq]
      exact hprev
    · have hrest : (r.view ((s.seen s.current).seen i)).rest = [] := Script.view_rest_end heq
      rw [hrest, Script.view_rest_end heq, resume_end]
      rfl

/-- A declaration that is begun within the script leaves the cursor further on, read or dropped. A
dropped one is given up with the cursor somewhere behind its start; the token there is passed, and
then a place to resume is sought. -/
theorem tracks_recover {n : Nat} {declaration : Cursor Stmt} {declaration' : Reader Stmt}
    (hs : s.current < r.body.length) (hroom : room → r.body.length - s.current < n)
    (hd : Tracks r room (s.current + 1) declaration declaration' s) :
    Tracks r room (s.current + 1) (recover n declaration) (Reader.recover declaration') s := by
  unfold Tracks at hd
  rcases hrun : declaration r.cursor s with ⟨stmt | _ | _ | _, s₁⟩
  all_goals rw [hrun] at hd
  · have hy := hd.agrees fun h => by cases h
    refine (tracks_pure hd.inside (hd.gains stmt rfl) (some stmt)).after ?_ ?_ hd.forward hd.looks
    · simp only [recover, hrun]
      rfl
    · simp only [Reader.recover, hy, Answer.value?]
      rfl
  · have hy := hd.agrees fun h => by cases h
    have hforward : s.current ≤ s₁.current := hd.forward
    obtain ⟨i, t, s₂, hx, hs₂, ht, hfirst, hle, hl, hview⟩ :=
      advance_dropped hs hforward hd.inside
    have hseek := (tracks_seek n s₂ i t hs₂ ht).mono (Nat.le_refl _)
      fun hr : room => (by have := hroom hr; omega : r.body.length - s₂.current < n)
    have hrest : Tracks r room (s.current + 1) (do seek n; return (none : Option Stmt))
        (do resumed t; return none) s₂ :=
      hseek.bind fun _ s₃ hs₃ hend₃ => tracks_pure hend₃ (by omega) none
    refine hrest.after ?_ ?_ (by omega) fun h₀ => hl (hd.looks h₀)
    · simp only [recover, hrun]
      exact bind_run hx
    · simp only [Reader.recover, hy, Answer.value?, ← hview]
      rfl
  · exact absurd rfl hd.stays
  · unfold Tracks
    simp only [recover, hrun]
    exact ⟨hd.forward, hd.inside, fun _ h => (by cases h), hd.looks, fun h => (by cases h),
      fun hr => absurd rfl (hd.ends hr), fun h => absurd rfl h⟩

mutual

/-- A statement is told by its first token, and takes one. Expressions in it have the same room, and
statements in it less, since the keyword has been taken. -/
theorem tracks_statement : ∀ n s, s.current ≤ r.body.length →
    Tracks r (r.Room 5 n s) (s.current + 1) (statement n) (Reader.statement (d + n)) s
  | 0, s, hs => tracks_exhaust hs (Script.not_room_zero (by decide))
  | n + 1, s, hs => by
      refine tracks_peek_peek hs fun s₁ hs₁ => ?_
      have hend₁ : s₁.current ≤ r.body.length := hs₁ ▸ hs
      have hlt := Script.lt_of_next_kind hend₁
      have he : ∀ s', s.current ≤ s'.current →
          Onward r (r.Room 5 (n + 1) s) (expression n) (Reader.expression (d + n)) s' :=
        fun s' hs' s'' hs'' hend => (tracks_expression n s'' hend).mono (Nat.le_refl _)
          fun room => room.level (by omega) (by decide)
      have hst : ∀ s', s.current < s'.current →
          Onward r (r.Room 5 (n + 1) s) (statement n) (Reader.statement (d + n)) s' :=
        fun s' hs' s'' hs'' hend => (tracks_statement n s'' hend).mono (Nat.le_refl _)
          fun room => room.later (by omega) hend (by decide)
      cases hk : (r.next s₁).kind with
      | «for» =>
          refine tracks_advance (hlt (by simp [hk])) fun s₂ hs₂ => ?_
          have hlt := hlt (by simp [hk])
          exact (tracks_forStatement (by omega) (he s₂ (by omega)) (hst s₂ (by omega))).mono
            (by omega) id
      | «if» =>
          have hlt := hlt (by simp [hk])
          refine tracks_advance hlt fun s₂ hs₂ => ?_
          exact (tracks_ifStatement (by omega) (he s₂ (by omega)) (hst s₂ (by omega))).mono
            (by omega) id
      | print =>
          have hlt := hlt (by simp [hk])
          refine tracks_advance hlt fun s₂ hs₂ => ?_
          exact (tracks_printStatement (by omega) (he s₂ (by omega))).mono (by omega) id
      | «return» =>
          have hlt := hlt (by simp [hk])
          refine tracks_advance hlt fun s₂ hs₂ => ?_
          exact (tracks_returnStatement hs₂ (Script.getElem?_lt hlt) (he s₂ (by omega))).mono
            (by omega) id
      | «while» =>
          have hlt := hlt (by simp [hk])
          refine tracks_advance hlt fun s₂ hs₂ => ?_
          exact (tracks_whileStatement (by omega) (he s₂ (by omega)) (hst s₂ (by omega))).mono
            (by omega) id
      | leftBrace =>
          have hlt := hlt (by simp [hk])
          refine tracks_advance hlt fun s₂ hs₂ => ?_
          have hbody := tracks_block n s₂ (by omega)
          refine (hbody.mono (Nat.le_refl _) fun room =>
            room.later (by omega) (by omega) (by decide)).bind fun body s₃ hs₃ hend₃ => ?_
          exact tracks_made hend₃ (by omega) _
      | _ => exact (tracks_expressionStatement hend₁ (he s₁ (by omega))).mono (by omega) id

/-- A declaration is told by its keyword, or is a statement, for which there is room at this place
since it takes one level less. -/
theorem tracks_declaration : ∀ n s, s.current ≤ r.body.length →
    Tracks r (r.Room 6 n s) (s.current + 1) (declaration n) (Reader.declaration (d + n)) s
  | 0, s, hs => tracks_exhaust hs (Script.not_room_zero (by decide))
  | n + 1, s, hs => by
      refine tracks_peek_peek hs fun s₁ hs₁ => ?_
      have hend₁ : s₁.current ≤ r.body.length := hs₁ ▸ hs
      have hlt := Script.lt_of_next_kind hend₁
      cases hk : (r.next s₁).kind with
      | «fun» =>
          have hlt := hlt (by simp [hk])
          refine tracks_advance hlt fun s₂ hs₂ => ?_
          refine (tracks_functionDeclaration (by omega) (fun s' hs' hend => ?_)
            fun s' hs' hend => ?_).mono (by omega) id
          · exact (tracks_parameters n [] s' hend).mono (Nat.le_refl _)
              fun room => room.later (by omega) hend (by decide)
          · exact (tracks_block n s' hend).mono (Nat.le_refl _)
              fun room => room.later (by omega) hend (by decide)
      | var =>
          have hlt := hlt (by simp [hk])
          refine tracks_advance hlt fun s₂ hs₂ => ?_
          refine (tracks_varDeclaration (by omega) fun s' hs' hend => ?_).mono (by omega) id
          exact (tracks_expression n s' hend).mono (Nat.le_refl _)
            fun room => room.later (by omega) hend (by decide)
      | _ =>
          exact (tracks_statement n s₁ hend₁).mono (by omega)
            fun room => room.level (by omega) (by decide)

/-- A block takes at least its closing brace. -/
theorem tracks_block : ∀ n s, s.current ≤ r.body.length →
    Tracks r (r.Room 8 n s) (s.current + 1) (block n) (Reader.block (d + n)) s
  | 0, s, hs => tracks_exhaust hs (Script.not_room_zero (by decide))
  | n + 1, s, hs => by
      have hbody := tracks_declarations n true s.current s hs hs fun _ => Nat.le_refl _
      refine (hbody.mono (Nat.le_refl _) fun room =>
        room.level (Nat.le_refl _) (by decide)).bind fun body s₁ hs₁ hend₁ => ?_
      refine (tracks_expect hend₁ _ _).bind fun _ s₂ hs₂ hend₂ => ?_
      exact tracks_pure hend₂ (by omega) body

/-- Declarations that are not enclosed are read up to the end, and others up to a brace or the end.
How far the cursor comes is asked for as a `goal`, so that one lemma says both. -/
theorem tracks_declarations : ∀ n enclosed goal s, s.current ≤ r.body.length →
    goal ≤ r.body.length → (enclosed = true → goal ≤ s.current) →
    Tracks r (r.Room 7 n s) goal (declarations n enclosed)
      (Reader.declarations (d + n) enclosed) s
  | 0, _, _, s, hs, _, _ => tracks_exhaust hs (Script.not_room_zero (by decide))
  | n + 1, enclosed, goal, s, hs, hgoal, hin => by
      have more : ∀ s', s'.current = s.current → s'.current < r.body.length →
          Tracks r (r.Room 7 (n + 1) s) goal
            (do let first ← recover n (declaration n)
                let others ← declarations n enclosed
                return first.toList ++ others)
            (do let first ← Reader.recover (Reader.declaration (d + n))
                let others ← Reader.declarations (d + n) enclosed
                return first.toList ++ others) s' := by
        intro s₁ hs₁ hlt
        have hfirst := (tracks_declaration n s₁ (Nat.le_of_lt hlt)).mono (Nat.le_refl _)
          fun room : r.Room 7 (n + 1) s => room.level (by omega) (by decide)
        refine (tracks_recover hlt (fun room => room.seek (by omega) (by decide)) hfirst).bind
          fun first s₂ hs₂ hend₂ => ?_
        have hothers := tracks_declarations n enclosed goal s₂ hend₂ hgoal
          fun h => Nat.le_trans (hin h) (by omega)
        refine (hothers.mono (Nat.le_refl _) fun room =>
          room.later (by omega) hend₂ (by decide)).bind fun others s₃ hs₃ hend₃ => ?_
        exact tracks_pure hend₃ (by omega) _
      refine tracks_atEnd hs (fun s₁ hs₁ => tracks_pure (by omega) (by omega) []) fun s₁ hs₁ hlt => ?_
      refine tracks_ite (fun henc => ?_) fun _ => more s₁ hs₁ hlt
      refine tracks_sees (Nat.le_of_lt hlt) (fun s₂ hs₂ _ => ?_) fun s₂ hs₂ =>
        more s₂ (by omega) (by omega)
      exact tracks_pure (by omega) (by have := hin henc; omega) []

end

-- ==== Declarations are always read to their end

/-- The cursor never gives up. -/
def Settles {α : Type} (x : Cursor α) : Prop := ∀ setting s, (x setting s).1 ≠ .gaveUp

section Settles

variable {α β : Type} {x y : Cursor α}

theorem settles_pure (a : α) : Settles (pure a) := fun _ _ => nofun

theorem settles_exhaust : Settles (exhaust : Cursor α) := fun _ _ => nofun

/-- One cursor after the other, of which none gives up. -/
theorem Settles.bind {f : α → Cursor β} (hx : Settles x) (hf : ∀ a, Settles (f a)) :
    Settles (x >>= f) := by
  intro setting s
  have hx := hx setting s
  simp only [Bind.bind]
  rcases hrun : x setting s with ⟨a | _ | _ | _, s₁⟩
  · exact hf a setting s₁
  · exact absurd (congrArg Prod.fst hrun) hx
  · exact nofun
  · exact nofun

theorem settles_ite {c : Prop} [Decidable c] (hx : Settles x) (hy : Settles y) :
    Settles (if c then x else y) := by
  split
  · exact hx
  · exact hy

/-- Looking may stray, but does not give up. -/
theorem settles_look (position : Nat) : Settles (look position) := by
  intro setting s
  unfold look
  dsimp only
  split <;> exact nofun

theorem settles_peek : Settles peek := fun setting s => settles_look s.current setting s

theorem settles_previous : Settles previous := by
  intro setting s
  unfold previous
  split
  · exact nofun
  · exact settles_look _ setting s

theorem settles_isAtEnd : Settles isAtEnd := settles_peek.bind fun _ => settles_pure _

theorem settles_sees (kind : Kind) : Settles (sees kind) :=
  settles_isAtEnd.bind fun _ =>
    settles_ite (settles_pure _) (settles_peek.bind fun _ => settles_pure _)

theorem settles_advance : Settles advance :=
  settles_isAtEnd.bind fun _ => settles_ite settles_previous
    (Settles.bind (fun _ _ => nofun) fun _ => settles_previous)

/-- Seeking comes to an end without giving up. -/
theorem settles_seek (n : Nat) : Settles (seek n) := by
  induction n with
  | zero => exact settles_exhaust
  | succ n ih =>
      exact settles_isAtEnd.bind fun _ => settles_ite (settles_pure _) <|
        settles_previous.bind fun _ => settles_ite (settles_pure _) <|
          settles_peek.bind fun _ => settles_ite (settles_pure _) <|
            settles_advance.bind fun _ => ih

/-- A declaration that gives up is dropped. -/
theorem settles_recover (n : Nat) (declaration : Cursor Stmt) :
    Settles (recover n declaration) := by
  intro setting s
  unfold recover
  split
  · exact nofun
  · exact (settles_advance.bind fun _ => (settles_seek n).bind fun _ => settles_pure _) setting _
  · exact nofun
  · exact nofun

/-- Declarations never give up. -/
theorem settles_declarations (n : Nat) (enclosed : Bool) :
    Settles (declarations n enclosed) := by
  induction n with
  | zero => exact settles_exhaust
  | succ n ih =>
      have more : Settles (do
          let first ← recover n (declaration n)
          let others ← declarations n enclosed
          return first.toList ++ others) :=
        (settles_recover n _).bind fun _ => ih.bind fun _ => settles_pure _
      exact settles_isAtEnd.bind fun _ => settles_ite (settles_pure _) <|
        settles_ite ((settles_sees _).bind fun _ => settles_ite (settles_pure _) more) more

end Settles

end Lox.Cursor

-- ==== Scripts of any tokens

namespace Lox

/-- The tokens before the first that ends the script. -/
theorem Token.body_append {body after : List Token} {ending : Token} (hending : ending.kind = .eof)
    (hbody : ∀ t ∈ body, t.kind ≠ .eof) : Token.body (body ++ ending :: after) = body := by
  rw [Token.body, List.takeWhile_append_of_pos (by simpa using hbody),
    List.takeWhile_cons_of_neg (by simp [hending]), List.append_nil]

/-- The first token that ends the script. -/
theorem Token.ending_append {body after : List Token} {ending : Token}
    (hending : ending.kind = .eof) (hbody : ∀ t ∈ body, t.kind ≠ .eof) :
    Token.ending (body ++ ending :: after) = ending := by
  have hnone : body.find? (fun t => t.kind = .eof) = none := by simpa using hbody
  simp [Token.ending, hnone, hending]

/-- No token before the end ends the script. -/
theorem Token.body_kind (tokens : List Token) : ∀ t ∈ Token.body tokens, t.kind ≠ .eof := by
  intro t ht
  have hall := List.all_takeWhile (p := fun t : Token => decide (t.kind ≠ .eof)) (l := tokens)
  simpa using List.all_eq_true.mp hall t ht

/-- The tokens begin with those before the first that ends the script, and with that one. Where
there is none, one is added at the end, so that the cursor always finds one. -/
theorem Token.closed_eq (tokens : List Token) :
    ∃ after, Token.closed tokens = Token.body tokens ++ Token.ending tokens :: after := by
  rcases hfind : tokens.find? (fun t => t.kind = .eof) with _ | eof
  · -- without such a token, one is added
    have hnone : ∀ t ∈ tokens, t.kind ≠ .eof := by simpa using hfind
    have hbody : Token.body tokens = tokens := by
      have hall : Token.body (tokens ++ []) = tokens ++ Token.body [] :=
        List.takeWhile_append_of_pos (by simpa using hnone)
      simpa [Token.body] using hall
    refine ⟨[], ?_⟩
    rw [hbody, Token.ending, hfind, Token.closed]
    rcases hlast : tokens.getLast? with _ | t
    · rw [List.getLast?_eq_none_iff.mp hlast]
      rfl
    · simp only [if_neg (hnone t (List.mem_of_getLast? hlast)), Option.map_some, Option.getD_some]
  · obtain ⟨hk, before, after, rfl, hbefore⟩ := List.find?_eq_some_iff_append.mp hfind
    have hk : eof.kind = .eof := by simpa using hk
    have hbefore : ∀ t ∈ before, t.kind ≠ .eof := by simpa using hbefore
    rw [Token.body_append hk hbefore, Token.ending_append hk hbefore, Token.closed]
    split
    next h => simp at h
    next => split <;> simp

/-- The tokens, cut at the first that ends the script. -/
theorem exists_script (tokens : List Token) (form : LoopForm) :
    ∃ r : Script, r.cursor = ⟨Token.closed tokens, form⟩ ∧
      r.reader = ⟨Token.ending tokens, form⟩ ∧ r.body = Token.body tokens := by
  obtain ⟨after, hclosed⟩ := Token.closed_eq tokens
  refine ⟨⟨Token.body tokens, Token.ending tokens, after, form, Token.ending_kind tokens,
    Token.body_kind tokens⟩, ?_, rfl, rfl⟩
  rw [Script.cursor, hclosed]

namespace Cursor

/-- Before the first token. -/
def State.start (issued : Nat) : State := ⟨0, issued, [], []⟩

variable {r : Script}

/-- With room enough the declarations of a script are read to its end, and a greater bound for the
reader changes nothing. -/
theorem declarations_run {n : Nat} (issued : Nat)
    (hn : Reader.depthBound r.body.length ≤ n) :
    ∃ program s, declarations n false r.cursor (.start issued) = (.yields program, s) ∧
      s.current = r.body.length ∧ r.Looked s ∧
      ∀ d, Reader.declarations (d + n) false r.reader ⟨r.body, issued, []⟩
        = (some program, r.view s) := by
  have hroom : r.Room 7 n (.start issued) := by
    unfold Script.Room Reader.depthBound at *
    simp only [State.start]
    omega
  have htracks : ∀ d, Tracks r (r.Room 7 n (.start issued)) r.body.length (declarations n false)
      (Reader.declarations (d + n) false) (.start issued) := fun d =>
    tracks_declarations n false _ _ (Nat.zero_le _) (Nat.le_refl _) Bool.noConfusion
  have hsettles := settles_declarations n false r.cursor (.start issued)
  unfold Tracks at htracks
  rcases hrun : declarations n false r.cursor (.start issued) with ⟨program | _ | _ | _, s⟩
  all_goals rw [hrun] at htracks hsettles
  · have h := htracks 0
    refine ⟨program, s, rfl, Nat.le_antisymm h.inside (h.gains program rfl), h.looks nofun,
      fun d => (htracks d).agrees nofun⟩
  · exact absurd rfl hsettles
  · exact absurd rfl (htracks 0).stays
  · exact absurd rfl ((htracks 0).ends hroom)

/-- The bound that a parse chooses is as good as any greater one. -/
theorem reader_bound {n : Nat} (issued : Nat) (hn : Reader.depthBound r.body.length ≤ n) :
    Reader.declarations n false r.reader ⟨r.body, issued, []⟩ =
      Reader.declarations (Reader.depthBound r.body.length) false r.reader ⟨r.body, issued, []⟩ := by
  obtain ⟨program, s, -, -, -, hread⟩ := declarations_run (r := r) issued (Nat.le_refl _)
  have hsame := (hread (n - Reader.depthBound r.body.length)).trans (hread 0).symm
  rwa [Nat.sub_add_cancel hn, Nat.zero_add] at hsame

/-- A declaration begun within the script is read or dropped, and the cursor is further on. -/
theorem recover_run {n : Nat} {s : State} (hs : s.current < r.body.length)
    (hroom : r.Room 6 n s) :
    ∃ read s', recover n (declaration n) r.cursor s = (.yields read, s') ∧
      s.current < s'.current ∧ s'.current ≤ r.body.length := by
  have hseek : r.Room 6 n s → r.body.length - s.current < n := by
    unfold Script.Room
    omega
  have htracks : Tracks r (r.Room 6 n s) (s.current + 1) (recover n (declaration n))
      (Reader.recover (Reader.declaration (0 + n))) s :=
    tracks_recover hs hseek (tracks_declaration n s (Nat.le_of_lt hs))
  have hsettles := settles_recover n (declaration n) r.cursor s
  unfold Tracks at htracks
  rcases hrun : recover n (declaration n) r.cursor s with ⟨read | _ | _ | _, s'⟩
  all_goals rw [hrun] at htracks hsettles
  · exact ⟨read, s', rfl, htracks.gains read rfl, htracks.inside⟩
  · exact absurd rfl hsettles
  · exact absurd rfl htracks.stays
  · exact absurd rfl (htracks.ends hroom)

end Cursor

/-- Reading by position looks only at tokens of the script, up to the first that ends it. It is the
parse of the script, whatever bound on the depth of calls is set from `depthBound` on. Each
declaration, read or dropped, leaves the position further on, and what comes after the end counts
for nothing. -/
theorem parse_by_position (tokens : List Token) (issued : Nat) (form : LoopForm) :
    ((Token.closed tokens)[(Token.body tokens).length]? = some (Token.ending tokens) ∧
      (Token.ending tokens).kind = .eof ∧ Token.body tokens <+: Token.closed tokens ∧
      ∀ t ∈ Token.body tokens, t.kind ≠ .eof) ∧
    (∀ n, Reader.depthBound (Token.body tokens).length ≤ n →
      ∃ s, Cursor.declarations n false ⟨Token.closed tokens, form⟩ (.start issued)
          = (.yields (parse tokens issued form).program, s) ∧
        (parse tokens issued form).diagnostics = s.faults.map ParseFault.diagnostic ∧
        (parse tokens issued form).issued = s.issued ∧
        s.current = (Token.body tokens).length ∧
        ∀ position ∈ s.looked, position ≤ (Token.body tokens).length) ∧
    (∀ n s, s.current < (Token.body tokens).length →
      10 * ((Token.body tokens).length - s.current) + 6 ≤ n →
      ∃ read s', Cursor.recover n (Cursor.declaration n) ⟨Token.closed tokens, form⟩ s
          = (.yields read, s') ∧
        s.current < s'.current ∧ s'.current ≤ (Token.body tokens).length) ∧
    ∀ after, parse (Token.body tokens ++ Token.ending tokens :: after) issued form
      = parse tokens issued form := by
  obtain ⟨r, hcursor, hreader, hbody⟩ := exists_script tokens form
  refine ⟨?_, fun n hn => ?_, fun n s hs hn => ?_, fun after => ?_⟩
  · obtain ⟨after, hclosed⟩ := Token.closed_eq tokens
    rw [hclosed]
    refine ⟨?_, Token.ending_kind tokens, List.prefix_append _ _, Token.body_kind tokens⟩
    rw [List.getElem?_append_right (Nat.le_refl _), Nat.sub_self, List.getElem?_cons_zero]
  · rw [← hbody] at hn ⊢
    obtain ⟨program, s, hrun, hend, hlooked, hread⟩ := Cursor.declarations_run issued hn
    have hparse : parse tokens issued form
        = ⟨program, s.faults.map ParseFault.diagnostic, s.issued⟩ := by
      have hread := hread 0
      rw [Nat.zero_add, Cursor.reader_bound issued hn] at hread
      unfold parse
      rw [← hbody, ← hreader]
      simp only [hread]
      rfl
    rw [hparse, ← hcursor]
    exact ⟨s, hrun, rfl, rfl, hend, hlooked⟩
  · rw [← hbody] at hs hn ⊢
    rw [← hcursor]
    exact Cursor.recover_run hs hn
  · unfold parse
    rw [Token.body_append (Token.ending_kind tokens) (Token.body_kind tokens),
      Token.ending_append (Token.ending_kind tokens) (Token.body_kind tokens)]

/-- A lone mark that begins no declaration, with tokens after the end that count for nothing: the
declaration is dropped, and the position is the end. -/
theorem parse_by_position_dropped :
    ∃ read s', Cursor.recover 16 (Cursor.declaration 16)
        ⟨Token.closed [⟨.rightParen, utf8 ")", .nil, 1⟩, ⟨.eof, [], .nil, 1⟩,
          ⟨.print, utf8 "print", .nil, 2⟩], .compact⟩ (.start 0)
        = (.yields read, s') ∧ 0 < s'.current ∧ s'.current ≤ 1 :=
  (parse_by_position [⟨.rightParen, utf8 ")", .nil, 1⟩, ⟨.eof, [], .nil, 1⟩,
    ⟨.print, utf8 "print", .nil, 2⟩] 0 .compact).2.2.1 16 (.start 0) (by decide) (by decide)

end Lox
