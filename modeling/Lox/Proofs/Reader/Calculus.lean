/-
What a reader ensures, worked out from the end.

# The judgement

`Meets x setting s ok ko` says that the reader `x`, run on the state `s`, either yields something of
which `ok` holds, or gives up in a state of which `ko` holds. The two conditions are kept apart
since a reader that gives up still leaves a state behind: the tokens it has gone over stay gone
over, and the faults it has noted stay noted.

# Opening a reader

Each way of building a reader has one equation that moves the two conditions over it, so a statement
about a reader is opened by rewriting with these equations, and no proof looks at the monad itself.
Most of them are for simp. Three are not equations but rules with one premise for each outcome, for
the readers that look at the kind of the next token: `meets_sees`, `meets_accept` and
`meets_expect`.

# Runs

Where it has to be said of one run what it yields, rather than what holds of every answer, the
lemmas that end in `_run` give the answer itself; `meets_of_run` and `run_of_meets` go between the
two.
-/
import Lox.Tree.Parse

namespace Lox.Reader

variable {α β : Type} {setting : Setting} {s : State} {ok : α → State → Prop} {ko : State → Prop}

-- ==== The judgement

/-- The reader yields something for which `ok` holds, or gives up where `ko` holds. All that is said
of one reading is said in this form, and carried from reader to reader by the lemmas below. -/
def Meets (x : Reader α) (setting : Setting) (s : State) (ok : α → State → Prop)
    (ko : State → Prop) : Prop :=
  match x setting s with
  | (some a, s') => ok a s'
  | (none, s') => ko s'

/-- The conditions may be weakened. -/
theorem Meets.mono {x : Reader α} {ok' : α → State → Prop} {ko' : State → Prop}
    (h : Meets x setting s ok ko) (hok : ∀ a s', ok a s' → ok' a s')
    (hko : ∀ s', ko s' → ko' s') : Meets x setting s ok' ko' := by
  unfold Meets at *
  revert h
  rcases x setting s with ⟨_ | a, s'⟩
  · exact hko s'
  · exact hok a s'

/-- What holds of every result holds of the one that is there. -/
theorem Meets.result {x : Reader α} {a : α} {s' : State} (h : Meets x setting s ok ko)
    (hx : x setting s = (some a, s')) : ok a s' := by
  unfold Meets at h
  rw [hx] at h
  exact h

/-- What holds wherever a reader gives up holds where it did. -/
theorem Meets.stopped {x : Reader α} {s' : State} (h : Meets x setting s ok ko)
    (hx : x setting s = (none, s')) : ko s' := by
  unfold Meets at h
  rw [hx] at h
  exact h

/-- A run that yields something for which `ok` holds. -/
theorem meets_of_run {x : Reader α} {a : α} {s₁ : State} (hx : x setting s = (some a, s₁))
    (h : ok a s₁) : Meets x setting s ok ko := by
  unfold Meets
  rw [hx]
  exact h

/-- A reader that never gives up yields something. -/
theorem run_of_meets {x : Reader α} (h : Meets x setting s ok fun _ => False) :
    ∃ a s₁, x setting s = (some a, s₁) ∧ ok a s₁ := by
  unfold Meets at h
  split at h
  next a s₁ hx => exact ⟨a, s₁, hx, h⟩
  next => exact h.elim

/-- What a reader yields is what it yields. -/
theorem meets_run (x : Reader α) :
    Meets x setting s (fun a s₁ => x setting s = (some a, s₁)) fun _ => True := by
  unfold Meets
  split
  next hx => exact hx
  next => trivial

/-- What holds of everything holds of what is yielded, if giving up is all right. -/
theorem meets_always {x : Reader α} (h : ∀ a s', ok a s') :
    Meets x setting s ok fun _ => True := by
  unfold Meets
  split
  · exact h _ _
  · trivial

-- ==== Running one reader after another

/-- If the first of two readers yields something, the second goes on with it. -/
theorem bind_run {x : Reader α} {f : α → Reader β} {a : α} {s₁ : State}
    (hx : x setting s = (some a, s₁)) : (x >>= f) setting s = f a setting s₁ := by
  simp only [bind, hx]

/-- If two readers yield something, the first one does. -/
theorem run_of_bind {x : Reader α} {f : α → Reader β} {b : β} {s₂ : State}
    (h : (x >>= f) setting s = (some b, s₂)) :
    ∃ a s₁, x setting s = (some a, s₁) ∧ f a setting s₁ = (some b, s₂) := by
  simp only [bind] at h
  rcases hx : x setting s with ⟨_ | a, s₁⟩
  · rw [hx] at h
    cases h
  · rw [hx] at h
    exact ⟨a, s₁, rfl, h⟩

/-- If the first of two readers gives up, both do. -/
theorem bind_stopped {x : Reader α} {f : α → Reader β} {s₁ : State}
    (hx : x setting s = (none, s₁)) : (x >>= f) setting s = (none, s₁) := by
  simp only [bind, hx]

-- ==== Runs of the readers that look at the next token

section Front

variable {t : Token} {rest : List Token} {kind : Kind}

/-- Looking at the next token finds it of the kind, or not. -/
theorem front_cases (s : State) (kind : Kind) :
    (∃ t rest, s.rest = t :: rest ∧ t.kind = kind) ∨
      ∀ t rest, s.rest = t :: rest → t.kind ≠ kind := by
  cases hr : s.rest with
  | nil => exact .inr fun t rest h => nomatch h
  | cons t rest =>
      by_cases hk : t.kind = kind
      · exact .inl ⟨t, rest, rfl, hk⟩
      · refine .inr fun t' rest' h => ?_
        obtain ⟨rfl, -⟩ := List.cons.inj h
        exact hk

theorem peek_run : peek setting s = (some (s.rest.headD setting.eof), s) := rfl

/-- A token of the kind is seen, and left. -/
theorem sees_run_found (hr : s.rest = t :: rest) (hk : t.kind = kind) :
    sees kind setting s = (some true, s) := by
  simp only [sees, hr, hk, decide_true]

/-- Where no such token comes next, none is seen. -/
theorem sees_run_missing (h : ∀ t rest, s.rest = t :: rest → t.kind ≠ kind) :
    sees kind setting s = (some false, s) := by
  unfold sees
  split
  next t rest hr => rw [decide_eq_false (h t rest hr)]
  next => rfl

/-- A token of the kind is taken. -/
theorem accept_run_found (hr : s.rest = t :: rest) (hk : t.kind = kind) :
    accept kind setting s = (some true, { s with rest := rest }) := by
  rw [accept, bind_run (sees_run_found hr hk), if_pos rfl]
  simp only [Bind.bind, skip, hr, List.tail_cons]
  rfl

/-- Where no such token comes next, none is taken. -/
theorem accept_run_missing (h : ∀ t rest, s.rest = t :: rest → t.kind ≠ kind) :
    accept kind setting s = (some false, s) := by
  rw [accept, bind_run (sees_run_missing h), if_neg Bool.false_ne_true]
  rfl

/-- A token that is expected is taken. -/
theorem expect_run_found {problem : ParseProblem} (hr : s.rest = t :: rest) (hk : t.kind = kind) :
    expect kind problem setting s = (some t, { s with rest := rest }) := by
  rw [expect, bind_run peek_run, bind_run (sees_run_found hr hk), if_pos rfl]
  simp only [Bind.bind, skip, hr, List.headD_cons, List.tail_cons]
  rfl

/-- A token that is missing is noted at the one that stands in its place, and the reader gives
up. -/
theorem expect_run_missing {problem : ParseProblem}
    (h : ∀ t rest, s.rest = t :: rest → t.kind ≠ kind) :
    expect kind problem setting s =
      (none, { s with faults := s.faults ++ [⟨s.rest.headD setting.eof, problem⟩] }) := by
  rw [expect, bind_run peek_run, bind_run (sees_run_missing h), if_neg Bool.false_ne_true]
  rfl

end Front

-- ==== One equation for each way of building a reader

@[simp] theorem meets_pure (a : α) : Meets (pure a) setting s ok ko ↔ ok a s := Iff.rfl

/-- One reader after the other: what the second ensures is what the first has to. -/
@[simp] theorem meets_bind {ok : β → State → Prop} (x : Reader α) (f : α → Reader β) :
    Meets (x >>= f) setting s ok ko ↔
      Meets x setting s (fun a s' => Meets (f a) setting s' ok ko) ko := by
  unfold Meets
  simp only [bind]
  rcases x setting s with ⟨_ | a, s'⟩ <;> exact Iff.rfl

/-- What is made last, whatever comes before. -/
theorem meets_last {ok : β → State → Prop} {x : Reader α} {f : α → Reader β}
    (h : ∀ a s', Meets (f a) setting s' ok fun _ => True) :
    Meets (x >>= f) setting s ok fun _ => True := by
  rw [meets_bind]
  exact meets_always h

@[simp] theorem meets_stop : Meets stop setting s ok ko ↔ ko s := Iff.rfl

@[simp] theorem meets_peek {ok : Token → State → Prop} :
    Meets peek setting s ok ko ↔ ok (s.rest.headD setting.eof) s := Iff.rfl

@[simp] theorem meets_skip {ok : Unit → State → Prop} :
    Meets skip setting s ok ko ↔ ok () { s with rest := s.rest.tail } := Iff.rfl

@[simp] theorem meets_note {ok : Unit → State → Prop} (t : Token) (p : ParseProblem) :
    Meets (note t p) setting s ok ko ↔ ok () { s with faults := s.faults ++ [⟨t, p⟩] } := Iff.rfl

@[simp] theorem meets_fail (p : ParseProblem) :
    Meets (fail p) setting s ok ko ↔
      ko { s with faults := s.faults ++ [⟨s.rest.headD setting.eof, p⟩] } := Iff.rfl

@[simp] theorem meets_fresh {ok : Nat → State → Prop} :
    Meets fresh setting s ok ko ↔ ok (s.issued + 1) { s with issued := s.issued + 1 } := Iff.rfl

@[simp] theorem meets_form {ok : LoopForm → State → Prop} :
    Meets form setting s ok ko ↔ ok setting.form s := Iff.rfl

@[simp] theorem meets_atEnd {ok : Bool → State → Prop} :
    Meets atEnd setting s ok ko ↔ ok s.rest.isEmpty s := Iff.rfl

/-- A condition outside a reader. -/
theorem meets_ite {p : Prop} [Decidable p] (x y : Reader α) :
    Meets (if p then x else y) setting s ok ko ↔
      if p then Meets x setting s ok ko else Meets y setting s ok ko := by
  split <;> exact Iff.rfl

/-- Looking for a kind either finds it at the front or changes nothing. -/
theorem meets_sees {ok : Bool → State → Prop} (kind : Kind)
    (found : ∀ t rest, s.rest = t :: rest → t.kind = kind → ok true s)
    (missing : (∀ t rest, s.rest = t :: rest → t.kind ≠ kind) → ok false s) :
    Meets (sees kind) setting s ok ko := by
  unfold Meets sees
  cases hr : s.rest with
  | nil => exact missing (by simp [hr])
  | cons t rest =>
      by_cases hk : t.kind = kind
      · simpa [hk] using found t rest hr hk
      · simpa [hk] using missing (by simpa [hr] using hk)

/-- Accepting a kind either takes a token of that kind off the front or changes nothing. -/
theorem meets_accept {ok : Bool → State → Prop} (kind : Kind)
    (found : ∀ t rest, s.rest = t :: rest → t.kind = kind → ok true { s with rest := rest })
    (missing : (∀ t rest, s.rest = t :: rest → t.kind ≠ kind) → ok false s) :
    Meets (accept kind) setting s ok ko := by
  unfold accept
  rw [meets_bind]
  refine meets_sees kind (fun t rest hr hk => ?_) (fun hm => ?_)
  · simpa [hr] using found t rest hr hk
  · simpa using missing hm

/-- Expecting a kind either takes a token of that kind off the front or notes a fault. -/
theorem meets_expect {ok : Token → State → Prop} (kind : Kind) (problem : ParseProblem)
    (found : ∀ t rest, s.rest = t :: rest → t.kind = kind → ok t { s with rest := rest })
    (missing : (∀ t rest, s.rest = t :: rest → t.kind ≠ kind) →
      ko { s with faults := s.faults ++ [⟨s.rest.headD setting.eof, problem⟩] }) :
    Meets (expect kind problem) setting s ok ko := by
  unfold expect
  rw [meets_bind, meets_peek, meets_bind]
  refine meets_sees kind (fun t rest hr hk => ?_) (fun hm => ?_)
  · simpa [hr] using found t rest hr hk
  · simpa using missing hm

/-- A declaration that could not be read is dropped, together with some tokens. -/
@[simp] theorem meets_recover {ok : Option Stmt → State → Prop} (declaration : Reader Stmt) :
    Meets (recover declaration) setting s ok ko ↔
      Meets declaration setting s (fun stmt s' => ok (some stmt) s')
        (fun s' => ok none { s' with rest := resume s'.rest }) := by
  unfold Meets recover
  rcases declaration setting s with ⟨_ | a, s'⟩ <;> exact Iff.rfl

end Lox.Reader
