/-
A cursor tracks a reader.

# Scripts

A script is a list of tokens cut at the first token that ends it. A cursor that stands within the
part before that token, or at it, sees what a reader sees that has the tokens from there on before
it (`Script.view`). Where the cursor stands at the end, the reader has no token left and sees the
one that ends the script.

# The judgement

`Tracks` says of a cursor and a reader started so that the cursor stays within the script and only
goes forward, that it never looks past the end, and that the two do the same; and that the bound on
the depth of calls is not reached if there was room for it. How far the cursor has to come is
carried along as a goal, since the readers that call each other need to know where a token was
taken.

# Steps

A cursor takes smaller steps than a reader. To go over a token it asks whether the script is at its
end, goes on by one position and looks back; the reader takes a token off the front. So most of the
work is in a few lemmas about runs: `peek_run`, `previous_run`, `isAtEnd_run`, `advance_run`,
`sees_run` and `accept_run`. After them the grammar is gone through reader by reader, with the same
tokens on both sides.

# Room

The bound is counted as for readers: ten levels for each token that is left and a few more. Each
call of one of the grammar's cursors either goes down a level in place or comes after a token
(`Script.Room.level`, `Script.Room.later`). The reader may be given any number of levels more, and
does the same.
-/
import Lox.Proofs.Reader.Calculus
import Lox.Proofs.Reader.Cursor

namespace Lox

/-- The tokens of a script: those before the first that ends it, that one, and those after it. The
reader is given the first two, while the cursor could look at all of them. -/
structure Script where
  body : List Token
  ending : Token
  after : List Token
  form : LoopForm
  ending_kind : ending.kind = .eof
  body_kind : ∀ t ∈ body, t.kind ≠ .eof

namespace Script

variable (r : Script)

/-- The setting of a cursor over all the tokens. -/
def cursor : Cursor.Setting := ⟨r.body ++ r.ending :: r.after, r.form⟩

/-- The setting of a reader of the script. -/
def reader : Reader.Setting := ⟨r.ending, r.form⟩

/-- What a reader has before it where the cursor stands. -/
def view (s : Cursor.State) : Reader.State := ⟨r.body.drop s.current, s.issued, s.faults⟩

/-- The token at which the cursor stands. -/
def next (s : Cursor.State) : Token := (r.body.drop s.current).headD r.ending

/-- The cursor has not looked past the end of the script. -/
def Looked (s : Cursor.State) : Prop := ∀ position ∈ s.looked, position ≤ r.body.length

/-- The bound `n` allows ten levels for each token that is left and `c` more. -/
def Room (c n : Nat) (s : Cursor.State) : Prop := 10 * (r.body.length - s.current) + c ≤ n

variable {r} {s s' : Cursor.State} {c c' n i : Nat}

/-- A call in place, one level down. -/
theorem Room.level (h : r.Room c (n + 1) s) (hs : s.current ≤ s'.current) (hc : c' + 1 ≤ c) :
    r.Room c' n s' := by
  unfold Room at *
  omega

/-- A call after a token, from any level. -/
theorem Room.later (h : r.Room c (n + 1) s) (hs : s.current < s'.current)
    (hend : s'.current ≤ r.body.length) (hc : c' ≤ 9) : r.Room c' n s' := by
  unfold Room at *
  omega

/-- There is room to go over all the tokens that are left. -/
theorem Room.seek (h : r.Room c (n + 1) s) (hs : s.current ≤ s'.current) (hc : 2 ≤ c) :
    r.body.length - s'.current < n := by
  unfold Room at h
  omega

/-- With no levels there is no room. -/
theorem not_room_zero (hc : 0 < c) : ¬ r.Room c 0 s := by
  unfold Room
  omega

/-- Within the script, the token at the position is the next one. -/
theorem getElem?_lt (hs : s.current < r.body.length) : r.body[s.current]? = some (r.next s) := by
  rw [next, List.drop_eq_getElem_cons hs, List.headD_cons, List.getElem?_eq_getElem hs]

/-- At the end of the script, the next token is the one that ends it. -/
theorem next_end (hs : s.current = r.body.length) : r.next s = r.ending := by
  rw [next, hs, List.drop_length, List.headD_nil]

/-- Within the script no token ends it. -/
theorem next_kind_lt (hs : s.current < r.body.length) : (r.next s).kind ≠ .eof :=
  r.body_kind _ (List.mem_of_getElem? (getElem?_lt hs))

/-- The cursor stands at a token that ends the script exactly where the script ends. -/
theorem next_kind_iff (hs : s.current ≤ r.body.length) :
    (r.next s).kind = .eof ↔ s.current = r.body.length := by
  rcases Nat.lt_or_eq_of_le hs with hlt | heq
  · exact iff_of_false (next_kind_lt hlt) (Nat.ne_of_lt hlt)
  · exact iff_of_true (next_end heq ▸ r.ending_kind) heq

/-- Where the next token does not end the script, the cursor stands within it. -/
theorem lt_of_next_kind (hs : s.current ≤ r.body.length) (hk : (r.next s).kind ≠ .eof) :
    s.current < r.body.length :=
  Nat.lt_of_le_of_ne hs fun heq => hk ((next_kind_iff hs).mpr heq)

/-- Within the script, the reader has the next token before it. -/
theorem view_rest_lt (hs : s.current < r.body.length) :
    (r.view s).rest = r.next s :: r.body.drop (s.current + 1) := by
  rw [view, next, List.drop_eq_getElem_cons hs, List.headD_cons]

/-- At the end, the reader has no token before it. -/
theorem view_rest_end (hs : s.current = r.body.length) : (r.view s).rest = [] := by
  rw [view, hs, List.drop_length]

end Script

-- ==== Looking at a position

namespace Cursor

/-- The state after a look at a position. -/
def State.seen (s : State) (position : Nat) : State :=
  { s with looked := position :: s.looked }

/-- What a cursor yields, if it yields something. -/
def Answer.value? {α : Type} : Answer α → Option α
  | .yields a => some a
  | _ => none

variable {r : Script} {s : State} {α β : Type}

/-- If the first of two cursors yields something, the second goes on with it. -/
theorem bind_run {x : Cursor α} {f : α → Cursor β} {setting : Setting} {a : α} {s' : State}
    (h : x setting s = (.yields a, s')) : (x >>= f) setting s = f a setting s' := by
  simp only [Bind.bind, h]

/-- Within the script and at its end there is a token to look at. -/
theorem peek_run (hs : s.current ≤ r.body.length) :
    peek r.cursor s = (.yields (r.next s), s.seen s.current) := by
  have hat : (r.body ++ r.ending :: r.after)[s.current]? = some (r.next s) := by
    rcases Nat.lt_or_eq_of_le hs with hlt | heq
    · rw [List.getElem?_append_left hlt, Script.getElem?_lt hlt]
    · rw [List.getElem?_append_right (Nat.le_of_eq heq.symm), heq, Nat.sub_self,
        List.getElem?_cons_zero, Script.next_end heq]
  simp only [peek, look, Script.cursor, hat, State.seen]

/-- Where a token was passed, it can be looked back at. -/
theorem previous_run {i : Nat} {t : Token} (hs : s.current = i + 1) (ht : r.body[i]? = some t) :
    previous r.cursor s = (.yields t, s.seen i) := by
  have hi : i < r.body.length := (List.getElem?_eq_some_iff.mp ht).1
  have hat : (r.body ++ r.ending :: r.after)[i]? = some t := by
    rw [List.getElem?_append_left hi, ht]
  simp only [previous, hs, look, Script.cursor, hat, State.seen]

-- ==== The judgement

/-- What came of a cursor that was started in `s`, beside what came of a reader. The cursor stayed
within the script and went forward, to `goal` at least if it yields something; the reader did the
same. The bound on the depth of calls was not reached if there was `room`. -/
structure Tracked (r : Script) (room : Prop) (goal : Nat) (s : State) (p : Answer α × State)
    (q : Option α × Reader.State) : Prop where
  forward : s.current ≤ p.2.current
  inside : p.2.current ≤ r.body.length
  gains : ∀ a, p.1 = .yields a → goal ≤ p.2.current
  looks : r.Looked s → r.Looked p.2
  stays : p.1 ≠ .strayed
  ends : room → p.1 ≠ .exhausted
  agrees : p.1 ≠ .exhausted → q = (p.1.value?, r.view p.2)

/-- Started in `s`, the cursor and a reader with the tokens from there on before it do the same. -/
def Tracks (r : Script) (room : Prop) (goal : Nat) (x : Cursor α) (y : Reader α) (s : State) :
    Prop :=
  Tracked r room goal s (x r.cursor s) (y r.reader (r.view s))

section Rules

variable {room room' : Prop} {goal middle : Nat} {x x' : Cursor α} {y y' : Reader α} {s' : State}

/-- A nearer goal, and more room. -/
theorem Tracks.mono {goal' : Nat} (h : Tracks r room' goal' x y s) (hgoal : goal ≤ goal')
    (hroom : room → room') : Tracks r room goal x y s :=
  { h with
    gains := fun a ha => Nat.le_trans hgoal (h.gains a ha)
    ends := fun hr => h.ends (hroom hr) }

/-- Going on where a step has led that both take, or that only the cursor takes. -/
theorem Tracks.after (h : Tracks r room goal x' y' s') (hx : x r.cursor s = x' r.cursor s')
    (hy : y r.reader (r.view s) = y' r.reader (r.view s')) (hs : s.current ≤ s'.current)
    (hl : r.Looked s → r.Looked s') : Tracks r room goal x y s := by
  unfold Tracks
  rw [hx, hy]
  exact { h with
    forward := Nat.le_trans hs h.forward
    looks := fun h₀ => h.looks (hl h₀) }

theorem tracks_pure (hs : s.current ≤ r.body.length) (hgoal : goal ≤ s.current) (a : α) :
    Tracks r room goal (pure a) (pure a) s where
  forward := Nat.le_refl _
  inside := hs
  gains _ _ := hgoal
  looks := id
  stays := nofun
  ends _ := nofun
  agrees _ := rfl

/-- Both give up. -/
theorem tracks_giveUp (hs : s.current ≤ r.body.length) :
    Tracks r room goal (giveUp : Cursor α) Reader.stop s where
  forward := Nat.le_refl _
  inside := hs
  gains := nofun
  looks := id
  stays := nofun
  ends _ := nofun
  agrees _ := rfl

/-- The bound is reached only where there was no room. -/
theorem tracks_exhaust (hs : s.current ≤ r.body.length) (hroom : ¬ room) :
    Tracks r room goal (exhaust : Cursor α) y s where
  forward := Nat.le_refl _
  inside := hs
  gains := nofun
  looks := id
  stays := nofun
  ends hr := absurd hr hroom
  agrees h := absurd rfl h

/-- One after the other. The second goes on from at least the first goal. -/
theorem Tracks.bind {f : α → Cursor β} {g : α → Reader β} (hx : Tracks r room middle x y s)
    (hf : ∀ a s', middle ≤ s'.current → s'.current ≤ r.body.length →
      Tracks r room goal (f a) (g a) s') :
    Tracks r room goal (x >>= f) (y >>= g) s := by
  unfold Tracks at hx
  rcases hrun : x r.cursor s with ⟨a | _ | _ | _, s₁⟩
  all_goals rw [hrun] at hx
  · have hy := hx.agrees nofun
    exact (hf a s₁ (hx.gains a rfl) hx.inside).after (bind_run hrun) (Reader.bind_run hy)
      hx.forward hx.looks
  · have hy := hx.agrees nofun
    unfold Tracks
    simp only [Bind.bind, hrun, hy, Answer.value?]
    exact ⟨hx.forward, hx.inside, nofun, hx.looks, nofun, fun _ => nofun, fun _ => rfl⟩
  · exact absurd rfl hx.stays
  · unfold Tracks
    simp only [Bind.bind, hrun]
    exact ⟨hx.forward, hx.inside, nofun, hx.looks, nofun, fun hr => absurd rfl (hx.ends hr),
      fun h => absurd rfl h⟩

-- ==== Steps of both

theorem tracks_note (hs : s.current ≤ r.body.length) (token : Token) (problem : ParseProblem) :
    Tracks r room s.current (note token problem) (Reader.note token problem) s :=
  ⟨Nat.le_refl _, hs, fun _ _ => Nat.le_refl _, id, nofun, fun _ => nofun, fun _ => rfl⟩

theorem tracks_fresh (hs : s.current ≤ r.body.length) :
    Tracks r room s.current fresh Reader.fresh s :=
  ⟨Nat.le_refl _, hs, fun _ _ => Nat.le_refl _, id, nofun, fun _ => nofun, fun _ => rfl⟩

theorem tracks_form (hs : s.current ≤ r.body.length) :
    Tracks r room s.current form Reader.form s :=
  ⟨Nat.le_refl _, hs, fun _ _ => Nat.le_refl _, id, nofun, fun _ => nofun, fun _ => rfl⟩

/-- A choice by what both know. -/
theorem tracks_ite {c : Prop} [Decidable c] (hx : c → Tracks r room goal x y s)
    (hx' : ¬ c → Tracks r room goal x' y' s) :
    Tracks r room goal (if c then x else x') (if c then y else y') s := by
  split
  next h => exact hx h
  next h => exact hx' h

/-- A node is made last, from what was read. -/
theorem tracks_made (hs : s.current ≤ r.body.length) (hgoal : goal ≤ s.current) (make : Nat → α) :
    Tracks r room goal (do return make (← fresh)) (do return make (← Reader.fresh)) s :=
  (tracks_fresh hs).bind fun id _ hs' hend => tracks_pure hend (Nat.le_trans hgoal hs') (make id)

/-- A look within the script, or at its end. -/
theorem looked_seen {position : Nat} (hp : position ≤ r.body.length) (h : r.Looked s) :
    r.Looked (s.seen position) := by
  intro p hmem
  rcases List.mem_cons.mp hmem with rfl | hmem
  · exact hp
  · exact h p hmem

section Looking

variable {f : Token → Cursor α} {g : Token → Reader α}

/-- The cursor looks at the next token. -/
theorem tracks_peek (hs : s.current ≤ r.body.length)
    (h : ∀ s', s'.current = s.current → Tracks r room goal (f (r.next s)) y s') :
    Tracks r room goal (peek >>= f) y s :=
  (h (s.seen s.current) rfl).after (bind_run (peek_run hs)) rfl (Nat.le_refl _) (looked_seen hs)

/-- The reader looks at the next token. -/
theorem tracks_reader_peek (h : Tracks r room goal x (g (r.next s)) s) :
    Tracks r room goal x (Reader.peek >>= g) s :=
  h.after rfl rfl (Nat.le_refl _) id

/-- Both look at the next token. -/
theorem tracks_peek_peek (hs : s.current ≤ r.body.length)
    (h : ∀ s', s'.current = s.current → Tracks r room goal (f (r.next s')) (g (r.next s')) s') :
    Tracks r room goal (peek >>= f) (Reader.peek >>= g) s := by
  refine tracks_peek hs fun s' hs' => ?_
  have hnext : r.next s' = r.next s := by rw [Script.next, hs', Script.next]
  rw [← hnext]
  exact tracks_reader_peek (h s' hs')

/-- The cursor looks back at the token before the next one. -/
theorem tracks_previous {i : Nat} {t : Token} (hs : s.current = i + 1) (ht : r.body[i]? = some t)
    (h : ∀ s', s'.current = s.current → Tracks r room goal (f t) y s') :
    Tracks r room goal (previous >>= f) y s :=
  have hi : i < r.body.length := (List.getElem?_eq_some_iff.mp ht).1
  (h (s.seen i) rfl).after (bind_run (previous_run hs ht)) rfl (Nat.le_refl _)
    (looked_seen (Nat.le_of_lt hi))

end Looking

-- ==== Kinds of tokens

/-- The cursor knows whether it is at the end. -/
theorem isAtEnd_run (hs : s.current ≤ r.body.length) :
    isAtEnd r.cursor s =
      (.yields (decide (s.current = r.body.length)), s.seen s.current) := by
  rw [isAtEnd, bind_run (peek_run hs), decide_eq_decide.mpr (Script.next_kind_iff hs)]
  rfl

/-- Going over a token looks at it before and after. -/
theorem advance_run (hs : s.current < r.body.length) :
    ∃ s', advance r.cursor s = (.yields (r.next s), s') ∧
      Reader.skip r.reader (r.view s) = (some (), r.view s') ∧
      s'.current = s.current + 1 ∧ (r.Looked s → r.Looked s') := by
  have hs₀ := Nat.le_of_lt hs
  let past : State := { s.seen s.current with current := s.current + 1 }
  have hpast : previous r.cursor past = (.yields (r.next s), past.seen s.current) :=
    previous_run rfl (Script.getElem?_lt hs)
  refine ⟨past.seen s.current, ?_, ?_, rfl, fun h₀ => looked_seen hs₀ (looked_seen hs₀ h₀)⟩
  · rw [advance, bind_run (isAtEnd_run hs₀), decide_eq_false (Nat.ne_of_lt hs), ← hpast]
    rfl
  · simp only [Reader.skip, Script.view, List.tail_drop]
    rfl

/-- Both go over the next token, which does not end the script. -/
theorem tracks_advance {f : Token → Cursor α} {g : Unit → Reader α} (hs : s.current < r.body.length)
    (h : ∀ s', s'.current = s.current + 1 → Tracks r room goal (f (r.next s)) (g ()) s') :
    Tracks r room goal (advance >>= f) (Reader.skip >>= g) s := by
  obtain ⟨s', hx, hy, hs', hl⟩ := advance_run hs
  exact (h s' hs').after (bind_run hx) (Reader.bind_run hy) (by omega) hl

/-- The cursor asks whether the next token ends the script. -/
theorem tracks_isAtEnd (hs : s.current ≤ r.body.length)
    (hend : ∀ s', s'.current = s.current → s'.current = r.body.length → Tracks r room goal x y s')
    (hmore : ∀ s', s'.current = s.current → s'.current < r.body.length →
      Tracks r room goal x' y s') :
    Tracks r room goal (do if ← isAtEnd then x else x') y s := by
  rcases Nat.lt_or_eq_of_le hs with hlt | heq
  · refine (hmore (s.seen s.current) rfl hlt).after ?_ rfl (Nat.le_refl _) (looked_seen hs)
    rw [bind_run (isAtEnd_run hs), decide_eq_false (Nat.ne_of_lt hlt)]
    rfl
  · refine (hend (s.seen s.current) rfl heq).after ?_ rfl (Nat.le_refl _) (looked_seen hs)
    rw [bind_run (isAtEnd_run hs), decide_eq_true heq]
    rfl

/-- Both ask whether the next token ends the script. -/
theorem tracks_atEnd (hs : s.current ≤ r.body.length)
    (hend : ∀ s', s'.current = r.body.length → Tracks r room goal x y s')
    (hmore : ∀ s', s'.current = s.current → s'.current < r.body.length →
      Tracks r room goal x' y' s') :
    Tracks r room goal (do if ← isAtEnd then x else x') (do if ← Reader.atEnd then y else y') s := by
  refine tracks_isAtEnd hs (fun s' hs' heq => ?_) fun s' hs' hlt => ?_
  · refine (hend s' heq).after rfl ?_ (Nat.le_refl _) id
    simp only [Bind.bind, Reader.atEnd, Script.view_rest_end heq]
    rfl
  · refine (hmore s' hs' hlt).after rfl ?_ (Nat.le_refl _) id
    simp only [Bind.bind, Reader.atEnd, Script.view_rest_lt hlt]
    rfl

/-- Asking for a kind of token moves nothing, and both get the same answer. A token of the kind that
is asked for is in the script. -/
theorem sees_run (hs : s.current ≤ r.body.length) (kind : Kind) :
    ∃ found s', sees kind r.cursor s = (.yields found, s') ∧
      Reader.sees kind r.reader (r.view s) = (some found, r.view s') ∧
      s'.current = s.current ∧ (r.Looked s → r.Looked s') ∧
      (found = true → s.current < r.body.length) := by
  rcases Nat.lt_or_eq_of_le hs with hlt | heq
  · refine ⟨decide ((r.next s).kind = kind), (s.seen s.current).seen s.current, ?_, ?_, rfl,
      fun h₀ => looked_seen hs (looked_seen hs h₀), fun _ => hlt⟩
    · rw [sees, bind_run (isAtEnd_run hs), decide_eq_false (Nat.ne_of_lt hlt)]
      exact bind_run (peek_run hs)
    · simp only [Reader.sees, Script.view_rest_lt hlt]
      rfl
  · refine ⟨false, s.seen s.current, ?_, ?_, rfl, looked_seen hs, fun h => by simp at h⟩
    · rw [sees, bind_run (isAtEnd_run hs), decide_eq_true heq]
      rfl
    · simp only [Reader.sees, Script.view_rest_end heq]
      rfl

/-- Both find a token of the kind, or neither does. -/
theorem tracks_sees (hs : s.current ≤ r.body.length) {kind : Kind}
    (hyes : ∀ s', s'.current = s.current → s'.current < r.body.length → Tracks r room goal x y s')
    (hno : ∀ s', s'.current = s.current → Tracks r room goal x' y' s') :
    Tracks r room goal (do if ← sees kind then x else x')
      (do if ← Reader.sees kind then y else y') s := by
  obtain ⟨found, s', hx, hy, hs', hl, hlt⟩ := sees_run hs kind
  have hboth : Tracks r room goal (if found then x else x') (if found then y else y') s' :=
    tracks_ite (fun h => hyes s' hs' (hs' ▸ hlt h)) fun _ => hno s' hs'
  exact hboth.after (bind_run hx) (Reader.bind_run hy) (Nat.le_of_eq hs'.symm) hl

/-- Both note a fault at the same token and give up. -/
theorem tracks_fail (hs : s.current ≤ r.body.length) (problem : ParseProblem) :
    Tracks r room goal (fail problem : Cursor α) (Reader.fail problem) s :=
  tracks_peek_peek hs fun s' hs' =>
    (tracks_note (hs' ▸ hs) (r.next s') problem).bind fun _ _ _ hend => tracks_giveUp hend

/-- Both take a token of the kind, or neither does. -/
theorem accept_run (hs : s.current ≤ r.body.length) (kind : Kind) :
    ∃ found s', accept kind r.cursor s = (.yields found, s') ∧
      Reader.accept kind r.reader (r.view s) = (some found, r.view s') ∧
      s'.current = s.current + found.toNat ∧ (r.Looked s → r.Looked s') ∧
      (found = true → s.current < r.body.length) := by
  obtain ⟨found, s₁, hx, hy, hs₁, hl₁, hlt⟩ := sees_run hs kind
  rcases found with _ | _
  · refine ⟨false, s₁, ?_, ?_, hs₁, hl₁, hlt⟩
    · rw [accept, bind_run hx]
      rfl
    · rw [Reader.accept, Reader.bind_run hy]
      rfl
  · obtain ⟨s₂, hx₂, hy₂, hs₂, hl₂⟩ := advance_run (hs₁.symm ▸ hlt rfl)
    refine ⟨true, s₂, ?_, ?_, by rw [hs₂, hs₁]; rfl, fun h₀ => hl₂ (hl₁ h₀), hlt⟩
    · rw [accept, bind_run hx]
      exact bind_run hx₂
    · rw [Reader.accept, Reader.bind_run hy]
      exact Reader.bind_run hy₂

/-- Both go over a token of the kind, or both leave it. -/
theorem tracks_accept (hs : s.current ≤ r.body.length) {kind : Kind}
    (hyes : ∀ s', s'.current = s.current + 1 → s'.current ≤ r.body.length →
      r.body[s.current]? = some (r.next s) → Tracks r room goal x y s')
    (hno : ∀ s', s'.current = s.current → Tracks r room goal x' y' s') :
    Tracks r room goal (do if ← accept kind then x else x')
      (do if ← Reader.accept kind then y else y') s := by
  obtain ⟨found, s', hx, hy, hs', hl, hlt⟩ := accept_run hs kind
  have hboth : Tracks r room goal (if found then x else x') (if found then y else y') s' := by
    refine tracks_ite (fun h => ?_) fun h => ?_
    · subst h
      have hlt := hlt rfl
      exact hyes s' hs' (hs' ▸ hlt) (Script.getElem?_lt hlt)
    · rw [Bool.not_eq_true] at h
      subst h
      exact hno s' hs'
  exact hboth.after (bind_run hx) (Reader.bind_run hy) (by omega) hl

/-- Both take the token that is expected, or give up. -/
theorem tracks_expect (hs : s.current ≤ r.body.length) (kind : Kind) (problem : ParseProblem) :
    Tracks r room (s.current + 1) (expect kind problem) (Reader.expect kind problem) s := by
  have hboth : Tracks r room (s.current + 1)
      (do if ← sees kind then advance else fail problem)
      (do if ← Reader.sees kind then (do Reader.skip; pure (r.next s))
          else Reader.fail problem) s := by
    refine tracks_sees hs (fun s₁ hs₁ hlt => ?_) fun s₁ hs₁ => tracks_fail (hs₁ ▸ hs) problem
    obtain ⟨s₂, hx₂, hy₂, hs₂, hl₂⟩ := advance_run hlt
    have hnext : r.next s₁ = r.next s := by rw [Script.next, hs₁, Script.next]
    exact (tracks_pure (hs₂ ▸ hlt) (by omega) (r.next s)).after (hnext ▸ hx₂)
      (Reader.bind_run hy₂) (by omega) hl₂
  exact hboth.after rfl rfl (Nat.le_refl _) id

end Rules

-- ==== Expressions

section Parts

variable {room : Prop} {goal : Nat}

theorem tracks_join (hs : s.current ≤ r.body.length) (left : Expr) (operator : Token)
    (right : Expr) :
    Tracks r room s.current (join left operator right) (Reader.join left operator right) s :=
  (tracks_fresh hs).bind fun _ _ hs' hend => tracks_ite
    (fun _ => tracks_pure hend hs' _) fun _ => tracks_pure hend hs' _

/-- A token that is an expression by itself. -/
theorem tracks_leaf (hs : s.current < r.body.length) (make : Token → Nat → Expr) :
    Tracks r room (s.current + 1) (do let t ← advance; return make t (← fresh))
      (do Reader.skip; return make (r.next s) (← Reader.fresh)) s :=
  tracks_advance hs fun _ hs' => tracks_made (by omega) (by omega) _

/-- An expression that needs no operator takes a token. The cursor moves on behind it, and what
stands in parentheses is read from there. -/
theorem tracks_primary {inner : Cursor Expr} {inner' : Reader Expr}
    (hs : s.current ≤ r.body.length)
    (hinner : ∀ s', s.current < s'.current → s'.current ≤ r.body.length →
      Tracks r room (s'.current + 1) inner inner' s') :
    Tracks r room (s.current + 1) (primary inner) (Reader.primary inner') s := by
  refine tracks_peek_peek hs fun s₁ hs₁ => ?_
  have hlt := Script.lt_of_next_kind (hs₁ ▸ hs : s₁.current ≤ r.body.length)
  rw [← hs₁]
  cases hk : (r.next s₁).kind with
  | «false» => exact tracks_leaf (hlt (by simp [hk])) fun _ id => .literal id (.bool false)
  | «true» => exact tracks_leaf (hlt (by simp [hk])) fun _ id => .literal id (.bool true)
  | nil => exact tracks_leaf (hlt (by simp [hk])) fun _ id => .literal id .nil
  | number => exact tracks_leaf (hlt (by simp [hk])) fun t id => .literal id t.literal
  | string => exact tracks_leaf (hlt (by simp [hk])) fun t id => .literal id t.literal
  | identifier => exact tracks_leaf (hlt (by simp [hk])) fun t id => .ident id t
  | leftParen =>
      have hlt := hlt (by simp [hk])
      refine tracks_advance hlt fun s₂ hs₂ => ?_
      refine (hinner s₂ (by omega) (by omega)).bind fun e s₃ hs₃ hend₃ => ?_
      refine (tracks_expect hend₃ _ _).bind fun _ s₄ hs₄ hend₄ => ?_
      exact tracks_made hend₄ (by omega) _
  | _ => exact tracks_fail (hs₁ ▸ hs) _

/-- After an equals sign the cursor looks back at it. -/
theorem tracks_assignment {value : Cursor Expr} {value' : Reader Expr}
    (hs : s.current ≤ r.body.length) (target : Expr)
    (hvalue : ∀ s', s.current < s'.current → s'.current ≤ r.body.length →
      Tracks r room (s'.current + 1) value value' s') :
    Tracks r room s.current (assignment target value) (Reader.assignment target value') s := by
  refine tracks_reader_peek (tracks_accept hs (fun s₁ hs₁ hend₁ hequals => ?_) fun s₁ hs₁ => ?_)
  · refine tracks_previous hs₁ hequals fun s₂ hs₂ => ?_
    refine (hvalue s₂ (by omega) (by omega)).bind fun v s₃ hs₃ hend₃ => ?_
    cases target with
    | ident id name => exact tracks_made hend₃ (by omega) _
    | _ =>
        exact (tracks_note hend₃ _ _).bind fun _ s₄ hs₄ hend₄ => tracks_pure hend₄ (by omega) _
  · exact tracks_pure (hs₁ ▸ hs) (by omega) target

end Parts

-- The reader may have a greater bound: it then does what it did, if the cursor's was not reached.
variable {d : Nat}

mutual

/-- An expression takes a token. -/
theorem tracks_expression : ∀ n s, s.current ≤ r.body.length →
    Tracks r (r.Room 4 n s) (s.current + 1) (expression n) (Reader.expression (d + n)) s
  | 0, s, hs => tracks_exhaust hs (Script.not_room_zero (by decide))
  | n + 1, s, hs => by
      have htarget := tracks_operation n 1 s hs
      refine (htarget.mono (Nat.le_refl _) fun room => room.level (Nat.le_refl _) (by decide)).bind
        fun target s₁ hs₁ hend₁ => ?_
      refine (tracks_assignment hend₁ target fun s₂ hs₂ hend₂ => ?_).mono hs₁ id
      exact (tracks_expression n s₂ hend₂).mono (Nat.le_refl _)
        fun room => room.later (by omega) hend₂ (by decide)

theorem tracks_operation : ∀ n least s, s.current ≤ r.body.length →
    Tracks r (r.Room 3 n s) (s.current + 1) (operation n least) (Reader.operation (d + n) least) s
  | 0, _, s, hs => tracks_exhaust hs (Script.not_room_zero (by decide))
  | n + 1, least, s, hs => by
      have hleft := tracks_unary n s hs
      refine (hleft.mono (Nat.le_refl _) fun room => room.level (Nat.le_refl _) (by decide)).bind
        fun left s₁ hs₁ hend₁ => ?_
      exact (tracks_operators n least left s₁ hend₁).mono hs₁
        fun room => room.later (by omega) hend₁ (by decide)

/-- Each operator is passed and looked back at. -/
theorem tracks_operators : ∀ n least left s, s.current ≤ r.body.length →
    Tracks r (r.Room 1 n s) s.current (operators n least left)
      (Reader.operators (d + n) least left) s
  | 0, _, _, s, hs => tracks_exhaust hs (Script.not_room_zero (by decide))
  | n + 1, least, left, s, hs => by
      refine tracks_peek_peek hs fun s₁ hs₁ => ?_
      have hlt := Script.lt_of_next_kind (hs₁ ▸ hs : s₁.current ≤ r.body.length)
      cases hp : (r.next s₁).kind.precedence? with
      | none => exact tracks_pure (hs₁ ▸ hs) (by omega) left
      | some precedence =>
          have hlt := hlt fun h => by rw [h] at hp; cases hp
          refine tracks_ite (fun _ => ?_) fun _ => tracks_pure (hs₁ ▸ hs) (by omega) left
          refine tracks_advance hlt fun s₂ hs₂ => ?_
          have hright := tracks_operation n (precedence + 1) s₂ (hs₂ ▸ hlt)
          refine (hright.mono (Nat.le_refl _) fun room =>
            room.later (by omega) (by omega) (by decide)).bind fun right s₃ hs₃ hend₃ => ?_
          refine (tracks_join hend₃ left _ right).bind fun e s₄ hs₄ hend₄ => ?_
          exact (tracks_operators n least e s₄ hend₄).mono (by omega)
            fun room => room.later (by omega) hend₄ (by decide)

/-- An operand takes a token. -/
theorem tracks_unary : ∀ n s, s.current ≤ r.body.length →
    Tracks r (r.Room 2 n s) (s.current + 1) (unary n) (Reader.unary (d + n)) s
  | 0, s, hs => tracks_exhaust hs (Script.not_room_zero (by decide))
  | n + 1, s, hs => by
      refine tracks_peek_peek hs fun s₁ hs₁ => ?_
      have hend₁ : s₁.current ≤ r.body.length := hs₁ ▸ hs
      refine tracks_ite (fun hk => ?_) fun _ => ?_
      · have hlt := Script.lt_of_next_kind hend₁ fun h => by rw [h] at hk; simp at hk
        refine tracks_advance hlt fun s₂ hs₂ => ?_
        have hoperand := tracks_unary n s₂ (hs₂ ▸ hlt)
        refine (hoperand.mono (Nat.le_refl _) fun room =>
          room.later (by omega) (by omega) (by decide)).bind fun operand s₃ hs₃ hend₃ => ?_
        exact tracks_made hend₃ (by omega) _
      · refine (tracks_primary hend₁ fun s₂ hs₂ hend₂ => ?_).bind fun callee s₂ hs₂ hend₂ => ?_
        · exact (tracks_expression n s₂ hend₂).mono (Nat.le_refl _)
            fun room => room.later (by omega) hend₂ (by decide)
        · exact (tracks_calls n callee s₂ hend₂).mono (by omega)
            fun room => room.later (by omega) hend₂ (by decide)

/-- Any number of argument lists, each of which takes its parentheses. The cursor stays where it is
if there is none. -/
theorem tracks_calls : ∀ n callee s, s.current ≤ r.body.length →
    Tracks r (r.Room 1 n s) s.current (calls n callee) (Reader.calls (d + n) callee) s
  | 0, _, s, hs => tracks_exhaust hs (Script.not_room_zero (by decide))
  | n + 1, callee, s, hs => by
      have close : ∀ args s', s.current < s'.current → s'.current ≤ r.body.length →
          Tracks r (r.Room 1 (n + 1) s) s.current
            (do let paren ← expect .rightParen .unclosedArguments
                calls n (.call (← fresh) callee paren args))
            (do let paren ← Reader.expect .rightParen .unclosedArguments
                Reader.calls (d + n) (.call (← Reader.fresh) callee paren args)) s' := by
        intro args s₁ hs₁ hend₁
        refine (tracks_expect hend₁ _ _).bind fun paren s₂ hs₂ hend₂ => ?_
        refine (tracks_fresh hend₂).bind fun id s₃ hs₃ hend₃ => ?_
        exact (tracks_calls n _ s₃ hend₃).mono (by omega)
          fun room => room.later (by omega) hend₃ (by decide)
      refine tracks_accept hs (fun s₁ hs₁ hend₁ _ => ?_) fun s₁ hs₁ =>
        tracks_pure (hs₁ ▸ hs) (by omega) callee
      refine tracks_sees hend₁ (fun s₂ hs₂ hlt => close [] s₂ (by omega) (by omega))
        fun s₂ hs₂ => ?_
      have hargs := tracks_arguments n [] s₂ (hs₂ ▸ hend₁)
      exact (hargs.mono (Nat.le_refl _) fun room =>
        room.later (by omega) (by omega) (by decide)).bind fun args s₃ hs₃ hend₃ =>
          close args s₃ (by omega) hend₃

/-- Each argument takes a token, and so does the comma after it. Too many are noted on both sides at
the same token. -/
theorem tracks_arguments : ∀ n before s, s.current ≤ r.body.length →
    Tracks r (r.Room 5 n s) s.current (arguments n before) (Reader.arguments (d + n) before) s
  | 0, _, s, hs => tracks_exhaust hs (Script.not_room_zero (by decide))
  | n + 1, before, s, hs => by
      have next : ∀ s', s.current ≤ s'.current → s'.current ≤ r.body.length →
          Tracks r (r.Room 5 (n + 1) s) s.current
            (do let arg ← expression n
                if ← accept .comma then arguments n (before ++ [arg])
                else return before ++ [arg])
            (do let arg ← Reader.expression (d + n)
                if ← Reader.accept .comma then Reader.arguments (d + n) (before ++ [arg])
                else return before ++ [arg]) s' := by
        intro s₁ hs₁ hend₁
        have harg := tracks_expression n s₁ hend₁
        refine (harg.mono (Nat.le_refl _) fun room => room.level hs₁ (by decide)).bind
          fun arg s₂ hs₂ hend₂ => ?_
        refine tracks_accept hend₂ (fun s₃ hs₃ hend₃ _ => ?_) fun s₃ hs₃ =>
          tracks_pure (hs₃ ▸ hend₂) (by omega) _
        exact (tracks_arguments n _ s₃ hend₃).mono (by omega)
          fun room => room.later (by omega) hend₃ (by decide)
      refine tracks_ite (fun _ => ?_) fun _ => next s (Nat.le_refl _) hs
      refine tracks_peek_peek hs fun s₁ hs₁ => ?_
      exact (tracks_note (hs₁ ▸ hs) _ _).bind fun _ s₂ hs₂ hend₂ => next s₂ (by omega) hend₂

end

end Cursor

end Lox
