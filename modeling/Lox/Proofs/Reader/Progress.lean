/-
What every reader does to its state, whether it succeeds or not.

# Going forward

Reading only ever goes forward: tokens are taken off the front, identities are counted up, and
faults are added at the end (`State.Leads`). This is a preorder on states, and each step of a reader
leads from its state to the next (`skip`, `fresh`, `note`).

# Two ways to end

A tree that is made holds distinct identities, all of them taken while it was read (`Made`). A
reader that gives up has noted a fault, as long as its bound on the depth of calls was not reached
(`GaveUp`); since every call either consumes a token or goes down one of at most nine levels, a
bound of ten for each token is never reached.

# One statement for all readers

`SoundExpr`, `Sound` and `SoundFrom` say this of a reader: of one that makes something from at least
one token, or of one that goes on from what was made before. The three facts are proved together, by
induction on the bound: that the bound is not reached needs that tokens are consumed, and that
identities are distinct needs that they are counted up.
-/
import Lox.Proofs.Reader.Calculus
import Lox.Proofs.Tree.Identity

namespace Lox.Reader

-- ==== Going forward

/-- The state `s'` can come after `s`. -/
structure State.Leads (s s' : State) : Prop where
  rest : s'.rest <:+ s.rest
  issued : s.issued ≤ s'.issued
  faults : s.faults <+: s'.faults

namespace State.Leads

variable {s s₁ s₂ : State}

/-- Reading may do nothing. -/
theorem refl (s : State) : s.Leads s :=
  ⟨List.suffix_refl _, Nat.le_refl _, List.prefix_refl _⟩

/-- Reading goes on from where it has come to. -/
theorem trans (h₁ : s.Leads s₁) (h₂ : s₁.Leads s₂) : s.Leads s₂ :=
  ⟨h₂.rest.trans h₁.rest, Nat.le_trans h₁.issued h₂.issued, h₁.faults.trans h₂.faults⟩

/-- There are no more tokens left than before. -/
theorem length_le (h : s.Leads s₁) : s₁.rest.length ≤ s.rest.length := h.rest.length_le

/-- There are no fewer faults than before. -/
theorem faults_length_le (h : s.Leads s₁) : s.faults.length ≤ s₁.faults.length :=
  h.faults.length_le

/-- Where no fault is noted, none was before. -/
theorem faults_nil (h : s.Leads s₁) (hnone : s₁.faults = []) : s.faults = [] :=
  List.prefix_nil.mp (hnone ▸ h.faults)

/-- Going over the first token. -/
theorem skip {t : Token} {rest : List Token} (hr : s.rest = t :: rest) :
    s.Leads { s with rest := rest } :=
  ⟨hr ▸ List.suffix_cons t rest, Nat.le_refl _, List.prefix_refl _⟩

/-- Taking an identity. -/
theorem fresh : s.Leads { s with issued := s.issued + 1 } :=
  ⟨List.suffix_refl _, Nat.le_succ _, List.prefix_refl _⟩

/-- Noting a fault. -/
theorem note (f : ParseFault) : s.Leads { s with faults := s.faults ++ [f] } :=
  ⟨List.suffix_refl _, Nat.le_refl _, List.prefix_append _ _⟩

end State.Leads

/-- A token that is not the end stands at the front. -/
theorem State.front_of_kind {s : State} {eof t : Token} (heof : eof.kind = .eof)
    (ht : t = s.rest.headD eof) (hk : t.kind ≠ .eof) : ∃ rest, s.rest = t :: rest := by
  cases hr : s.rest with
  | nil =>
      rw [hr, List.headD_nil] at ht
      exact absurd (ht ▸ heof) hk
  | cons t' rest =>
      rw [hr, List.headD_cons] at ht
      exact ⟨rest, by rw [ht]⟩

/-- Every identifier among the tokens has a name. -/
def Named (tokens : List Token) : Prop :=
  ∀ t ∈ tokens, t.kind = .identifier → t.lexeme ≠ []

/-- The tokens that are left are named if all of them were. -/
theorem Named.of_leads {s s' : State} (h : Named s.rest) (hl : s.Leads s') : Named s'.rest :=
  fun t ht => h t (hl.rest.subset ht)

-- ==== The two ways to end

/-- Reading from `s` to `s'` made something with these identities, all after `lo`. -/
structure Made (lo : Nat) (ids : List Nat) (s s' : State) : Prop where
  leads : s.Leads s'
  within : Within lo s'.issued ids

/-- Reading gave up between `s` and `s'`. If the bound `n` allows ten levels for each token and `c`
more, a fault was noted. -/
structure GaveUp (c n : Nat) (s s' : State) : Prop where
  leads : s.Leads s'
  noted : 10 * s.rest.length + c ≤ n → s.faults.length < s'.faults.length

/-- What is read first does not make up for a fault noted later. -/
theorem GaveUp.after {c n c' n' : Nat} {s s₁ s₂ : State} (h : GaveUp c' n' s₁ s₂)
    (hl : s.Leads s₁) (room : 10 * s.rest.length + c ≤ n → 10 * s₁.rest.length + c' ≤ n') :
    GaveUp c n s s₂ where
  leads := hl.trans h.leads
  noted hn := Nat.lt_of_le_of_lt hl.faults_length_le (h.noted (room hn))

/-- Giving up with a note. -/
theorem GaveUp.note {c n : Nat} {s s₁ : State} (hl : s.Leads s₁) (f : ParseFault) :
    GaveUp c n s { s₁ with faults := s₁.faults ++ [f] } where
  leads := hl.trans (.note f)
  noted _ := by
    have := hl.faults_length_le
    simp only [List.length_append, List.length_singleton]
    omega

/-- Giving up because the bound is reached. -/
theorem GaveUp.bound {c : Nat} {s : State} (hc : 0 < c) : GaveUp c 0 s s where
  leads := .refl s
  noted hn := by omega

/-- The reader makes a tree from at least one token, or gives up. -/
def SoundExpr (c n : Nat) (x : Reader Expr) : Prop :=
  ∀ setting s, setting.eof.kind = .eof →
    Meets x setting s (fun e s' => Made s.issued e.ids s s' ∧ s'.rest.length < s.rest.length)
      (GaveUp c n s)

/-- The reader makes something from at least one token, or gives up. What it makes has a good shape
if the tokens are named. -/
def Sound {α : Type} (ids : α → List Nat) (good : α → Prop) (c n : Nat) (x : Reader α) : Prop :=
  ∀ setting s, setting.eof.kind = .eof →
    Meets x setting s
      (fun a s' => Made s.issued (ids a) s s' ∧ s'.rest.length < s.rest.length ∧
        (Named s.rest → good a))
      (GaveUp c n s)

/-- The reader goes on from a tree made already, or gives up. -/
def SoundFrom {α : Type} (ids : α → List Nat) (c n : Nat) (before : List Nat) (x : Reader α) :
    Prop :=
  ∀ setting s lo, setting.eof.kind = .eof → lo ≤ s.issued → Within lo s.issued before →
    Meets x setting s (fun a s' => Made lo (ids a) s s') (GaveUp c n s)

end Lox.Reader
