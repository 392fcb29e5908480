/-
What parsing a script makes.

The tree of any script, with or without faults, has distinct identities, all of them taken by this
parse, and declarations only where a scope can take them (`parse_made`). A declaration is dropped
only with a note: the bound on the depth of calls is never reached, since it is ten for each token
and more (`depthBound`).

All of this is what `Reader.statementReaders` says of the reader of declarations, seen from outside:
a parse is one run of that reader, from the first token on and with no faults noted (`parse_meets`).
The distinct identities do not ask where the tokens are from (`parse_within`); the shape of the tree
does, since it has to be known that every identifier has a name, and those of a script have
(`named_scan`).

Without diagnostics the run is one without faults, and the other way round (`parse_clean`,
`parse_of_run`). This is how later modules come from a parse to the run of the reader and back.
-/
import Lox.Proofs.Reader.Statement
import Lox.Proofs.Token.Segment

namespace Lox

-- ==== The end of the script

/-- The token that stands for the end of the script is of that kind. -/
theorem Token.ending_kind (tokens : List Token) : (Token.ending tokens).kind = .eof := by
  unfold Token.ending
  split
  next eof h => simpa using List.find?_some h
  next => rfl

/-- In the tokens of a script every identifier has a name. -/
theorem named_scan (source : Bytes) : Reader.Named (Token.body (scan source).tokens) := by
  intro t ht hk
  refine Segment.lexeme_ne_nil_of_mem (fun s => Segment.text_ne_nil_of_mem)
    (List.takeWhile_subset _ ht) ?_
  rw [hk]
  exact Kind.noConfusion

-- ==== The tree

variable {tokens : List Token} {issued : Nat} {form : LoopForm}

/-- What a parse leaves, as an answer of the reader of declarations. -/
theorem parse_meets {Q : Parse → Prop}
    (h : Reader.Meets (Reader.declarations (Reader.depthBound (Token.body tokens).length) false)
      ⟨Token.ending tokens, form⟩ ⟨Token.body tokens, issued, []⟩
      (fun program s => Q ⟨program, s.faults.map ParseFault.diagnostic, s.issued⟩)
      (fun s => Q ⟨[], s.faults.map ParseFault.diagnostic, s.issued⟩)) :
    Q (parse tokens issued form) := by
  unfold Reader.Meets at h
  unfold parse
  dsimp only
  revert h
  generalize Reader.declarations _ _ _ _ = r
  rcases r with ⟨_ | program, s⟩ <;> exact id

/-- Whatever the tokens are, the nodes of the tree have distinct identities, all of them taken by this
parse. -/
theorem parse_within (tokens : List Token) (issued : Nat) (form : LoopForm) :
    issued ≤ (parse tokens issued form).issued ∧
      Within issued (parse tokens issued form).issued
        (Stmt.idsAll (parse tokens issued form).program) := by
  refine parse_meets
    (Q := fun p => issued ≤ p.issued ∧ Within issued p.issued (Stmt.idsAll p.program)) ?_
  refine ((Reader.statementReaders _).declarations false _ _ (Token.ending_kind _)).mono
    (fun program s h => ?_) fun s h => ?_
  · exact ⟨h.1.leads.issued, h.1.within⟩
  · exact ⟨h.leads.issued, .nil⟩

/-- A tree that was read: distinct identities from the interval that the parse took, and
declarations only in scopes. -/
structure Parse.Made (issued : Nat) (p : Parse) : Prop where
  issued_le : issued ≤ p.issued
  within : Within issued p.issued (Stmt.idsAll p.program)
  formed : Stmt.FormedAll p.program

/-- Every script gives such a tree. -/
theorem parse_made (source : Bytes) (issued : Nat) (form : LoopForm) :
    (parse (scan source).tokens issued form).Made issued := by
  refine parse_meets ?_
  refine ((Reader.statementReaders _).declarations false _ _ (Token.ending_kind _)).mono
    (fun program s h => ?_) fun s h => ?_
  · exact ⟨h.1.leads.issued, h.1.within, h.2 (named_scan source)⟩
  · exact ⟨h.leads.issued, .nil, trivial⟩

/-- A parse without diagnostics is a reading without faults. -/
theorem parse_clean (h : (parse tokens issued form).diagnostics = []) :
    ∃ s, Reader.declarations (Reader.depthBound (Token.body tokens).length) false
        ⟨Token.ending tokens, form⟩ ⟨Token.body tokens, issued, []⟩
          = (some (parse tokens issued form).program, s) ∧
      s.faults = [] ∧ s.issued = (parse tokens issued form).issued := by
  have hmeets := (Reader.statementReaders (Reader.depthBound (Token.body tokens).length)).declarations
    false ⟨Token.ending tokens, form⟩ ⟨Token.body tokens, issued, []⟩ (Token.ending_kind _)
  unfold parse at h ⊢
  dsimp only at h ⊢
  rcases hrun : Reader.declarations (Reader.depthBound (Token.body tokens).length) false
      ⟨Token.ending tokens, form⟩ ⟨Token.body tokens, issued, []⟩ with ⟨_ | program, s⟩
  · -- giving up would have been noted
    rw [hrun] at h
    have hnoted := (hmeets.stopped hrun).noted (by dsimp only [Reader.depthBound]; omega)
    rw [List.map_eq_nil_iff.mp h] at hnoted
    exact absurd hnoted (Nat.not_lt_zero _)
  · rw [hrun] at h
    exact ⟨s, rfl, List.map_eq_nil_iff.mp h, rfl⟩

/-- A reading without faults is what the parse comes to. -/
theorem parse_of_run {program : List Stmt} {s : Reader.State}
    (h : Reader.declarations (Reader.depthBound (Token.body tokens).length) false
      ⟨Token.ending tokens, form⟩ ⟨Token.body tokens, issued, []⟩ = (some program, s))
    (hclean : s.faults = []) : parse tokens issued form = ⟨program, [], s.issued⟩ := by
  unfold parse
  dsimp only
  rw [h]
  simp [hclean]

end Lox
