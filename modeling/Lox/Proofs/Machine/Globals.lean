/-
The names that a program makes global.

A frame that is added is not the global one, so the bodies of blocks and functions bind nothing
there. What is left are the declarations that are carried out in the global frame itself. In a tree
that was read these are the declarations at top level, since branches and loops declare nothing
(`Stmt.declares_of_formed`), and the walk has seen them all (`mem_globals`, by induction over the
statements). With `Introduces.run`, which says that a machine binds no names but those that it still
has to declare, every name that is global after a program was so before or the walk has seen it
declared (`Walk.accounts`).

This is the premise under which the walk over two programs as one comes to what the walks over each
come to, one after the other: the second walk is told of the globals that exist then.
-/
import Lox.Proofs.Machine.Growth
import Lox.Proofs.Scope.Join

namespace Lox

variable {N : Bytes → Prop} {host : Host}

-- ==== Programs

/-- A statement of a tree that was read declares at most one name in its own frame. -/
theorem Stmt.declares_of_formed : ∀ {s : Stmt}, s.Formed →
    (∀ name, s.declared? = some name → N name.lexeme) → s.Declares N
  | .absent, _, _ => trivial
  | .expression .., _, _ => trivial
  | .print .., _, _ => trivial
  | .var _ name _, _, h => h name rfl
  | .block .., _, _ => trivial
  | .branch _ _ positive negative, hf, _ => by
      obtain ⟨hp, hn, hdp, hdn⟩ := hf
      exact ⟨declares_of_formed hp fun _ h => by simp [hdp] at h,
        declares_of_formed hn fun _ h => by simp [hdn] at h⟩
  | .loop _ _ body, hf, _ => declares_of_formed (s := body) hf.1 fun _ h => by simp [hf.2] at h
  | .function _ name _ _, _, h => h name rfl
  | .result .., _, _ => trivial

namespace Walk

variable {known : Bytes → Bool}

/-- The walk has seen the declarations at top level, and forgets none that it has seen, by induction
over the statements: at top level each of them adds the name it declares and no other one. -/
theorem mem_globals {ss : List Stmt} (hf : Stmt.FormedAll ss) {w : Walk} (hw : w.scopes = []) :
    w.globals ⊆ (stmts known false ss w).globals ∧
      ∀ s ∈ ss, ∀ name, s.declared? = some name →
        name.lexeme ∈ (stmts known false ss w).globals := by
  induction ss generalizing w with
  | nil => exact ⟨List.Subset.refl _, fun s hs => absurd hs (by simp)⟩
  | cons s ss ih =>
      obtain ⟨hscopes, hglobals⟩ := @stmt_after known s hf.1 false w
      rw [hw] at hscopes hglobals
      obtain ⟨hmore, hrest⟩ := ih hf.2 (hscopes.trans (Stmt.scopesAfter_eq_nil.mpr rfl))
      have hkeeps : w.globals ⊆ (stmt known false s w).globals := by
        rw [hglobals]
        unfold Stmt.globalsAfter
        split
        · exact List.subset_cons_self ..
        · exact List.Subset.refl _
      refine ⟨fun x hx => hmore (hkeeps hx), fun t ht name hname => ?_⟩
      rcases List.mem_cons.mp ht with rfl | ht
      · refine hmore ?_
        rw [hglobals]
        unfold Stmt.globalsAfter
        rw [hname]
        exact List.mem_cons_self
      · exact hrest t ht name hname

/-- Every name that is global after a program was so before, or the walk has seen it declared. This
holds after any number of steps: in the global frame the program binds no names but those that it
declares at top level, and an assignment binds none. -/
theorem accounts {p : Program} (hf : Stmt.FormedAll p) {store : Store}
    (here : 0 < store.frames.size) (hknown : ∀ x, known x = (store.lookup? Store.global x).isSome)
    (sink : Sink) (depth calls fuel : Nat) :
    (stmts known false p start).Accounts known fun x =>
      ((Machine.run host fuel ⟨.yield .nil, [.sequence p Store.global], store, sink, depth, calls⟩)
        |>.store.lookup? Store.global x).isSome := by
  obtain ⟨-, hdeclared⟩ := @mem_globals known p hf start rfl
  -- in the global frame these names are allowed, and in any other one all names
  have hstart : Machine.Introduces
      (fun ref x => ref = Store.global → known x = true ∨ x ∈ (stmts known false p start).globals)
      store ⟨.yield .nil, [.sequence p Store.global], store, sink, depth, calls⟩ := by
    refine ⟨trivial, List.forall_mem_singleton.mpr fun s hs => ?_, Nat.le_refl _,
      fun _ _ => rfl, fun _ _ hx => hx, ?_, ?_⟩
    · exact Stmt.declares_of_formed (hf.of_mem hs)
        fun name hname _ => .inr (hdeclared s hs name hname)
    · rintro ref x hx rfl
      exact .inl ((hknown x).trans hx)
    · rintro ref hle x rfl
      exact absurd here (Nat.not_lt_of_le hle)
  exact fun x hx => (hstart.run fuel).store.allowed Store.global x hx rfl

end Walk

end Lox
