/-
The distances of a session, by the visits they were found at.

# Distances in a resolution

A program is resolved when its tree is complete, and its distances join those of the programs before
it. A resolution is a map from identities to distances: made from the entries of a walk, of which
the latest counts (`getElem?_ofEntries`), and merged into the one before, whose distances it
replaces where both have one (`getElem?_merge`).

# Located

The machine only ever asks for the distance of a node. `Located` says that the answer is the one the
walk had at the visit of that node, for all programs so far. For one program this is
`Located.ofProgram`: each entry was found at a visit (`traced`), each visit of a use found the
distance that its scopes give, and it was kept to the end; with distinct identities there is one
visit for an identity, so the two are the same (`lookup_entries`). `Located.append` is the step from
one program to the next, and rests on the identities of nodes being taken from intervals that do not
meet: neither resolution has a distance for a node of the other.

# Programs without misuses

Only programs in which the walk found no misuse are run. At each visit of such a program a variable
that is read is not the one being initialized (`clean_visits`), since a misuse that is found at a
visit is kept to the end of the walk.
-/
import Lox.Proofs.Scope.Visit
import Lox.Proofs.Reader.Parse
import Std.Data.TreeMap.Lemmas

namespace Lox

-- ==== Distances in a resolution

namespace Resolution

/-- The distance of a node among the entries of a walk, where the latest entry counts. -/
theorem getElem?_ofEntries (entries : List (Nat × Nat)) (id : Nat) :
    (ofEntries entries)[id]? = (entries.lookup id).map Int.ofNat := by
  induction entries with
  | nil => exact Std.TreeMap.getElem?_emptyc
  | cons entry rest ih =>
      obtain ⟨i, hops⟩ := entry
      show (Std.TreeMap.insert (ofEntries rest) i (hops : Int))[id]? = _
      rw [Std.TreeMap.getElem?_insert, ih, List.lookup_cons]
      by_cases h : i = id
      · subst h
        simp
      · have hne : (id == i) = false := by simpa using Ne.symm h
        simp [h, hne]

/-- Inserting distances that have no node in common. -/
theorem getElem?_foldl_insert {entries : List (Nat × Int)}
    (hd : entries.Pairwise fun a b => ¬compare a.1 b.1 = .eq) (old : Resolution) (id : Nat) :
    (entries.foldl (fun r entry => r.insert entry.1 entry.2) old)[id]? =
      (entries.lookup id).or old[id]? := by
  induction entries generalizing old with
  | nil => rfl
  | cons entry rest ih =>
      obtain ⟨i, hops⟩ := entry
      obtain ⟨hi, hrest⟩ := List.pairwise_cons.mp hd
      rw [List.foldl_cons, ih hrest, Std.TreeMap.getElem?_insert, List.lookup_cons]
      by_cases h : i = id
      · subst h
        have hnone : rest.lookup i = none := by
          refine List.lookup_eq_none_iff.mpr fun p hp => ?_
          have := hi p hp
          simpa using this
        simp [hnone]
      · have hne : (id == i) = false := by simpa using Ne.symm h
        simp [h, hne]

/-- After a merge a node has its new distance, or else its old one. Merging goes through the new
distances in the order of their nodes, and each of them has one. -/
theorem getElem?_merge (old new : Resolution) (id : Nat) :
    (old.merge new)[id]? = new[id]?.or old[id]? := by
  unfold merge
  rw [Std.TreeMap.foldl_eq_foldl_toList, getElem?_foldl_insert Std.TreeMap.distinct_keys_toList]
  congr 1
  cases hnew : new[id]? with
  | none =>
      refine List.lookup_eq_none_iff.mpr fun p hp => bne_iff_ne.mpr ?_
      rintro rfl
      have := Std.TreeMap.mem_toList_iff_getElem?_eq_some.mp hp
      simp [hnew] at this
  | some hops =>
      have hmem := Std.TreeMap.mem_toList_iff_getElem?_eq_some.mpr hnew
      cases hl : new.toList.lookup id with
      | none => simpa using List.lookup_eq_none_iff.mp hl _ hmem
      | some hops' =>
          obtain ⟨l₁, l₂, hl', -⟩ := List.lookup_eq_some_iff.mp hl
          have : (id, hops') ∈ new.toList := by simp [hl']
          rw [Std.TreeMap.mem_toList_iff_getElem?_eq_some, hnew] at this
          exact this.symm

end Resolution

-- ==== Distances by visits

/-- The distances in `r` are those of the visits; the nodes visited have distinct identities, from
an interval. -/
structure Located (lo hi : Nat) (r : Resolution) (vs : List Visit) : Prop where
  within : Within lo hi (Visit.ids vs)
  entry : ∀ v ∈ vs, ∀ id name, v.node.use? = some (id, name) →
    r[id]? = (Scope.distance? name.lexeme v.walk.scopes).map Int.ofNat
  visited : ∀ id hops, r[id]? = some hops → id ∈ Visit.ids vs

namespace Expr

/-- A use of a name stands at the node with its identity. -/
theorem id?_of_use? {e : Expr} {id : Nat} {name : Token} (h : e.use? = some (id, name)) :
    e.id? = some id := by
  cases e <;> simp_all [use?, id?]

end Expr

namespace Located

variable {lo mid hi : Nat} {r r' : Resolution} {vs us : List Visit}

/-- Before the first program. -/
theorem empty : Located lo hi ∅ [] where
  within := .nil
  entry v hv := by simp at hv
  visited id hops h := by simp at h

/-- The interval may be larger, as identities are handed out. -/
theorem mono {hi' : Nat} (h : Located lo hi r vs) (hle : hi ≤ hi') : Located lo hi' r vs :=
  ⟨h.within.mono (Nat.le_refl lo) hle, h.entry, h.visited⟩

/-- A distance in a program's entries was found at a visit. -/
theorem traced {known : Bytes → Bool} {program : Program} {id hops : Nat}
    (h : (Walk.stmts known false program Walk.start).entries.lookup id = some hops) :
    ∃ v ∈ Walk.visits known program, v.node.id? = some id ∧ v.entry? = some (id, hops) := by
  obtain ⟨l₁, l₂, hl, -⟩ := List.lookup_eq_some_iff.mp h
  have hmem : (id, hops) ∈ (Walk.stmts known false program Walk.start).entries := by simp [hl]
  rcases Walk.entries_stmts program false Walk.start _ hmem with h | ⟨v, hv, hentry⟩
  · simp [Walk.start] at h
  · refine ⟨v, hv, ?_, hentry⟩
    unfold Visit.entry? at hentry
    split at hentry
    next i name huse =>
      obtain ⟨_, _, heq⟩ := Option.map_eq_some_iff.mp hentry
      rw [← (Prod.mk.inj heq).1]
      exact Expr.id?_of_use? huse
    next => simp at hentry

/-- The distances of one program, at the visits of its nodes. A distance that is recorded was found
at a visit of that node, and there is only one; and a distance that was found at a visit is kept to
the end. -/
theorem lookup_entries {known : Bytes → Bool} {program : Program} (hf : Stmt.FormedAll program)
    (hd : (Visit.ids (Walk.visits known program)).Nodup) {v : Visit}
    (hv : v ∈ Walk.visits known program) {id : Nat} {name : Token}
    (hu : v.node.use? = some (id, name)) :
    (Walk.stmts known false program Walk.start).entries.lookup id =
      Scope.distance? name.lexeme v.walk.scopes := by
  have hself : v.entry? = (Scope.distance? name.lexeme v.walk.scopes).map fun hops => (id, hops) := by
    simp only [Visit.entry?, hu]
  cases hl : (Walk.stmts known false program Walk.start).entries.lookup id with
  | some hops =>
      obtain ⟨u, hu', hid, hentry⟩ := traced hl
      obtain rfl := Visit.eq_of_id hd hv hu' (Expr.id?_of_use? hu) hid
      rw [hself] at hentry
      obtain ⟨k, hk, heq⟩ := Option.map_eq_some_iff.mp hentry
      rw [hk, (Prod.mk.inj heq).2]
  | none =>
      cases hdist : Scope.distance? name.lexeme v.walk.scopes with
      | none => rfl
      | some hops =>
          have hamid := Walk.amid_stmts program hf false Walk.start v hv
          have hfound : v.entry? = some (id, hops) := hself.trans (by rw [hdist]; rfl)
          have hmem := hamid.goes.entries.subset (Walk.mem_entries_self hfound)
          simpa using List.lookup_eq_none_iff.mp hl _ hmem

/-- The visits of one program. -/
theorem ofProgram (known : Bytes → Bool) {p : Parse} (hp : p.Made lo) :
    Located lo p.issued (resolve known p.program).resolution (Walk.visits known p.program) := by
  have hsub : (Visit.ids (Walk.visits known p.program)).Sublist (Stmt.idsAll p.program) :=
    Walk.stmtsVisits_ids p.program false Walk.start
  have hwithin := hp.within.sublist hsub
  refine ⟨hwithin, fun v hv id name hu => ?_, fun id hops hr => ?_⟩
  · show (Resolution.ofEntries _)[id]? = _
    rw [Resolution.getElem?_ofEntries, lookup_entries hp.formed hwithin.nodup hv hu]
  · change (Resolution.ofEntries _)[id]? = _ at hr
    rw [Resolution.getElem?_ofEntries] at hr
    obtain ⟨k, hk, -⟩ := Option.map_eq_some_iff.mp hr
    obtain ⟨v, hv, hid, -⟩ := traced hk
    exact Visit.mem_ids hv hid

/-- Later distances join earlier ones, whose nodes they leave alone: the identities of later
programs are greater. -/
theorem append (h : Located lo mid r vs) (h' : Located mid hi r' us) (hlo : lo ≤ mid)
    (hhi : mid ≤ hi) : Located lo hi (r.merge r') (vs ++ us) := by
  refine ⟨?_, fun v hv id name hu => ?_, fun id hops hr => ?_⟩
  · rw [Visit.ids_append]
    exact h.within.append h'.within hlo hhi
  · rw [Resolution.getElem?_merge]
    have hid := Expr.id?_of_use? hu
    rcases List.mem_append.mp hv with hv | hv
    -- a node of the earlier programs has an identity below all of the later ones
    · have hnone : r'[id]? = none := by
        refine Option.eq_none_iff_forall_ne_some.mpr fun hops hr => ?_
        have h₁ := h.within.upto id (Visit.mem_ids hv hid)
        have h₂ := h'.within.above id (h'.visited id hops hr)
        omega
      rw [hnone, Option.none_or, h.entry v hv id name hu]
    · have hnone : r[id]? = none := by
        refine Option.eq_none_iff_forall_ne_some.mpr fun hops hr => ?_
        have h₁ := h.within.upto id (h.visited id hops hr)
        have h₂ := h'.within.above id (Visit.mem_ids hv hid)
        omega
      rw [hnone, Option.or_none, h'.entry v hv id name hu]
  · rw [Resolution.getElem?_merge] at hr
    rw [Visit.ids_append]
    rcases Option.or_eq_some_iff.mp hr with hr | ⟨-, hr⟩
    · exact List.mem_append_right _ (h'.visited id hops hr)
    · exact List.mem_append_left _ (h.visited id hops hr)

end Located

-- ==== Programs without misuses

/-- The visit is no misuse: no variable is read in its own initializer. Only at top level is a
variable known to be in the making, and the scopes differ from those before the statement only by
the name that it declares. -/
structure Visit.Clean (v : Visit) : Prop where
  read : ∀ id name, v.node = .ident id name →
    v.walk.selfRead? v.known v.initializing name.lexeme = none
  outermost : ∀ x, v.initializing = some x → v.walk.scopes = [] ∧ x ≠ []
  opening : v.walk.scopes = v.before.scopes ∨
    ∃ name, v.walk.scopes = Scope.record name false v.before.scopes

/-- If no misuse was found by the end, then none was at this visit. -/
theorem Visit.Amid.clean {v : Visit} {known : Bytes → Bool} {w' : Walk} (h : v.Amid known w')
    (hf : w'.faults = []) : v.Clean where
  outermost := h.outermost
  opening := h.opening
  read id name hnode := by
    have hnone : (Walk.expr known v.initializing v.node v.walk).faults = [] :=
      List.prefix_nil.mp (hf ▸ h.goes.faults)
    rw [hnode, Walk.expr] at hnone
    have hcheck : (v.walk.checkRead known v.initializing name).faults = [] :=
      List.prefix_nil.mp (hnone ▸ (Walk.locate_adds _ id name).faults)
    rw [h.known_eq]
    unfold Walk.checkRead at hcheck
    cases hs : v.walk.selfRead? known v.initializing name.lexeme with
    | none => rfl
    | some problem => simp [hs, Walk.note] at hcheck

/-- No visit of a program without misuses is a misuse. -/
theorem clean_visits {known : Bytes → Bool} {program : Program} (hf : Stmt.FormedAll program)
    (hd : (resolve known program).diagnostics = []) : ∀ v ∈ Walk.visits known program, v.Clean := by
  intro v hv
  refine (Walk.amid_stmts program hf false Walk.start v hv).clean ?_
  exact List.map_eq_nil_iff.mp hd

end Lox
