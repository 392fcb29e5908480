/-
A distance is the lexical one.

# What is shown

The resolution of a program has an entry for a use of a variable just if a scope around the use
declares the name at or before it, and the entry says how many scopes lie inside the nearest such
scope (`distance_iff_nearest`). That is so for every tree whose nodes have identities of their own,
with or without misuses, and whatever globals are known. `Site.Nearest` says it without a walk, of
the scopes that lie around a place of the tree.

# How

The entries of a walk are the distances at the sites of the program, in order (`resolution_eq`, from
`Walk.tells_program`). An entry is found by the identity of its node, and the latest of several
counts, so it has to be shown that no identity occurs twice:

- the uses in a tree have identities of its nodes, each at most as often (`Expr.uses_ids`,
  `Stmt.sites_ids`, by induction over the tree);
- the entries have identities of uses (`Site.entries_ids`);
- so where the nodes have distinct identities, the entries do (`nodup_entries`), and looking one up
  is the same as finding it among them (`Resolution.lookup_eq_some_iff`).

What globals are known decides whether a read is a misuse, and nothing about distances.
-/
import Lox.Proofs.Scope.Site
import Lox.Proofs.Scope.Located
import Mathlib.Data.List.Perm.Subperm

namespace Lox

-- ==== The nearest scope

/-- Of the scopes around the site, the one with `hops` others inside it declares the name at or
before the site, and none of those inside does. -/
structure Site.Nearest (t : Site) (x : Bytes) (hops : Nat) : Prop where
  declares : ∃ names, t.declared[hops]? = some names ∧ x ∈ names
  inside : ∀ k < hops, ∀ names, t.declared[k]? = some names → x ∉ names

/-- The nearest scope is the first one that has the name, counted from the inside. -/
theorem Site.nearest_iff {t : Site} {x : Bytes} {hops : Nat} :
    (t.declared.findIdx? fun names => x ∈ names) = some hops ↔ t.Nearest x hops := by
  rw [List.findIdx?_eq_some_iff_getElem]
  constructor
  · rintro ⟨hlt, hmem, hinside⟩
    refine ⟨⟨_, List.getElem?_eq_getElem hlt, by simpa using hmem⟩, fun k hk names hnames => ?_⟩
    obtain ⟨hk', rfl⟩ := List.getElem?_eq_some_iff.mp hnames
    simpa using hinside k hk
  · rintro ⟨⟨names, hnames, hmem⟩, hinside⟩
    obtain ⟨hlt, rfl⟩ := List.getElem?_eq_some_iff.mp hnames
    refine ⟨hlt, by simpa using hmem, fun k hk => ?_⟩
    simpa using hinside k hk _ (List.getElem?_eq_getElem (Nat.lt_trans hk hlt))

-- ==== Sites have identities of their own

/-- The identity of the use at a site. -/
def Site.id? (t : Site) : Option Nat :=
  match t.mark with
  | .use u => some u.id
  | .returned _ => none

mutual

/-- The uses in an expression have identities of its nodes, each at most as often. Only names and
assignments are uses, so most nodes have none. -/
theorem Expr.uses_ids : ∀ e : Expr, (e.uses.map (·.id)).Subperm e.ids
  | .absent => .refl _
  | .literal id _ => List.nil_subperm
  | .grouping id inner => (uses_ids inner).cons_right id
  | .unary id _ operand => (uses_ids operand).cons_right id
  | .binary id left _ right => by
      rw [Expr.uses, List.map_append, Expr.ids]
      exact ((uses_ids left).append (uses_ids right)).cons_right id
  | .logical id left _ right => by
      rw [Expr.uses, List.map_append, Expr.ids]
      exact ((uses_ids left).append (uses_ids right)).cons_right id
  | .assign id name value => by
      -- the assignment is listed after its value, and its identity before
      rw [Expr.uses, List.map_append, Expr.ids]
      exact (List.perm_append_singleton id _).subperm.trans
        ((List.subperm_cons id).mpr (uses_ids value))
  | .ident id _ => .refl _
  | .call id callee _ arguments => by
      rw [Expr.uses, List.map_append, Expr.ids]
      exact ((uses_ids callee).append (usesAll_ids arguments)).cons_right id

/-- The same for expressions in a row. -/
theorem Expr.usesAll_ids : ∀ es : List Expr, ((Expr.usesAll es).map (·.id)).Subperm (Expr.idsAll es)
  | [] => .refl _
  | e :: rest => by
      rw [Expr.usesAll, List.map_append, Expr.idsAll]
      exact (uses_ids e).append (usesAll_ids rest)

end

/-- The sites of an expression have the identities of its uses. -/
theorem Site.ofExpr_ids (a : Surroundings) (init : Option Bytes) (e : Expr) :
    ((Site.ofExpr a init e).filterMap Site.id?).Subperm e.ids := by
  have : (Site.ofExpr a init e).filterMap Site.id? = e.uses.map (·.id) := by
    rw [Site.ofExpr, List.filterMap_map, ← List.filterMap_eq_map]
    rfl
  rw [this]
  exact e.uses_ids

mutual

/-- The sites of a statement have identities of its nodes, each at most as often. -/
theorem Stmt.sites_ids : ∀ (s : Stmt) (a : Surroundings),
    ((s.sites a).filterMap Site.id?).Subperm s.ids
  | .absent, _ => .refl _
  | .expression id value, a => (Site.ofExpr_ids a _ value).cons_right id
  | .print id value, a => (Site.ofExpr_ids a _ value).cons_right id
  | .var id _ initializer, a => (Site.ofExpr_ids a _ initializer).cons_right id
  | .block id body, a => (sitesAll_ids body _).cons_right id
  | .branch id condition positive negative, a => by
      rw [Stmt.sites, List.filterMap_append, List.filterMap_append, Stmt.ids]
      exact ((Site.ofExpr_ids a _ condition).append
        ((sites_ids positive a).append (sites_ids negative _))).cons_right id
  | .loop id condition body, a => by
      rw [Stmt.sites, List.filterMap_append, Stmt.ids]
      exact ((Site.ofExpr_ids a _ condition).append (sites_ids body a)).cons_right id
  | .function id _ _ body, a => (sitesAll_ids body _).cons_right id
  | .result id _ value, a => (Site.ofExpr_ids a _ value).cons_right id

/-- The same for statements in a row. -/
theorem Stmt.sitesAll_ids : ∀ (ss : List Stmt) (a : Surroundings),
    ((Stmt.sitesAll a ss).filterMap Site.id?).Subperm (Stmt.idsAll ss)
  | [], _ => .refl _
  | s :: rest, a => by
      rw [Stmt.sitesAll, List.filterMap_append, Stmt.idsAll]
      exact (sites_ids s a).append (sitesAll_ids rest _)

end

-- ==== Entries

/-- With distinct identities, an entry is found by its identity. -/
theorem Resolution.lookup_eq_some_iff {entries : List (Nat × Nat)}
    (hd : (entries.map (·.1)).Nodup) {id hops : Nat} :
    entries.lookup id = some hops ↔ (id, hops) ∈ entries := by
  induction entries with
  | nil => simp
  | cons entry rest ih =>
      obtain ⟨i, k⟩ := entry
      obtain ⟨hnot, hrest⟩ := List.nodup_cons.mp hd
      rw [List.lookup_cons]
      by_cases h : id = i
      · subst h
        have : (id, hops) ∉ rest := fun hmem => hnot (List.mem_map.mpr ⟨_, hmem, rfl⟩)
        simp [this, eq_comm]
      · have hne : (id == i) = false := by simpa using h
        simp [hne, h, ih hrest]

/-- A site has an entry just if it is a use and a nearest scope has the name. -/
theorem Site.entry?_eq_some_iff {t : Site} {id hops : Nat} :
    t.entry? = some (id, hops) ↔
      ∃ u, t.mark = .use u ∧ u.id = id ∧ t.Nearest u.name.lexeme hops := by
  unfold Site.entry?
  split
  next u hmark => simp [hmark, Option.map_eq_some_iff, nearest_iff, and_comm]
  next hmark => simp [hmark]

/-- The entries of a program are the distances found at its sites. -/
theorem resolution_eq (known : Bytes → Bool) (program : Program) :
    (resolve known program).resolution =
      Resolution.ofEntries ((Program.sites program).filterMap Site.entry?).reverse := by
  unfold resolve
  dsimp only
  rw [(Walk.tells_program known program).entries]
  simp [Walk.start]

/-- Not every use has an entry. -/
theorem Site.entries_ids (sites : List Site) :
    ((sites.filterMap Site.entry?).map (·.1)).Sublist (sites.filterMap Site.id?) := by
  induction sites with
  | nil => exact .slnil
  | cons t rest ih =>
      cases hentry : t.entry? with
      | none =>
          rw [List.filterMap_cons_none hentry]
          exact ih.trans ((List.sublist_cons_self t rest).filterMap _)
      | some entry =>
          obtain ⟨u, hmark, hid, -⟩ := Site.entry?_eq_some_iff.mp hentry
          have hself : t.id? = some entry.1 := by simp [Site.id?, hmark, hid]
          rw [List.filterMap_cons_some hentry, List.filterMap_cons_some hself]
          exact ih.cons_cons _

/-- In a tree whose nodes have distinct identities, no identity has two entries. -/
theorem nodup_entries {program : Program} (hd : (Stmt.idsAll program).Nodup) :
    ((((Program.sites program).filterMap Site.entry?).reverse).map (·.1)).Nodup := by
  rw [List.map_reverse, List.Nodup, List.pairwise_reverse]
  -- the identities of the sites are, in some order, a part of those of the tree
  obtain ⟨ids, hperm, hsub⟩ := Stmt.sitesAll_ids program .outermost
  have hids : ((Program.sites program).filterMap Site.id?).Nodup :=
    hperm.nodup_iff.mp (hd.sublist hsub)
  exact (hids.sublist (Site.entries_ids _)).imp Ne.symm

/-- For every tree with distinct identities, a node has an entry just if it is a use of a variable
that a scope around it declares at or before it, and the entry is the number of scopes inside the
nearest such scope. What globals are known makes no difference. -/
theorem distance_iff_nearest (known : Bytes → Bool) (program : Program)
    (hd : (Stmt.idsAll program).Nodup) :
    (∀ (id : Nat) (hops : Int), (resolve known program).resolution[id]? = some hops ↔
      ∃ t ∈ Program.sites program, ∃ u, t.mark = .use u ∧ u.id = id ∧
        ∃ k : Nat, hops = k ∧ t.Nearest u.name.lexeme k) ∧
    ∀ known', (resolve known' program).resolution = (resolve known program).resolution := by
  refine ⟨fun id hops => ?_, fun known' => by rw [resolution_eq, resolution_eq]⟩
  rw [resolution_eq, Resolution.getElem?_ofEntries, Option.map_eq_some_iff]
  constructor
  · rintro ⟨k, hk, rfl⟩
    rw [Resolution.lookup_eq_some_iff (nodup_entries hd), List.mem_reverse,
      List.mem_filterMap] at hk
    obtain ⟨t, ht, hentry⟩ := hk
    obtain ⟨u, hmark, hid, hnearest⟩ := Site.entry?_eq_some_iff.mp hentry
    exact ⟨t, ht, u, hmark, hid, k, rfl, hnearest⟩
  · rintro ⟨t, ht, u, hmark, hid, k, rfl, hnearest⟩
    refine ⟨k, ?_, rfl⟩
    rw [Resolution.lookup_eq_some_iff (nodup_entries hd), List.mem_reverse, List.mem_filterMap]
    exact ⟨t, ht, Site.entry?_eq_some_iff.mpr ⟨u, hmark, hid, hnearest⟩⟩

/-- A block declares `a` and a function of `b`, which reads the `a` of the block, then has an `a` of
its own as a bare branch, and assigns to that one. -/
theorem distance_iff_nearest_shadowed :
    let name (x : String) : Token := ⟨.identifier, utf8 x, .nil, 1⟩
    let program : Program :=
      [.block 1 [.var 2 (name "a") .absent,
        .function 3 (name "f") [name "b"]
          [.print 4 (.ident 5 (name "a")),
            .branch 6 (.ident 7 (name "b")) (.var 8 (name "a") (.ident 9 (name "b"))) .absent,
            .expression 10 (.assign 11 (name "a") (.ident 12 (name "f")))]]]
    (Stmt.idsAll program).Nodup ∧
      (resolve (fun _ => false) program).resolution[5]? = some 1 ∧
      (resolve (fun _ => false) program).resolution[11]? = some 0 ∧
      (resolve (fun _ => false) program).resolution[12]? = some 1 := by
  intro name program
  have hd : (Stmt.idsAll program).Nodup := by decide
  have hiff := (distance_iff_nearest (fun _ => false) program hd).1
  refine ⟨hd, (hiff 5 1).mpr ?_, (hiff 11 0).mpr ?_, (hiff 12 1).mpr ?_⟩
  · exact ⟨_, .head _, _, rfl, rfl, 1, rfl, Site.nearest_iff.mp (by decide)⟩
  · exact ⟨_, .tail _ (.tail _ (.tail _ (.tail _ (.head _)))), _, rfl, rfl, 0, rfl,
      Site.nearest_iff.mp (by decide)⟩
  · exact ⟨_, .tail _ (.tail _ (.tail _ (.head _))), _, rfl, rfl, 1, rfl,
      Site.nearest_iff.mp (by decide)⟩

end Lox
