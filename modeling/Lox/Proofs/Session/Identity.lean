/-
Identities through a session.

# Parses that share a counter

Every parse takes identities from where the parse before it stopped. So the trees of all parses that
share a counter have distinct identities (`parses_within`, by induction over the parses), whatever
tokens they were read from and whether or not there were faults in them. For one parse this is
`parse_within`; from one to the next it is that the intervals do not meet.

# The trees of a history

The sources of a session share a counter (`programs_eq`), also those that are rejected, hence an
identity tells the one source whose tree it is in (`eq_of_mem_ids`).

# Where distances come from

A distance is found for a node of that tree and for no other (`mem_ids_of_added`), and it is never
replaced by a distance of a later source (`After.distance?_afterAll`), whose nodes have later
identities. All of this together is `identities_never_collide`.
-/
import Lox.Proofs.Session.History
import Mathlib.Data.List.Nodup

namespace Lox

-- ==== Parses that share a counter

/-- The parses of lists of tokens, one after the other. Each takes identities from where the one
before it stopped. -/
def parses (issued : Nat) : List (List Token × LoopForm) → List Parse
  | [] => []
  | (tokens, form) :: rest =>
    parse tokens issued form :: parses (parse tokens issued form).issued rest

/-- The last identity taken by the parses of lists of tokens. -/
def issuedAfter (issued : Nat) : List (List Token × LoopForm) → Nat
  | [] => issued
  | (tokens, form) :: rest => issuedAfter (parse tokens issued form).issued rest

/-- The identities of the nodes of trees, in order. -/
def Parse.idsAll (ps : List Parse) : List Nat := ps.flatMap fun p => Stmt.idsAll p.program

/-- The identities of all the trees are distinct, and were taken by their parses. -/
theorem parses_within (issued : Nat) (calls : List (List Token × LoopForm)) :
    issued ≤ issuedAfter issued calls ∧
      Within issued (issuedAfter issued calls) (Parse.idsAll (parses issued calls)) := by
  induction calls generalizing issued with
  | nil => exact ⟨Nat.le_refl _, .nil⟩
  | cons call rest ih =>
      obtain ⟨tokens, form⟩ := call
      obtain ⟨hle, hfirst⟩ := parse_within tokens issued form
      obtain ⟨hle', hrest⟩ := ih (parse tokens issued form).issued
      exact ⟨Nat.le_trans hle hle', hfirst.append hrest hle hle'⟩

/-- The identities of one tree come after all that were taken before its parse. -/
theorem parses_above {issued k : Nat} {calls : List (List Token × LoopForm)} {p : Parse}
    (hk : (parses issued calls)[k]? = some p) :
    ∀ id ∈ Stmt.idsAll p.program, issuedAfter issued (calls.take k) < id := by
  induction calls generalizing issued k with
  | nil => cases hk
  | cons call rest ih =>
      obtain ⟨tokens, form⟩ := call
      cases k with
      | zero =>
          obtain rfl : parse tokens issued form = p := Option.some.inj hk
          exact (parse_within tokens issued form).2.above
      | succ k => exact ih hk

/-- Where the identities of all trees are distinct, an identity tells its tree. -/
theorem eq_of_mem_ids {trees : List Program} {j k id : Nat} {a b : Program}
    (hd : (trees.flatMap Stmt.idsAll).Nodup) (hj : trees[j]? = some a) (hk : trees[k]? = some b)
    (ha : id ∈ Stmt.idsAll a) (hb : id ∈ Stmt.idsAll b) : j = k := by
  obtain ⟨hjlt, rfl⟩ := List.getElem?_eq_some_iff.mp hj
  obtain ⟨hklt, rfl⟩ := List.getElem?_eq_some_iff.mp hk
  have hdisjoint := List.pairwise_iff_getElem.mp (List.nodup_flatMap.mp hd).2
  rcases Nat.lt_trichotomy j k with hlt | heq | hlt
  · exact absurd hb (hdisjoint j k hjlt hklt hlt ha)
  · exact heq
  · exact absurd ha (hdisjoint k j hklt hjlt hlt hb)

namespace Session

variable {sink : Sink} {reading : Nat → Float} {vs : List Visit} {s : Session} {source : Bytes}
variable {form : LoopForm} {id : Nat} {hops : Int}

-- ==== The trees and the distances of a history

/-- The trees that the sources of a history are read as, accepted or not. -/
def programs (s : Session) : List Request → List Program
  | [] => []
  | r :: rest => (s.parsed r.source r.form).program :: (s.serve r).2.programs rest

/-- The distance that a session has recorded for a node. -/
def distance? (s : Session) (id : Nat) : Option Int := s.interpreter.host.resolution[id]?

/-- The distances that a source adds to those of the session: none, if it is rejected. -/
def added (s : Session) (source : Bytes) (form : LoopForm) : Resolution :=
  if s.Accepts source form then (s.resolved source form).resolution else ∅

/-- The distances that the sources of a history add. -/
def additions (s : Session) : List Request → List Resolution
  | [] => []
  | r :: rest => s.added r.source r.form :: (s.serve r).2.additions rest

/-- A run takes the identities of the tree, whatever becomes of it. -/
theorem issued_serve (s : Session) (r : Request) :
    (s.serve r).2.issued = (s.parsed r.source r.form).issued := by
  unfold serve
  by_cases ha : s.Accepts r.source r.form
  · rw [(run_accepted ha).2]
  · rw [(run_rejected ha).2]

/-- After a run a node has the distance that the source added, or else the one it had. -/
theorem distance?_serve (s : Session) (r : Request) (id : Nat) :
    (s.serve r).2.distance? id = (s.added r.source r.form)[id]?.or (s.distance? id) := by
  unfold serve added distance?
  by_cases ha : s.Accepts r.source r.form
  · rw [(run_accepted ha).2, if_pos ha]
    exact Resolution.getElem?_merge _ _ id
  · rw [(run_rejected ha).2, if_neg ha, Std.TreeMap.getElem?_emptyc, Option.none_or]

/-- The trees of a history are those of parses that share the counter of the session. -/
theorem programs_eq (s : Session) (history : List Request) :
    s.programs history =
      (parses s.issued (history.map fun r => ((Lox.scan r.source).tokens, r.form))).map
        Parse.program := by
  induction history generalizing s with
  | nil => rfl
  | cons r rest ih =>
      rw [programs, ih, issued_serve]
      rfl

/-- There is a tree for each source. -/
theorem length_programs (s : Session) (history : List Request) :
    (s.programs history).length = history.length := by
  induction history generalizing s with
  | nil => rfl
  | cons r rest ih => exact congrArg (· + 1) (ih _)

theorem programs_append (s : Session) (history later : List Request) :
    s.programs (history ++ later) = s.programs history ++ (s.afterAll history).programs later := by
  induction history generalizing s with
  | nil => rfl
  | cons r rest ih => exact congrArg (_ :: ·) (ih _)

theorem afterAll_append (s : Session) (history later : List Request) :
    s.afterAll (history ++ later) = (s.afterAll history).afterAll later := by
  induction history generalizing s with
  | nil => rfl
  | cons r rest ih => exact ih _

/-- The trees of a history have distinct identities. -/
theorem nodup_programs (s : Session) (history : List Request) :
    ((s.programs history).flatMap Stmt.idsAll).Nodup := by
  rw [programs_eq, List.flatMap_map]
  exact (parses_within s.issued _).2.nodup

-- ==== Where distances come from

/-- A distance that a source adds is that of a node of its tree. -/
theorem mem_ids_of_added (h : (s.added source form)[id]? = some hops) :
    id ∈ Stmt.idsAll (s.parsed source form).program := by
  unfold added at h
  split at h
  · have located := Located.ofProgram s.interpreter.knows (parse_made source s.issued form)
    exact (Walk.stmtsVisits_ids _ false Walk.start).subset (located.visited id hops h)
  · rw [Std.TreeMap.getElem?_emptyc] at h
    cases h

/-- A distance that is there after a history was there before, or was added by one of its sources. -/
theorem added_of_afterAll {history : List Request}
    (h : (s.afterAll history).distance? id = some hops) :
    s.distance? id = some hops ∨
      ∃ (k : Nat) (program : Program) (distances : Resolution),
        (s.programs history)[k]? = some program ∧ (s.additions history)[k]? = some distances ∧
          distances[id]? = some hops ∧ id ∈ Stmt.idsAll program := by
  induction history generalizing s with
  | nil => exact .inl h
  | cons r rest ih =>
      rcases ih h with hfirst | ⟨k, program, distances, hprogram, hdistances, hrest⟩
      · rw [distance?_serve] at hfirst
        rcases Option.or_eq_some_iff.mp hfirst with hadded | ⟨-, hold⟩
        · exact .inr ⟨0, _, _, rfl, rfl, hadded, mem_ids_of_added hadded⟩
        · exact .inl hold
      · exact .inr ⟨k + 1, program, distances, hprogram, hdistances, hrest⟩

/-- The distances of a session stay as they are when a source is run: those that are added belong to
nodes with later identities. -/
theorem After.distance?_serve (after : After sink reading vs s) (r : Request)
    (h : s.distance? id = some hops) : (s.serve r).2.distance? id = some hops := by
  have located := after.ties.located
  have hold : id ≤ s.issued := located.within.upto id (located.visited id hops h)
  have hnone : (s.added r.source r.form)[id]? = none := by
    refine Option.eq_none_iff_forall_ne_some.mpr fun hops' hadded => ?_
    have hnew := (parse_made r.source s.issued r.form).within.above id (mem_ids_of_added hadded)
    omega
  rw [Session.distance?_serve, hnone, Option.none_or, h]

/-- The distances of a session stay as they are through a history. -/
theorem After.distance?_afterAll (after : After sink reading vs s) (history : List Request)
    (h : s.distance? id = some hops) : (s.afterAll history).distance? id = some hops := by
  induction history generalizing vs s with
  | nil => exact h
  | cons r rest ih =>
      exact ih (after.run r.fuel r.source r.form) (after.distance?_serve r h)

/-- Nodes never share an identity. Parses that share a counter make trees in which all identities,
within one tree and from one tree to the next, are distinct and come after all identities taken
before. So the distances of a session are never changed by a later source, and each of them was found
for a node of one of its sources and belongs to no node of any other, before it or after it, accepted
or rejected. -/
theorem identities_never_collide :
    (∀ (issued : Nat) (calls : List (List Token × LoopForm)),
      (Parse.idsAll (parses issued calls)).Nodup ∧
        ∀ k p, (parses issued calls)[k]? = some p → ∀ id ∈ Stmt.idsAll p.program,
          0 < id ∧ issuedAfter issued (calls.take k) < id) ∧
      ∀ (sink : Sink) (reading : Nat → Float) (history later : List Request) (id : Nat)
        (hops : Int), ((clocked sink reading).afterAll history).distance? id = some hops →
        ((clocked sink reading).afterAll (history ++ later)).distance? id = some hops ∧
          ∃ (k : Nat) (program : Program) (distances : Resolution),
            ((clocked sink reading).programs history)[k]? = some program ∧
              ((clocked sink reading).additions history)[k]? = some distances ∧
              distances[id]? = some hops ∧ id ∈ Stmt.idsAll program ∧
              ∀ j other, ((clocked sink reading).programs (history ++ later))[j]? = some other →
                id ∈ Stmt.idsAll other → j = k := by
  refine ⟨fun issued calls => ⟨(parses_within issued calls).2.nodup, fun k p hk id hid => ?_⟩, ?_⟩
  · have habove := parses_above hk id hid
    exact ⟨Nat.zero_lt_of_lt habove, habove⟩
  · intro sink reading history later id hops h
    obtain ⟨vs, after⟩ := (After.new : After sink reading [] _).all history
    refine ⟨?_, ?_⟩
    · rw [afterAll_append]
      exact after.distance?_afterAll later h
    · rcases added_of_afterAll h with hnew | ⟨k, program, distances, hprogram, hdistances, hhops, hid⟩
      · cases hnew
      · refine ⟨k, program, distances, hprogram, hdistances, hhops, hid, ?_⟩
        intro j other hother hid'
        obtain ⟨hlt, -⟩ := List.getElem?_eq_some_iff.mp hprogram
        have hprogram' : ((clocked sink reading).programs (history ++ later))[k]? = some program := by
          rw [programs_append, List.getElem?_append_left hlt]
          exact hprogram
        exact eq_of_mem_ids (nodup_programs _ _) hother hprogram' hid' hid

/-- A use of a variable keeps its distance through a source that is rejected and one that is run, and
the trees of these have other identities. -/
theorem identities_never_collide_with_rejected :
    let new := clocked .unlimited fun _ => 0
    let history : List Request := [⟨20, utf8 "{ var a; a; }", .compact⟩]
    let later : List Request :=
      [⟨20, utf8 "{ var b = b; }", .compact⟩, ⟨20, utf8 "for (var c; c;) c;", .compact⟩]
    (new.afterAll history).distance? 2 = some 0 ∧
      (new.afterAll (history ++ later)).distance? 2 = some 0 ∧
      ∀ j other, (new.programs (history ++ later))[j]? = some other → 2 ∈ Stmt.idsAll other →
        j = 0 := by
  intro new history later
  have hentry : (new.afterAll history).distance? 2 = some 0 := by decide +kernel
  obtain ⟨hkept, k, program, distances, hprogram, -, -, -, honly⟩ :=
    identities_never_collide.2 .unlimited (fun _ => 0) history later 2 0 hentry
  obtain ⟨hlt, -⟩ := List.getElem?_eq_some_iff.mp hprogram
  rw [length_programs] at hlt
  obtain rfl : k = 0 := Nat.lt_one_iff.mp hlt
  exact ⟨hentry, hkept, honly⟩

end Session

end Lox
