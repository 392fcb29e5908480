/-
Frames mirror scopes, in every session and at every moment.

# Sessions

A session runs sources one after the other. Some are rejected, some fail half-way, some are cut off;
functions that they declared may be called by later ones. Through all of this the frames of the
session stay tied to the walks over the sources that were accepted (`After.ties`, by induction over
the sources), and so do the machines that run them (`Moment.tied`). `Moment` is any machine at work
on an accepted source, after any other sources and any number of steps.

# Frames and scopes

What the walk said of a node is then true whenever the node is evaluated: its frame has as many
frames above it as there were scopes, and these bind all names that were defined (`Store.Mirrors`,
`evaluation_mirrors_scopes`).

# Reading names

So a use of a name by its distance reads a value: the scope at the distance declares the name, no
misuse was found, hence the name is defined there, and the frame binds it (`Heap.read_ok`).

# Assigning names

An assignment by distance is another matter. The walk does not check it against the initializer it
may stand in, and there its variable is declared but not bound. It succeeds just if the variable was
declared before the statement (`assignment_finds_declared`): a frame in use binds no other names
than those (`Exact.bound_iff`).
-/
import Lox.Proofs.Lexical.Refines
import Lox.Proofs.Session.Run

namespace Lox

open Lexical (Cells Scopes)

-- ==== Sessions

namespace Session

/-- The visits of the walk over a source that is accepted. -/
def visited (s : Session) (source : Bytes) (form : LoopForm) : List Visit :=
  if s.Accepts source form then Walk.visits s.interpreter.knows (s.parsed source form).program
  else []

/-- A session that has run some sources, and the visits of the walks over those it accepted. Any
source may have been run, with any bound and in any form; one that was rejected adds no visits. -/
inductive After (sink : Sink) (reading : Nat → Float) : List Visit → Session → Prop where
  | new : After sink reading [] (Session.clocked sink reading)
  | run {vs : List Visit} {s : Session} (before : After sink reading vs s) (fuel : Nat)
      (source : Bytes) (form : LoopForm) :
      After sink reading (vs ++ s.visited source form) (s.run fuel source form).2

/-- The frames and the distances of a session fit the visits: there is a lexical memory that its
frames mirror, the distances are those that the walks found, and none of the visits is a misuse. -/
structure Ties (reading : Nat → Float) (vs : List Visit) (s : Session) : Prop where
  heap : ∃ L mem, Heap vs L s.interpreter.store mem
  located : Located 0 s.issued s.interpreter.host.resolution vs
  clock : s.interpreter.host.functions = #[fun calls _ => .ok (.number (reading calls))]
  clean : ∀ v ∈ vs, v.Clean

variable {sink : Sink} {reading : Nat → Float} {vs : List Visit} {s : Session} {source : Bytes}
variable {form : LoopForm}

/-- The walk over an accepted source. -/
theorem visited_eq (h : s.Accepts source form) :
    s.visited source form = Walk.visits s.interpreter.knows (s.parsed source form).program :=
  if_pos h

/-- What an accepted source is run with. -/
theorem Ties.serves (h : s.Ties reading vs) (ha : s.Accepts source form) :
    Located 0 (s.parsed source form).issued (s.host source form).resolution
        (vs ++ s.visited source form) ∧
      Serves (s.host source form) reading (vs ++ s.visited source form) := by
  have made := parse_made source s.issued form
  have located : Located 0 (s.parsed source form).issued (s.host source form).resolution
      (vs ++ s.visited source form) := by
    rw [visited_eq ha]
    exact h.located.append (Located.ofProgram _ made) (Nat.zero_le _) made.issued_le
  exact ⟨located, ⟨_, _, located⟩, h.clock⟩

/-- The lexical machine at the start of the program, with these cells. -/
def lexical (s : Session) (source : Bytes) (form : LoopForm) (mem : Cells) : Lexical.Machine :=
  ⟨.yield .nil, [.sequence (s.parsed source form).program []], mem, s.interpreter.sink.drained, 0,
    s.interpreter.calls⟩

/-- The machine is tied to the lexical machine that started with it. -/
theorem Ties.run_lexical {L : Layout} {mem : Cells} (h : s.Ties reading vs)
    (heap : Heap vs L s.interpreter.store mem) (ha : s.Accepts source form) (fuel : Nat) :
    ∃ L', Tied (vs ++ s.visited source form) L'
      ((s.started source form).run (s.host source form) fuel)
      ((s.lexical source form mem).run reading fuel) := by
  have made := parse_made source s.issued form
  have heap' := heap.mono (List.subset_append_left vs (s.visited source form))
  have seen : SeenBody (vs ++ s.visited source form) ⟨s.interpreter.knows, [], []⟩
      (s.parsed source form).program := by
    rw [visited_eq ha]
    exact (seenBody_program made.formed).mono (List.subset_append_right vs _)
  have start := Tied.start heap' (fun x hx => (heap.bound _ x).mp hx) seen
    s.interpreter.sink.drained s.interpreter.calls
  exact start.run (h.serves ha).2 fuel

/-- The machine is tied to a lexical machine at all moments of a run. -/
theorem Ties.run (h : s.Ties reading vs) (ha : s.Accepts source form) (fuel : Nat) :
    ∃ L l, Tied (vs ++ s.visited source form) L
      ((s.started source form).run (s.host source form) fuel) l := by
  obtain ⟨L, mem, heap⟩ := h.heap
  obtain ⟨L', tied⟩ := h.run_lexical heap ha fuel
  exact ⟨L', _, tied⟩

/-- The frames and the distances of a session fit the visits, whatever it has run. -/
theorem After.ties (h : After sink reading vs s) : s.Ties reading vs := by
  induction h with
  | new =>
      obtain ⟨L, heap⟩ := Heap.initial []
      exact ⟨⟨L, _, heap⟩, .empty, rfl, fun v hv => by simp at hv⟩
  | @run vs s before fuel source form ih =>
      have made := parse_made source s.issued form
      by_cases ha : s.Accepts source form
      · rw [(run_accepted ha).2]
        obtain ⟨L, l, tied⟩ := ih.run ha fuel
        refine ⟨⟨L, l.memory, tied.heap⟩, (ih.serves ha).1, ih.clock, fun v hv => ?_⟩
        rcases List.mem_append.mp hv with hv | hv
        · exact ih.clean v hv
        · rw [visited_eq ha] at hv
          exact clean_visits made.formed ha.resolve v hv
      · have hnone : s.visited source form = [] := if_neg ha
        rw [(run_rejected ha).2, hnone, List.append_nil]
        exact ⟨ih.heap, ih.located.mono made.issued_le, ih.clock, ih.clean⟩

/-- A moment of a session: a machine at work on an accepted source, after other sources have been run,
and after any number of steps. The visits are those of all sources accepted so far, this one
included. -/
inductive Moment : List Visit → Host → Machine → Prop where
  | mk {sink : Sink} {reading : Nat → Float} {vs : List Visit} {s : Session} {source : Bytes}
      {form : LoopForm} (after : After sink reading vs s) (accepts : s.Accepts source form)
      (steps : Nat) :
      Moment (vs ++ s.visited source form) (s.host source form)
        ((s.started source form).run (s.host source form) steps)

/-- At every moment the machine is tied to a lexical machine, and no visit is a misuse. -/
theorem Moment.tied {host : Host} {m : Machine} (h : Moment vs host m) :
    (∃ L l, Tied vs L m l) ∧ (∃ lo hi, Located lo hi host.resolution vs) ∧ ∀ v ∈ vs, v.Clean := by
  cases h with
  | @mk _ _ vs s source form after accepts steps =>
      refine ⟨after.ties.run accepts steps, (after.ties.serves accepts).2.located, fun v hv => ?_⟩
      rcases List.mem_append.mp hv with hv | hv
      · exact after.ties.clean v hv
      · rw [visited_eq accepts] at hv
        exact clean_visits (parse_made source s.issued form).formed accepts.resolve v hv

end Session

-- ==== Frames and scopes

/-- Going out from the frame one meets a frame for each scope and then the global frame, which is the
last; and each of them binds all names that its scope has as defined. -/
structure Store.Mirrors (store : Store) (env : FrameRef) (scopes : List Scope) : Prop where
  depth : store.climb scopes.length env = .ok Store.global
  root : store.parent? Store.global = none
  bound : ∀ k scope, scopes[k]? = some scope →
    ∃ frame, store.climb k env = .ok frame ∧
      ∀ x, scope.lookup x = some true → ∃ v, store.lookup? frame x = some v

variable {vs : List Visit} {L : Layout} {store : Store} {mem : Cells} {scopes : List Scope}
variable {ρ : FrameRef} {host : Host} {m : Machine}

/-- A name that a frame binds has a value. -/
theorem Heap.exists_of_bound (h : Heap vs L store mem) {x : Bytes} (hb : L.bound ρ x) :
    ∃ v, store.lookup? ρ x = some v :=
  Option.isSome_iff_exists.mp ((h.bound ρ x).mpr hb)

/-- The frame that stands for a scope. -/
theorem Heap.climb (h : Heap vs L store mem) (holds : Holds L scopes ρ) {k : Nat} {scope : Scope}
    (hk : scopes[k]? = some scope) :
    ∃ frame, store.climb k ρ = .ok frame ∧ ∀ x, scope.lookup x = some true → L.bound frame x := by
  induction holds generalizing k with
  | top => simp at hk
  | @under scope' outer ρ ρ' defined parent holds ih =>
      cases k with
      | zero =>
          obtain rfl := Option.some.inj hk
          exact ⟨ρ, rfl, defined⟩
      | succ k =>
          obtain ⟨frame, hclimb, hb⟩ := ih hk
          refine ⟨frame, ?_, hb⟩
          simp only [Store.climb, h.parent ρ, parent, hclimb]

/-- Where the frames hold what the walk had as defined, they mirror its scopes. -/
theorem Heap.mirrors (h : Heap vs L store mem) (holds : Holds L scopes ρ) :
    store.Mirrors ρ scopes where
  depth := by
    induction holds with
    | top => rfl
    | @under scope outer ρ ρ' defined parent holds ih =>
        simp only [List.length_cons, Store.climb, h.parent ρ, parent, ih]
  root := (h.parent Store.global).trans h.root
  bound k scope hk := by
    obtain ⟨frame, hclimb, hb⟩ := h.climb holds hk
    exact ⟨frame, hclimb, fun x hx => h.exists_of_bound (hb x hx)⟩

/-- The scope at a name's distance declares the name. -/
theorem Scope.declares_of_distance? {name : Bytes} {k : Nat}
    (h : Scope.distance? name scopes = some k) :
    ∃ scope, scopes[k]? = some scope ∧ scope.declares name = true := by
  induction scopes generalizing k with
  | nil => simp [distance?] at h
  | cons scope outer ih =>
      unfold distance? at h
      split at h
      next hd =>
        obtain rfl := Option.some.inj h
        exact ⟨scope, rfl, hd⟩
      next =>
        obtain ⟨j, hj, rfl⟩ := Option.map_eq_some_iff.mp h
        exact ih hj

/-- Scopes that differ by a declared name differ in the innermost scope only. -/
theorem Visit.Clean.outer {v : Visit} (h : v.Clean) (k : Nat) :
    v.walk.scopes[k + 1]? = v.before.scopes[k + 1]? := by
  rcases h.opening with heq | ⟨name, heq⟩
  · rw [heq]
  · rw [heq]
    cases v.before.scopes <;> rfl

/-- A name that is read, and that a scope declares, is defined there. In the innermost scope it
would be a misuse otherwise, and in the outer ones all that was declared before the expression has
been defined. -/
theorem Visit.Clean.defined {v : Visit} (h : v.Clean) {id : Nat} {name : Token}
    (hnode : v.node = .ident id name)
    (hdefined : ∀ scope ∈ v.before.scopes, ∀ x, scope.declares x = true →
      scope.lookup x = some true)
    {k : Nat} {scope : Scope} (hk : v.walk.scopes[k]? = some scope)
    (hd : scope.declares name.lexeme = true) : scope.lookup name.lexeme = some true := by
  cases k with
  | zero =>
      have hread := h.read id name hnode
      unfold Walk.selfRead? at hread
      cases hs : v.walk.scopes with
      | nil => simp [hs] at hk
      | cons scope' outer =>
          rw [hs] at hk hread
          obtain rfl := Option.some.inj hk
          obtain ⟨d, hlookup⟩ := Option.isSome_iff_exists.mp hd
          cases d with
          | true => exact hlookup
          | false => simp [hlookup] at hread
  | succ k =>
      rw [h.outer] at hk
      exact hdefined scope (List.mem_of_getElem? hk) _ hd

-- ==== Reading names

/-- A read by distance finds a value, and so does a global read in its own initializer. The scope at
the distance has the name as defined, so its frame binds it; and a global that may be read there is
one that was known. -/
theorem Heap.read_ok {scene : Scene} {u : Visit} {id : Nat} {name : Token}
    (heap : Heap vs L store mem) (located : ∃ lo hi, Located lo hi host.resolution vs)
    (exact : Exact L scene ρ) (holds : Holds L scopes ρ) (hu : u ∈ vs) (clean : u.Clean)
    (hnode : u.node = .ident id name) (hknown : u.known = scene.known)
    (hbefore : u.before.scopes = scene.scopes) (hwalk : u.walk.At (scene.seeing scopes))
    (hread : host.resolution[id]? ≠ none ∨ u.initializing = some name.lexeme) :
    ∃ v, Machine.readName host store id name ρ = .ok v := by
  obtain ⟨lo, hi, located⟩ := located
  have hentry := located.entry u hu id name (by rw [hnode]; rfl)
  have hscopes : u.walk.scopes = scopes := hwalk.scopes
  rw [hscopes] at hentry
  cases hd : Scope.distance? name.lexeme scopes with
  | some k =>
      obtain ⟨scope, hk, hdeclares⟩ := Scope.declares_of_distance? hd
      have hdefined := clean.defined hnode (hbefore ▸ exact.defined) (hscopes ▸ hk) hdeclares
      obtain ⟨frame, hclimb, hb⟩ := heap.climb holds hk
      obtain ⟨v, hv⟩ := heap.exists_of_bound (hb _ hdefined)
      refine ⟨v, ?_⟩
      have hres : host.resolution[id]? = some (k : Int) := by
        rw [hentry, hd]
        rfl
      simp only [Machine.readName, hres, Store.getAt, Store.ancestor, Int.toNat_natCast, hclimb,
        Store.get, hv]
  | none =>
      have hres : host.resolution[id]? = none := by
        rw [hentry, hd]
        rfl
      have hinit : u.initializing = some name.lexeme := hread.resolve_left (· hres)
      obtain ⟨hnil, hne⟩ := clean.outermost name.lexeme hinit
      -- The misuse was not found, so the name is a global of the program or of an earlier one.
      have hself := clean.read id name hnode
      unfold Walk.selfRead? at hself
      rw [hnil] at hself
      have hb : L.bound Store.global name.lexeme := by
        by_cases hg : name.lexeme ∈ u.walk.globals
        · exact exact.globals _ (hwalk.globals ▸ hg)
        · refine exact.known _ ?_
          rw [← hknown]
          cases hk : u.known name.lexeme with
          | true => rfl
          | false => simp [hinit, hne, hg, hk] at hself
      obtain ⟨v, hv⟩ := heap.exists_of_bound hb
      exact ⟨v, by simp only [Machine.readName, hres, Store.get, hv]⟩

/-- At every moment at which a node is evaluated, the frames out from its environment mirror the
scopes that the walk had open at its one visit of the node. So a variable that has a distance is
read without a fault, and so is a global variable in its own initializer. -/
theorem evaluation_mirrors_scopes (hm : Session.Moment vs host m) {e : Expr} {env : FrameRef}
    {id : Nat} (hcontrol : m.control = .eval e env) (hid : e.id? = some id) :
    ∃ v ∈ vs, v.node = e ∧ (∀ u ∈ vs, u.node.id? = some id → u = v) ∧
      m.store.Mirrors env v.walk.scopes ∧
      ∀ name, e = .ident id name →
        host.resolution[id]? ≠ none ∨ v.initializing = some name.lexeme →
        ∃ value, Machine.readName host m.store id name env = .ok value := by
  obtain ⟨⟨L, l, tied⟩, located, clean⟩ := hm.tied
  have he : e ≠ .absent := by
    rintro rfl
    simp [Expr.id?] at hid
  have doing := tied.doing
  rw [hcontrol] at doing
  generalize l.control = control' at doing
  cases doing with
  | @eval ρ scene scopes σ _ _ _ exact chain holds seen stack =>
      obtain ⟨v, hv, hnode, hknown, hbefore, hwalk⟩ := seen.visit he
      have hscopes : v.walk.scopes = scopes := hwalk.scopes
      refine ⟨v, hv, hnode, fun u hu huid => ?_, ?_, fun name hname hread => ?_⟩
      · obtain ⟨lo, hi, located⟩ := located
        exact Visit.eq_of_id located.within.nodup hu hv huid (hnode ▸ hid)
      · rw [hscopes]
        exact tied.heap.mirrors holds
      · exact tied.heap.read_ok located exact holds hv (clean v hv) (hnode.trans hname) hknown hbefore
          hwalk hread

/-- How many scopes out the variable is found that the machine reads next. -/
def Machine.reads? (host : Host) (m : Machine) : Option Int :=
  match m.control with
  | .eval (.ident id _) _ => host.resolution[id]?
  | _ => none

/-- A machine that reads by distance is at a name. -/
theorem Machine.eval_of_reads? {host : Host} {m : Machine} {hops : Int}
    (h : m.reads? host = some hops) :
    ∃ id name env, m.control = .eval (.ident id name) env ∧ host.resolution[id]? = some hops := by
  unfold Machine.reads? at h
  split at h
  next id name env heval => exact ⟨id, name, env, heval, h⟩
  next => cases h

/-- A function that an earlier source made reads a variable of the call that made it. -/
theorem reads_through_earlier_closure :
    let before := utf8 "fun f() { var a; fun g() { return a; } return g; } var h = f();"
    let s := ((Session.clocked .unlimited fun _ => 0).run 40 before).2
    let host := s.host (utf8 "h();") .compact
    let m := (s.started (utf8 "h();") .compact).run host 7
    ∃ id name env, m.control = .eval (.ident id name) env ∧ host.resolution[id]? = some 1 ∧
      ∃ value, Machine.readName host m.store id name env = .ok value := by
  intro before s host m
  have haccepts : s.Accepts (utf8 "h();") .compact := by decide +kernel
  have hmoment : Session.Moment _ host m := .mk (.run .new 40 before .compact) haccepts 7
  have hreads : m.reads? host = some 1 := by decide +kernel
  obtain ⟨id, name, env, heval, hhops⟩ := Machine.eval_of_reads? hreads
  obtain ⟨v, -, -, -, -, hread⟩ := evaluation_mirrors_scopes hmoment heval rfl
  exact ⟨id, name, env, heval, hhops, hread name rfl (.inl (by simp [hhops]))⟩

-- ==== Assigning names

/-- Did the scope so many hops out declare the name already before the statement? -/
def Visit.declaredBefore (v : Visit) (hops : Nat) (name : Bytes) : Bool :=
  match v.before.scopes[hops]? with
  | some scope => scope.declares name
  | none => false

/-- The frame that a name's distance leads to binds it just if the name was declared before the
statement. -/
theorem Exact.bound_iff {scene : Scene} {u : Visit} {name : Bytes} {k : Nat} {frame : FrameRef}
    (heap : Heap vs L store mem) (exact : Exact L scene ρ) (clean : u.Clean)
    (hbefore : u.before.scopes = scene.scopes) (hwalk : u.walk.scopes = scopes)
    (hd : Scope.distance? name scopes = some k) (hframe : store.climb k ρ = .ok frame) :
    L.bound frame name ↔ u.declaredBefore k name = true := by
  unfold Visit.declaredBefore
  rw [hbefore]
  constructor
  · intro hb
    obtain ⟨scope, hk, hdeclares⟩ := Scope.declares_of_distance? hd
    cases k with
    | zero =>
        obtain rfl : ρ = frame := Except.ok.inj hframe
        cases hs : scene.scopes with
        | nil =>
            rcases clean.opening with heq | ⟨_, heq⟩ <;>
              · rw [hwalk, hbefore, hs] at heq
                simp [heq] at hk
        | cons scope' outer => exact exact.only scope' outer hs name hb
    | succ k =>
        rw [← hwalk, clean.outer, hbefore] at hk
        rw [hk]
        exact hdeclares
  · intro hdeclared
    split at hdeclared
    next scope hk =>
      have hdefined := exact.defined scope (List.mem_of_getElem? hk) name hdeclared
      obtain ⟨frame', hclimb, hb⟩ := heap.climb exact.holds hk
      obtain rfl := Except.ok.inj (hframe.symm.trans hclimb)
      exact hb name hdefined
    next => simp at hdeclared

/-- At every moment at which a result is about to be assigned by distance, the distance leads to a
frame, and the assignment finds its variable there just if the scope at that distance declared it
already before the statement that the assignment stands in. Otherwise the variable is undefined. -/
theorem assignment_finds_declared (hm : Session.Moment vs host m) {result : Value} {env : FrameRef}
    {id : Nat} {name : Token} {K : List Pending} {hops : Int}
    (hcontrol : m.control = .yield result) (hstack : m.stack = .assign id name env :: K)
    (hhops : host.resolution[id]? = some hops) :
    ∃ v ∈ vs, v.node.use? = some (id, name) ∧ (∀ u ∈ vs, u.node.id? = some id → u = v) ∧
      ∃ frame, m.store.ancestor env hops = .ok frame ∧
        Machine.findName host m.store id name env =
          if v.declaredBefore hops.toNat name.lexeme then .ok frame
          else .error (.undefined name.lexeme) := by
  obtain ⟨⟨L, l, tied⟩, ⟨lo, hi, located⟩, clean⟩ := hm.tied
  have doing := tied.doing
  rw [hcontrol, hstack] at doing
  generalize l.control = control', l.stack = stack' at doing
  cases doing with
  | yield exact agrees stack =>
      cases stack with
      | @assign _ scene _ _ scopes σ _ _ value chain holds seen below =>
          obtain ⟨v, hv, hnode, -, hbefore, hwalk⟩ := seen.visit (by simp)
          have hscopes : v.walk.scopes = scopes := hwalk.scopes
          have huse : v.node.use? = some (id, name) := by rw [hnode]; rfl
          refine ⟨v, hv, huse, fun u hu huid => ?_, ?_⟩
          · exact Visit.eq_of_id located.within.nodup hu hv huid (Expr.id?_of_use? huse)
          · have hentry := located.entry v hv id name huse
            rw [hhops, hscopes] at hentry
            obtain ⟨k, hk, rfl⟩ := Option.map_eq_some_iff.mp hentry.symm
            obtain ⟨frame, c, hclimb, -, -⟩ := tied.heap.find_some chain hk
            have hancestor : m.store.ancestor env (Int.ofNat k) = .ok frame := by
              simp only [Store.ancestor, Int.ofNat_eq_natCast, Int.toNat_natCast, hclimb]
            refine ⟨frame, hancestor, ?_⟩
            simp only [Machine.findName, hhops, Store.boundAt, hancestor, Store.bound]
            have hiff := exact.bound_iff tied.heap (clean v hv) hbefore hscopes hk hclimb
            rw [← tied.heap.bound] at hiff
            simp only [hiff, Int.ofNat_eq_natCast, Int.toNat_natCast]

/-- How many scopes out the variable is found that the machine assigns to next. -/
def Machine.assigns? (host : Host) (m : Machine) : Option Int :=
  match m.control, m.stack with
  | .yield _, .assign id _ _ :: _ => host.resolution[id]?
  | _, _ => none

/-- A machine that assigns by distance has the value and an assignment that waits. -/
theorem Machine.yield_of_assigns? {host : Host} {m : Machine} {hops : Int}
    (h : m.assigns? host = some hops) :
    ∃ result id name env K, m.control = .yield result ∧ m.stack = .assign id name env :: K ∧
      host.resolution[id]? = some hops := by
  unfold Machine.assigns? at h
  split at h
  next result id name env K hcontrol hstack =>
    exact ⟨result, id, name, env, K, hcontrol, hstack, h⟩
  next => cases h

/-- An assignment from an inner block finds the variable of the block around it. -/
theorem assignment_finds_outer_variable :
    let s := Session.clocked .unlimited fun _ => 0
    let source := utf8 "{ var a; { a = nil; } }"
    let host := s.host source .compact
    let m := (s.started source .compact).run host 10
    ∃ result id name env K, m.control = .yield result ∧ m.stack = .assign id name env :: K ∧
      host.resolution[id]? = some 1 ∧ ∃ frame, m.store.ancestor env 1 = .ok frame := by
  intro s source host m
  have haccepts : s.Accepts source .compact := by decide +kernel
  have hmoment : Session.Moment _ host m := .mk .new haccepts 10
  have hassigns : m.assigns? host = some 1 := by decide +kernel
  obtain ⟨result, id, name, env, K, hcontrol, hstack, hhops⟩ := Machine.yield_of_assigns? hassigns
  obtain ⟨v, -, -, -, frame, hframe, -⟩ := assignment_finds_declared hmoment hcontrol hstack hhops
  exact ⟨result, id, name, env, K, hcontrol, hstack, hhops, frame, hframe⟩

/-- In the initializer of its own variable an assignment by distance fails, although the source has
no static diagnostic. -/
theorem assignment_in_own_initializer_fails :
    let s := Session.clocked .unlimited fun _ => 0
    let source := utf8 "{ var a = (a = 1); print a; }"
    s.Accepts source .compact ∧ (s.host source .compact).resolution[3]? = some 0 ∧
      (s.run 40 source).1.outcome = .failed ∧
      (s.run 40 source).1.diagnostics = [⟨.runtime, 1, [], utf8 "Undefined variable 'a'."⟩] ∧
      (s.run 40 source).1.printed = [] := by
  decide +kernel

end Lox
