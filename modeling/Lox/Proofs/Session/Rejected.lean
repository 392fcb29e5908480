/-
A source that is rejected leaves no trace.

# What is shown

It prints nothing and changes no frame. All that it does to a session is to take identities for the
tree that was read before it was rejected (`run_of_hadError`), and so the trees of all later sources
have other identities than they would have had. That is not seen: all other runs of the history show
what they would have shown without it (`rejected_leaves_no_trace`).

# Sessions that are ahead

A session that is `Ahead` of another by some identities behaves as the other one does (`Ahead.run`):
it reads the same trees but for their identities (`parsed_eq`), finds the same misuses and distances
(`resolved_renamed`), and takes the same steps (`machine_renamed`). Each of these is an equation
about renaming, proved for trees, walks and machines before; here they are put together for the
renaming that leaves the identities up to some point as they are and adds to those after it
(`skipping`).

# Code from before

Functions from before the rejected source have kept their identities, and their distances are
recorded at them. So the renaming has to leave the frames of the session as they are, which holds of
code that has no later identities (`After.store_renamed`).
-/
import Lox.Proofs.Machine.Renamed
import Lox.Proofs.Reader.Later
import Lox.Proofs.Session.History

namespace Lox

variable {base d : Nat}

-- ==== Identities that are passed over

/-- Identities after `base` are `d` greater. -/
def skipping (base d i : Nat) : Nat := if i ≤ base then i else i + d

/-- Identities up to `base` stay as they are. -/
theorem skipping_of_le {i : Nat} (h : i ≤ base) : skipping base d i = i := if_pos h

/-- Those after it are `d` greater. -/
theorem skipping_of_lt {i : Nat} (h : base < i) : skipping base d i = i + d :=
  if_neg (Nat.not_le.mpr h)

/-- Distinct identities stay distinct. -/
theorem skipping_injective : Function.Injective (skipping base d) := by
  intro i j h
  unfold skipping at h
  split at h <;> split at h <;> omega

/-- Trees with no identity after `base` stay as they are. -/
theorem Stmt.renamedAll_skipping {ss : List Stmt} (h : ∀ i ∈ Stmt.idsAll ss, i ≤ base) :
    Stmt.renamedAll (skipping base d) ss = ss := by
  have hcongr := Stmt.renamedAll_congr ss (f := skipping base d) (g := id)
    fun i hi => skipping_of_le (h i hi)
  rw [hcongr, Stmt.renamedAll_id]

/-- So do distances of nodes that come no later than `base`. -/
theorem Located.renamed_skipping {hi : Nat} {r : Resolution} {vs : List Visit}
    (h : Located 0 hi r vs) (hle : hi ≤ base) : r.Renamed (skipping base d) r := by
  have hnone : ∀ id, base < id → r[id]? = none := by
    intro id hid
    cases hr : r[id]? with
    | none => rfl
    | some hops =>
        have := h.within.upto id (h.visited id hops hr)
        omega
  intro id
  by_cases hid : id ≤ base
  · rw [skipping_of_le hid]
  · rw [skipping_of_lt (Nat.not_le.mp hid), hnone id (Nat.not_le.mp hid),
      hnone (id + d) (Nat.lt_of_lt_of_le (Nat.not_le.mp hid) (Nat.le_add_right _ _))]

/-- A clock tells the same reading to functions that are renamed. -/
theorem Host.Renamed.clock {g : Nat → Nat} {host host' : Host} {reading : Nat → Float}
    (hf : host.functions = #[fun calls _ => .ok (.number (reading calls))])
    (hf' : host'.functions = host.functions) (hr : host.resolution.Renamed g host'.resolution) :
    host.Renamed g host' := by
  refine ⟨hr, fun calls f args => ?_⟩
  rw [Host.call_clock (hf'.trans hf), Host.call_clock hf]
  split <;> rfl

-- ==== Static diagnostics

/-- What is found wrong while scanning is found without running anything. -/
theorem Segment.diagnostics_static (line : Int) (segments : List Segment) :
    ∀ x ∈ Segment.diagnostics line segments, x.stage.isStatic = true := by
  induction segments generalizing line with
  | nil => exact List.forall_mem_nil _
  | cons s rest ih =>
      unfold Segment.diagnostics
      split
      · exact List.forall_mem_cons.mpr ⟨rfl, ih _⟩
      · exact ih _

/-- So is what is found wrong while reading. -/
theorem parse_static (tokens : List Token) (issued : Nat) (form : LoopForm) :
    ∀ x ∈ (parse tokens issued form).diagnostics, x.stage.isStatic = true := by
  intro x hx
  obtain ⟨fault, -, rfl⟩ := List.mem_map.mp hx
  rfl

/-- So are misuses. -/
theorem resolve_static (known : Bytes → Bool) (program : Program) :
    ∀ x ∈ (resolve known program).diagnostics, x.stage.isStatic = true := by
  intro x hx
  obtain ⟨fault, -, rfl⟩ := List.mem_map.mp hx
  rfl

namespace Session

variable {sink : Sink} {reading : Nat → Float} {vs : List Visit} {s s' : Session} {source : Bytes}
variable {form : LoopForm} {fuel : Nat}

-- ==== Frames before a source

/-- The code in the frames of a session has no identities that have not been taken, so renaming
later ones leaves the frames as they are. By induction over the sources: each of them runs as it
does with itself renamed, which changes nothing. -/
theorem After.store_renamed (h : After sink reading vs s) (hbase : s.issued ≤ base) :
    s.interpreter.store.renamed (skipping base d) = s.interpreter.store := by
  induction h generalizing base with
  | new =>
      have hinitial : Store.initial.renamed (skipping base d) = Store.initial := by
        simp [Store.initial, Store.renamed, Frame.renamed]
      have hclock := Store.initial.define_renamed (g := skipping base d) Store.global (utf8 "clock")
        (.native ⟨0, 0⟩)
      rw [hinitial] at hclock
      exact hclock
  | @run vs s before fuel source form ih =>
      have made := parse_made source s.issued form
      by_cases ha : s.Accepts source form
      · rw [(run_accepted ha).2] at hbase ⊢
        have hissued : (s.parsed source form).issued ≤ base := hbase
        have hprogram := Stmt.renamedAll_skipping (d := d) fun i hi =>
          Nat.le_trans (made.within.upto i hi) hissued
        have hstart : (s.started source form).renamed (skipping base d) = s.started source form := by
          simp only [started, Machine.renamed, List.map_cons, List.map_nil, Pending.renamed,
            ih (Nat.le_trans made.issued_le hissued)]
          exact congrArg (fun p => Machine.mk _ [.sequence p _] _ _ _ _) hprogram
        have hhost : (s.host source form).Renamed (skipping base d) (s.host source form) :=
          .clock before.ties.clock rfl ((before.ties.serves ha).1.renamed_skipping hissued)
        have hrun := Machine.run_renamed hhost (s.started source form) fuel
        rw [hstart] at hrun
        exact congrArg Machine.store hrun.symm
      · rw [(run_rejected ha).2] at hbase ⊢
        exact ih (Nat.le_trans made.issued_le hbase)

-- ==== Sessions with other identities

/-- The session `s'` is as `s`, but all identities after `base` are `d` greater in it: those of its
counter, of its distances and of the code in its frames. -/
structure Ahead (base d : Nat) (s s' : Session) : Prop where
  base_le : base ≤ s.issued
  issued : s'.issued = s.issued + d
  clock : ∃ reading : Nat → Float,
    s.interpreter.host.functions = #[fun calls _ => .ok (.number (reading calls))]
  functions : s'.interpreter.host.functions = s.interpreter.host.functions
  resolution : s.interpreter.host.resolution.Renamed (skipping base d) s'.interpreter.host.resolution
  store : s'.interpreter.store = s.interpreter.store.renamed (skipping base d)
  sink : s'.interpreter.sink = s.interpreter.sink
  depth : s'.interpreter.depth = s.interpreter.depth
  calls : s'.interpreter.calls = s.interpreter.calls

/-- How a machine has ended shows nothing of identities. -/
theorem concluded_renamed {g : Nat → Nat} (host host' : Host) (m : Machine) (printed : Bytes)
    (log : List LogRecord) :
    concluded (Interpreter.conclude host' (m.renamed g)).1 printed log =
      concluded (Interpreter.conclude host m).1 printed log := by
  obtain ⟨control, stack, store, sink, depth, calls⟩ := m
  cases control <;> cases stack <;> rfl

namespace Ahead

/-- The same tree is read, with other identities. -/
theorem parsed_eq (h : Ahead base d s s') (source : Bytes) (form : LoopForm) :
    s'.parsed source form =
      ⟨Stmt.renamedAll (skipping base d) (s.parsed source form).program,
        (s.parsed source form).diagnostics, (s.parsed source form).issued + d⟩ := by
  have made := parse_made source s.issued form
  have hnew : ∀ i ∈ Stmt.idsAll (s.parsed source form).program, i + d = skipping base d i :=
    fun i hi => (skipping_of_lt (Nat.lt_of_le_of_lt h.base_le (made.within.above i hi))).symm
  unfold parsed at hnew ⊢
  rw [h.issued, parse_later, Stmt.renamedAll_congr _ hnew]

/-- The same globals are known. -/
theorem knows_eq (h : Ahead base d s s') : s'.interpreter.knows = s.interpreter.knows := by
  funext name
  unfold Interpreter.knows
  rw [h.store, Store.lookup?_renamed, Option.isSome_map]

/-- The same distances and misuses are found. -/
theorem resolved_renamed (h : Ahead base d s s') (source : Bytes) (form : LoopForm) :
    (s.resolved source form).resolution.Renamed (skipping base d)
        (s'.resolved source form).resolution ∧
      (s'.resolved source form).resolution.size = (s.resolved source form).resolution.size ∧
      (s'.resolved source form).diagnostics = (s.resolved source form).diagnostics := by
  unfold resolved
  rw [h.knows_eq, h.parsed_eq]
  exact resolve_renamed skipping_injective s.interpreter.knows (s.parsed source form).program

theorem host_renamed (h : Ahead base d s s') (source : Bytes) (form : LoopForm) :
    (s.host source form).Renamed (skipping base d) (s'.host source form) := by
  obtain ⟨reading, hclock⟩ := h.clock
  exact .clock hclock h.functions (h.resolution.merge (h.resolved_renamed source form).1)

/-- The machine is started on the renamed program. -/
theorem started_renamed (h : Ahead base d s s') (source : Bytes) (form : LoopForm) :
    s'.started source form = (s.started source form).renamed (skipping base d) := by
  unfold started
  rw [h.parsed_eq, h.store, h.sink, h.calls]
  rfl

/-- It takes the same steps. -/
theorem machine_renamed (h : Ahead base d s s') (source : Bytes) (form : LoopForm) (fuel : Nat) :
    (s'.started source form).run (s'.host source form) fuel =
      ((s.started source form).run (s.host source form) fuel).renamed (skipping base d) := by
  rw [h.started_renamed, Machine.run_renamed (h.host_renamed source form)]

/-- More identities are taken on both sides. -/
theorem issue (h : Ahead base d s s') {n : Nat} (hn : s.issued ≤ n) :
    Ahead base d { s with issued := n } { s' with issued := n + d } :=
  ⟨Nat.le_trans h.base_le hn, rfl, h.clock, h.functions, h.resolution, h.store, h.sink, h.depth,
    h.calls⟩

/-- A run of the same source shows the same, and leaves the one session as far ahead as before. -/
theorem run (h : Ahead base d s s') (fuel : Nat) (source : Bytes) (form : LoopForm) :
    (s'.run fuel source form).1 = (s.run fuel source form).1 ∧
      Ahead base d (s.run fuel source form).2 (s'.run fuel source form).2 := by
  have hissued := (parse_made source s.issued form).issued_le
  obtain ⟨-, hsize, hmisuses⟩ := h.resolved_renamed source form
  have hmachine := h.machine_renamed source form fuel
  rw [run_eq, run_eq, h.parsed_eq, hsize, hmisuses, hmachine, concluded_renamed (s.host source form),
    Stmt.length_renamedAll]
  dsimp only
  split
  · exact ⟨rfl, h.issue hissued⟩
  · split
    · exact ⟨rfl, h.issue hissued⟩
    · exact ⟨rfl, Nat.le_trans h.base_le hissued, rfl, h.clock, h.functions,
        (h.host_renamed source form).resolution, rfl, rfl, rfl, rfl⟩

/-- All runs of a history show the same. -/
theorem runs_eq (h : Ahead base d s s') (history : List Request) :
    s'.runs history = s.runs history := by
  induction history generalizing s s' with
  | nil => rfl
  | cons r rest ih =>
      obtain ⟨hshown, hahead⟩ := h.run r.fuel r.source r.form
      exact congrArg₂ List.cons hshown (ih hahead)

end Ahead

-- ==== Runs that are rejected

/-- Taking identities puts a session ahead of what it was. -/
theorem After.ahead (h : After sink reading vs s) {n : Nat} (hn : s.issued ≤ n) :
    Ahead s.issued (n - s.issued) s { s with issued := n } where
  base_le := Nat.le_refl _
  issued := (Nat.add_sub_of_le hn).symm
  clock := ⟨reading, h.ties.clock⟩
  functions := rfl
  resolution := h.ties.located.renamed_skipping (Nat.le_refl _)
  store := (h.store_renamed (Nat.le_refl _)).symm
  sink := rfl
  depth := rfl
  calls := rfl

/-- A source that was run was not rejected. -/
theorem hadError_concluded (ending : Ending) (printed : Bytes) (log : List LogRecord) :
    (concluded ending printed log).hadError = false := by
  cases ending <;> rfl

/-- A run is rejected because of static diagnostics, and only takes identities. -/
theorem run_of_hadError (h : (s.run fuel source form).1.hadError = true) :
    ∃ found log, found ≠ [] ∧ (∀ x ∈ found, x.stage.isStatic = true) ∧
      s.run fuel source form =
        (reject found log, { s with issued := (s.parsed source form).issued }) := by
  rw [run_eq] at h ⊢
  split at h
  next hfound =>
    rw [if_pos hfound]
    refine ⟨_, _, by simpa using hfound, List.forall_mem_append.mpr ⟨?_, ?_⟩, rfl⟩
    · exact Segment.diagnostics_static 1 (Segment.split source)
    · exact parse_static _ _ _
  next hfound =>
    rw [if_neg hfound]
    split at h
    next hmisuses =>
      rw [if_pos hmisuses]
      refine ⟨(s.resolved source form).diagnostics, _, by simpa using hmisuses, ?_, rfl⟩
      exact resolve_static _ _
    next => exact absurd h (by rw [hadError_concluded]; exact Bool.false_ne_true)

/-- A run that is rejected leaves no trace. It prints nothing, what it finds wrong is found without
running the source and is what the reporter is told, and no frame and no distance changes. All other
runs of the history, before it and after it, show what they would have shown without it. -/
theorem rejected_leaves_no_trace (sink : Sink) (reading : Nat → Float) (before : List Request)
    (r : Request) (later : List Request)
    (h : (((clocked sink reading).afterAll before).serve r).1.hadError = true) :
    let s := (clocked sink reading).afterAll before
    let rejected := (s.serve r).1
    rejected.printed = [] ∧ rejected.diagnostics ≠ [] ∧
      (∀ x ∈ rejected.diagnostics, x.stage.isStatic = true) ∧
      rejected.reported = rejected.diagnostics ∧ (s.serve r).2.interpreter = s.interpreter ∧
      (clocked sink reading).runs (before ++ later) =
        ((clocked sink reading).runs (before ++ r :: later)).eraseIdx before.length := by
  intro s rejected
  obtain ⟨found, log, hfound, hstatic, hrun⟩ := run_of_hadError h
  have hrejected : rejected = ⟨.rejected, found, found, [], log⟩ :=
    (congrArg Prod.fst hrun).trans (Run.foldl_report _ found)
  have hleft : (s.serve r).2 = { s with issued := (s.parsed r.source r.form).issued } :=
    congrArg Prod.snd hrun
  obtain ⟨vs, after⟩ := (After.new : After sink reading [] _).all before
  have hlater : (s.serve r).2.runs later = s.runs later := by
    rw [hleft]
    exact (after.ahead (parse_made r.source s.issued r.form).issued_le).runs_eq later
  rw [hrejected, hleft]
  refine ⟨rfl, hfound, hstatic, rfl, rfl, ?_⟩
  rw [runs_append, runs_append, List.eraseIdx_append_of_length_le (Nat.le_of_eq (length_runs _ _)),
    length_runs, Nat.sub_self]
  exact congrArg (_ ++ ·) hlater.symm

/-- A source with a variable that is read in its own initializer takes identities and is rejected.
The source after it calls a function from before, and prints the same as if nothing had happened. -/
theorem rejected_leaves_no_trace_between :
    let before : List Request := [⟨60, utf8 "var a = nil; fun f(x) { a = x; return a; }", .compact⟩]
    let r : Request := ⟨60, utf8 "{ var b = b; }", .compact⟩
    let later : List Request := [⟨60, utf8 "{ var c = f(true); print c; }", .compact⟩]
    let new := clocked .unlimited fun _ => 0
    let s := new.afterAll before
    (s.serve r).1.hadError = true ∧ s.issued < (s.serve r).2.issued ∧
      (new.runs (before ++ later)).map Run.printed = [[], utf8 "true\n"] ∧
      new.runs (before ++ later) = (new.runs (before ++ r :: later)).eraseIdx before.length := by
  intro before r later new s
  have hrejected : (s.serve r).1.hadError = true := by decide +kernel
  obtain ⟨-, -, -, -, -, hothers⟩ :=
    rejected_leaves_no_trace .unlimited (fun _ => 0) before r later hrejected
  exact ⟨hrejected, by decide +kernel, by decide +kernel, hothers⟩

end Session

end Lox
