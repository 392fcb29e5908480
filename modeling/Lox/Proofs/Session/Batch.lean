/-
Two sources in one run, or in two.

# What is shown

A source that comes to its end may be followed, in the same run, by what would have been the next
source. Run as one, the two do what they do one after the other: they are accepted, print the same,
end in the same way and leave the same session (`run_joined`). What differs is where the tokens of
the second source stand: a fault at one of them is reported as many lines further down as the first
source has, and code that is kept in frames has moved down.

# Two phases

The runs are compared in two phases. In the first, the machine has only nodes of the first source
and of earlier ones before it, and their distances are the same in both hosts, so it does what it
did (`Machine.run_congr`, `Machine.run_then`). In the second, the two machines have the same work
before them, but the nodes of the second source stand further down in the longer one, so they go in
step (`Machine.Moved.run`).

# Earlier code

Both phases rest on the frames of a session holding no code but that of earlier sources
(`Store.UpTo`). Moving later nodes leaves such frames as they are, which is also how it is said:
there is no need to look into the code. From this it follows that a machine never looks up a node of
a source that is still to come (`Machine.Moved.use_unmoved`).

A fault at a token may stand in the second source or in a function of an earlier one; only in the
first case is it moved, and `failsInside` tells which it is.
-/
import Lox.Proofs.Machine.Globals
import Lox.Proofs.Machine.Lockstep
import Lox.Proofs.Machine.Sequence
import Lox.Proofs.Reader.Join
import Lox.Proofs.Session.Frames

namespace Lox

variable {f : Nat → Int} {host host' : Host} {m m' : Machine}

-- ==== Nodes that stay where they are

/-- A token that is where it was has not been moved. -/
theorem Token.eq_zero_of_moved {t : Token} {d : Int} (h : t.moved d = t) : d = 0 := by
  have hline : t.line + d = t.line := congrArg Token.line h
  omega

/-- Beside an expression stands the expression, moved. -/
theorem Control.Moved.eval_inv {blamed : Option Nat} {e : Expr} {env : FrameRef} {c : Control}
    (h : Control.Moved f blamed (.eval e env) c) : c = .eval (e.moved f) env := by
  cases h
  rfl

/-- Beside an assignment stands the assignment, moved. -/
theorem Pending.Moved.assign_inv {id : Nat} {name : Token} {env : FrameRef} {p : Pending}
    (h : Pending.Moved f (.assign id name env) p) : p = .assign id (name.moved (f id)) env := by
  cases h
  rfl

/-- If moving leaves a machine as it is, the node that it looks up is not moved. -/
theorem Machine.Moved.use_unmoved {before : List Bytes} {node : Option Nat}
    (h : m.Moved f before node m) {id : Nat} (hid : m.use? = some id) : f id = 0 := by
  obtain ⟨control, stack, store, sink, depth, calls⟩ := m
  unfold Machine.use? at hid
  split at hid
  next id' name env hcontrol =>
    obtain rfl := Option.some.inj hid
    obtain rfl : control = _ := hcontrol
    have hmoved := h.control.eval_inv
    simp only [Expr.moved, Control.eval.injEq, Expr.ident.injEq, true_and, and_true] at hmoved
    exact Token.eq_zero_of_moved hmoved.symm
  next v id' name env K hcontrol hstack =>
    obtain rfl := Option.some.inj hid
    obtain rfl : stack = _ := hstack
    obtain ⟨hp, -⟩ := List.forall₂_cons.mp h.stack
    have hmoved := hp.assign_inv
    simp only [Pending.assign.injEq, true_and, and_true] at hmoved
    exact Token.eq_zero_of_moved hmoved.symm
  next => cases hid

/-- The code in the frames has no nodes after `last`. -/
def Store.UpTo (last : Nat) (s : Store) : Prop :=
  ∀ f : Nat → Int, (∀ i ≤ last, f i = 0) → s.Moved f s

/-- There may be later nodes, as long as none is in the frames. -/
theorem Store.UpTo.mono {s : Store} {last last' : Nat} (h : s.UpTo last) (hle : last ≤ last') :
    s.UpTo last' :=
  fun f hf => h f fun i hi => hf i (Nat.le_trans hi hle)

/-- At the start there is no code in frames. -/
theorem Store.UpTo.initial (last : Nat) : Store.initial.UpTo last := by
  intro f _
  refine ⟨rfl, rfl, fun ρ => rfl, fun ρ x => ?_⟩
  have hnone : Store.initial.lookup? ρ x = none := by
    cases ρ <;> rfl
  rw [hnone]
  exact .none

/-- A clock tells the same reading, whatever has been moved. -/
theorem Host.Moved.clock {reading : Nat → Float}
    (hf : host.functions = #[fun calls _ => .ok (.number (reading calls))])
    (hf' : host'.functions = host.functions)
    (hr : ∀ id : Nat, host'.resolution[id]? = host.resolution[id]?) : host.Moved f host' := by
  refine ⟨hr, fun calls g args args' _ => .inl ?_⟩
  unfold Host.call
  rw [hf', hf]
  cases hg : g.ident with
  | zero => exact ⟨_, _, rfl, rfl, .number _⟩
  | succ n => exact ⟨_, _, rfl, rfl, .void⟩

-- ==== Sessions

namespace Session

variable {sink : Sink} {reading : Nat → Float} {vs : List Visit} {s : Session} {source : Bytes}
variable {form : LoopForm}

/-- Moving the nodes of later sources leaves a machine as it is, at all moments. -/
theorem moved_self (h : s.interpreter.store.UpTo s.issued) (ties : s.Ties reading vs)
    (hf : ∀ i ≤ (s.parsed source form).issued, f i = 0) (fuel : Nat) :
    ∃ node, Machine.Moved f [] node ((s.started source form).run (s.host source form) fuel)
      ((s.started source form).run (s.host source form) fuel) := by
  have made := parse_made source s.issued form
  have hprogram : Stmt.movedAll f (s.parsed source form).program = (s.parsed source form).program := by
    have hcongr := Stmt.movedAll_congr (s.parsed source form).program (f := f) (g := unmoved)
      fun i hi => hf i (made.within.upto i hi)
    rw [hcongr, Stmt.movedAll_unmoved]
  have hstack := Pending.Moved.sequence (f := f) (s.parsed source form).program Store.global
  rw [hprogram] at hstack
  have hstart : (s.started source form).Moved f [] none (s.started source form) :=
    ⟨.yield .nil, .cons hstack .nil, h f fun i hi => hf i (Nat.le_trans hi made.issued_le),
      by rw [List.append_nil], rfl, rfl⟩
  have hhost : (s.host source form).Moved f (s.host source form) :=
    .clock ties.clock rfl fun _ => rfl
  exact ⟨_, hstart.run hhost rfl fuel⟩

/-- The frames of a session hold code of its own sources only. -/
theorem After.upTo (h : After sink reading vs s) : s.interpreter.store.UpTo s.issued := by
  induction h with
  | new => exact fun f hf => (Store.UpTo.initial 0 f hf).define _ _ (.native _)
  | @run vs s before fuel source form ih =>
      by_cases ha : s.Accepts source form
      · rw [(run_accepted ha).2]
        intro f hf
        obtain ⟨node, hmoved⟩ := moved_self ih before.ties hf fuel
        exact hmoved.store
      · rw [(run_rejected ha).2]
        exact ih.mono (parse_made source s.issued form).issued_le

-- ==== The two sources as one

/-- The session after an accepted source, by the machine that has run it. -/
def after (s : Session) (source : Bytes) (form : LoopForm) (m : Machine) : Session :=
  ⟨keeps (s.host source form) m, (s.parsed source form).issued⟩

/-- The machine before it is given a program. -/
def idle (s : Session) : Machine :=
  ⟨.yield .nil, [], s.interpreter.store, s.interpreter.sink.drained, 0, s.interpreter.calls⟩

/-- A machine that is started is given a program. -/
theorem started_eq (s : Session) (source : Bytes) (form : LoopForm) :
    s.started source form =
      s.idle.on [.sequence (s.parsed source form).program Store.global] := rfl

/-- The machine on the two sources as one, when it comes to the second one; `m` is the machine that
has run the first. -/
def resumed (s : Session) (a b : Bytes) (form : LoopForm) (m : Machine) : Machine :=
  { m with
    control := .yield .nil
    stack := [.sequence (Stmt.movedAll (fun _ => linesOf a)
      ((s.after a form m).parsed b form).program) Store.global] }

variable {a b : Bytes} {fuel : Nat}

/-- A source does not change the distances of earlier ones. -/
theorem host_resolution_of_le {id : Nat} (hid : id ≤ s.issued) :
    (s.host source form).resolution[id]? = s.interpreter.host.resolution[id]? := by
  have located := Located.ofProgram s.interpreter.knows (parse_made source s.issued form)
  show (s.interpreter.host.resolution.merge (s.resolved source form).resolution)[id]? = _
  rw [Resolution.getElem?_merge]
  cases hnew : (s.resolved source form).resolution[id]? with
  | none => rfl
  | some hops =>
      have habove := located.within.above id (located.visited id hops hnew)
      omega

/-- Two sources that are accepted one after the other are accepted as one, and have the same
distances. -/
theorem accepts_joined (ties : s.Ties reading vs) (ha : s.Accepts a form)
    (hm : m = (s.started a form).run (s.host a form) fuel)
    (hb : (s.after a form m).Accepts b form) :
    s.Accepts (joined a b) form ∧
      s.parsed (joined a b) form =
        ⟨(s.parsed a form).program ++
          Stmt.movedAll (fun _ => linesOf a) ((s.after a form m).parsed b form).program, [],
          ((s.after a form m).parsed b form).issued⟩ ∧
      ∀ id : Nat, (s.host (joined a b) form).resolution[id]? =
        ((s.after a form m).host b form).resolution[id]? := by
  obtain ⟨L, mem, heap⟩ := ties.heap
  have hparsed := parse_join ha.scan ha.parse hb.parse
  have hknown : (Walk.stmts s.interpreter.knows false (s.parsed a form).program
      Walk.start).Accounts s.interpreter.knows (s.after a form m).interpreter.knows := by
    subst hm
    exact Walk.accounts (parse_made a s.issued form).formed heap.nonempty (fun _ => rfl) _ _ _ fuel
  obtain ⟨hresolve, hdistances⟩ := resolve_join (f := fun _ => linesOf a)
    (parse_made a s.issued form).formed hknown ha.resolve hb.resolve
  have hresolved : s.resolved (joined a b) form = resolve s.interpreter.knows
      ((s.parsed a form).program ++
        Stmt.movedAll (fun _ => linesOf a) ((s.after a form m).parsed b form).program) :=
    congrArg (fun p : Parse => resolve s.interpreter.knows p.program) hparsed
  refine ⟨⟨diagnostics_join ha.scan hb.scan, congrArg Parse.diagnostics hparsed, ?_⟩, hparsed, ?_⟩
  · rw [hresolved]
    exact hresolve
  · intro id
    show (s.interpreter.host.resolution.merge (s.resolved (joined a b) form).resolution)[id]? = _
    rw [hresolved]
    exact hdistances _ id

-- ==== The first phase

/-- A source that completes is accepted, and its machine ends with a result. -/
theorem ended_of_completed (h : (s.run fuel source form).1.outcome = .completed) :
    s.Accepts source form ∧
      ∃ v, ((s.started source form).run (s.host source form) fuel).control = .yield v ∧
        ((s.started source form).run (s.host source form) fuel).stack = [] := by
  by_cases ha : s.Accepts source form
  · refine ⟨ha, ?_⟩
    obtain ⟨log, hrun⟩ := (@run_accepted s source form fuel ha).1
    rw [hrun] at h
    generalize (s.started source form).run (s.host source form) fuel = m at h
    obtain ⟨control, stack, store, sink, depth, calls⟩ := m
    cases control <;> cases stack <;> try cases h
    exact ⟨_, rfl, rfl⟩
  · rw [(run_rejected ha).1] at h
    cases h

/-- The first statement does not see the result of what came before. -/
theorem conclude_run_sequence (v : Value) (rest : List Stmt) (env : FrameRef) (fuel : Nat) :
    Interpreter.conclude host
        (Machine.run host fuel { m with control := .yield v, stack := [.sequence rest env] }) =
      Interpreter.conclude host
        (Machine.run host fuel { m with control := .yield .nil, stack := [.sequence rest env] }) := by
  cases fuel with
  | zero => rfl
  | succ fuel => cases rest <;> rfl

/-- Run as one, the two sources come to the point where the first one has ended and the second is
left. -/
theorem conclude_joined (after : After sink reading vs s) (ha : s.Accepts a form)
    (hm : m = (s.started a form).run (s.host a form) fuel) {w : Value}
    (hcontrol : m.control = .yield w) (hstack : m.stack = [])
    (hb : (s.after a form m).Accepts b form) :
    ∃ k, ∀ fuel,
      Interpreter.conclude (s.host (joined a b) form)
          ((s.started (joined a b) form).run (s.host (joined a b) form) (k + fuel)) =
        Interpreter.conclude (s.host (joined a b) form)
          ((s.resumed a b form m).run (s.host (joined a b) form) fuel) := by
  obtain ⟨-, hparsed, hdistances⟩ := accepts_joined after.ties ha hm hb
  -- the nodes that are looked up until then are nodes of the first source, or earlier ones
  have hrun : ∀ j, (s.started a form).run (s.host (joined a b) form) j =
      (s.started a form).run (s.host a form) j := by
    refine Machine.run_congr rfl fun j id hid => ?_
    have hearly : ∀ i ≤ (s.parsed a form).issued,
        (if i ≤ (s.parsed a form).issued then (0 : Int) else 1) = 0 := fun _ hi => if_pos hi
    obtain ⟨node, hmoved⟩ := moved_self after.upTo after.ties hearly j
    have hle : id ≤ (s.parsed a form).issued := by
      have hzero := hmoved.use_unmoved hid
      by_contra hgt
      rw [if_neg hgt] at hzero
      cases hzero
    rw [hdistances, host_resolution_of_le (s := s.after a form m) hle]
    rfl
  rw [hm, ← hrun] at hcontrol hstack
  obtain ⟨k, v, hk⟩ := Machine.run_then (m := s.idle)
    (Stmt.movedAll (fun _ => linesOf a) ((s.after a form m).parsed b form).program) hcontrol hstack
  have hend : (s.idle.on [.sequence (s.parsed a form).program Store.global]).run
      (s.host (joined a b) form) fuel = m := (hrun fuel).trans hm.symm
  have hstarted : s.started (joined a b) form = s.idle.on [.sequence
      ((s.parsed a form).program ++ Stmt.movedAll (fun _ => linesOf a)
        ((s.after a form m).parsed b form).program) Store.global] := by
    rw [started_eq, hparsed]
  refine ⟨k, fun fuel => ?_⟩
  rw [Machine.run_add, hstarted, hk, hend]
  exact conclude_run_sequence v _ _ fuel

end Session

-- ==== The second phase

/-- The run `whole` does what `first` did and then what `second` did, and ends as that one; a fault is
reported `d` lines further down. -/
structure Run.Continues (d : Int) (first second whole : Run) : Prop where
  outcome : whole.outcome = second.outcome
  printed : whole.printed = first.printed ++ second.printed
  diagnostics : whole.diagnostics = second.diagnostics.map (Diagnostic.moved d)

/-- The two sessions keep the same, but for the lines of code in their frames and for what was
printed. -/
structure Session.Moved (f : Nat → Int) (s s' : Session) : Prop where
  store : s.interpreter.store.Moved f s'.interpreter.store
  distances : ∀ id : Nat, s'.interpreter.host.resolution[id]? = s.interpreter.host.resolution[id]?
  functions : s'.interpreter.host.functions = s.interpreter.host.functions
  sink : s'.interpreter.sink.drained = s.interpreter.sink.drained
  depth : s'.interpreter.depth = s.interpreter.depth
  calls : s'.interpreter.calls = s.interpreter.calls
  issued : s'.issued = s.issued

/-- The node at a token of which the machine has failed, if the fault is at a token. -/
def Machine.offender? (node : Option Nat) (m : Machine) : Option Nat :=
  match m.control with
  | .fail (.raised _ _) => node
  | _ => none

/-- What was printed before stands before. -/
theorem Sink.contents_append (sink : Sink) (before : List Bytes) :
    { sink with taken := sink.taken ++ before }.contents
      = before.reverse.flatten ++ sink.contents := by
  simp only [Sink.contents, List.reverse_append, List.flatten_append]

/-- How the machine ends, seen as the continuation of a run that had printed `before`. Its outcome
is the same, what it printed comes behind, and a fault at a token is reported as many lines further
down as the token has moved. -/
theorem Machine.Moved.continues {before : List Bytes} {node : Option Nat}
    (h : m.Moved f before node m') {first : Run} (hprinted : first.printed = before.reverse.flatten)
    (log log' : List LogRecord) :
    Run.Continues (offset f (m.offender? node)) first
      (Session.concluded (Interpreter.conclude host m).1 m.sink.contents log)
      (Session.concluded (Interpreter.conclude host' m').1 m'.sink.contents log') := by
  obtain ⟨control, stack, store, sink, depth, calls⟩ := m
  obtain ⟨control', stack', store', sink', depth', calls'⟩ := m'
  obtain ⟨hcontrol, hstack, hstore, hsink, hdepth, hcalls⟩ := h
  dsimp only at hcontrol hstack hsink
  have hcontents : sink'.contents = first.printed ++ sink.contents := by
    rw [hsink, Sink.contents_append, hprinted]
  cases hcontrol with
  | eval e env => exact ⟨rfl, hcontents, rfl⟩
  | exec s env => exact ⟨rfl, hcontents, rfl⟩
  | yield moved => cases hstack <;> exact ⟨rfl, hcontents, rfl⟩
  | leave moved => cases hstack <;> exact ⟨rfl, hcontents, rfl⟩
  | fail fault =>
      cases hstack with
      | cons => exact ⟨rfl, hcontents, rfl⟩
      | nil => cases fault <;> exact ⟨rfl, hcontents, rfl⟩

-- ==== Both phases

namespace Session

variable {sink : Sink} {reading : Nat → Float} {vs : List Visit} {s later : Session}
variable {source a b : Bytes} {form : LoopForm} {fuel : Nat} {first : Run} {d : Int}

/-- All nodes of the source's program are moved `d` lines down, and no other nodes. -/
def shift (s : Session) (source : Bytes) (form : LoopForm) (d : Int) (id : Nat) : Int :=
  if id ∈ Stmt.idsAll (s.parsed source form).program then d else 0

/-- Does the run of the source fail, within so many steps, at a token of the source itself? If it does
not, a fault may still be at a token of an earlier source. -/
def failsInside (s : Session) (fuel : Nat) (source : Bytes) (form : LoopForm) : Bool :=
  ((s.started source form).run (s.host source form) fuel).offender?
      ((s.started source form).blamed (s.host source form) fuel)
    |>.any fun id => id ∈ Stmt.idsAll (s.parsed source form).program

theorem offset_shift (node : Option Nat) :
    offset (s.shift source form d) node =
      if node.any fun id => id ∈ Stmt.idsAll (s.parsed source form).program then d else 0 := by
  cases node with
  | none => rfl
  | some id => simp only [offset, shift, Option.any_some, decide_eq_true_eq]

/-- Nodes of earlier sources are not moved. -/
theorem shift_of_le {id : Nat} (hid : id ≤ s.issued) : s.shift source form d id = 0 := by
  refine if_neg fun hmem => ?_
  have habove := (parse_made source s.issued form).within.above id hmem
  omega

/-- All nodes of the source itself are. -/
theorem movedAll_shift :
    Stmt.movedAll (s.shift source form d) (s.parsed source form).program =
      Stmt.movedAll (fun _ => d) (s.parsed source form).program :=
  Stmt.movedAll_congr _ fun _ hi => if_pos hi

/-- The machine on the second source alone, and the one that has run the first before it. -/
theorem started_moved (after : After sink reading vs s) (ha : s.Accepts a form)
    (hm : m = (s.started a form).run (s.host a form) fuel) (hstack : m.stack = []) :
    ((s.after a form m).started b form).Moved ((s.after a form m).shift b form (linesOf a))
      m.sink.taken none (s.resumed a b form m) := by
  have hupTo : (s.after a form m).interpreter.store.UpTo (s.after a form m).issued := by
    have hnext := (After.run after fuel a form).upTo
    rw [(run_accepted ha).2, ← hm] at hnext
    exact hnext
  have hdepth : m.depth = 0 := by
    have hbalanced : (s.started a form).Balanced := rfl
    have hend : ((s.started a form).run (s.host a form) fuel).Balanced := hbalanced.run fuel
    rw [← hm, Machine.Balanced, hstack] at hend
    exact hend
  refine ⟨.yield .nil, .cons ?_ .nil, hupTo _ fun id => shift_of_le, rfl, hdepth, rfl⟩
  rw [← movedAll_shift]
  exact .sequence _ _

/-- What a run leaves to see, by a machine that ends in the same way. -/
theorem run_of_conclude (h : s.Accepts source form)
    (hm : Interpreter.conclude (s.host source form)
        ((s.started source form).run (s.host source form) fuel) =
      Interpreter.conclude (s.host source form) m) :
    (∃ log, (s.run fuel source form).1 =
        concluded (Interpreter.conclude (s.host source form) m).1 m.sink.contents log) ∧
      (s.run fuel source form).2 = s.after source form m := by
  have hkeeps := congrArg Prod.snd hm
  rw [conclude_snd, conclude_snd] at hkeeps
  have hsink : Machine.sink _ = m.sink := congrArg Interpreter.sink hkeeps
  obtain ⟨⟨log, hrun⟩, hsession⟩ := @run_accepted s source form fuel h
  rw [hm, hsink] at hrun
  rw [hkeeps] at hsession
  exact ⟨⟨log, hrun⟩, hsession⟩

/-- From the same session, two sources as one do what they do one after the other: the whole takes the
steps of the first source and then those of the second. -/
theorem run_joined {steps : Nat} (after : After sink reading vs s)
    (hfirst : s.run steps a form = (first, later)) (ha : first.outcome = .completed)
    (hb : later.Accepts b form) :
    s.Accepts (joined a b) form ∧ ∃ k, ∀ fuel,
      Run.Continues (if later.failsInside fuel b form then linesOf a else 0) first
        (later.run fuel b form).1 (s.run (k + fuel) (joined a b) form).1 ∧
      Session.Moved (later.shift b form (linesOf a)) (later.run fuel b form).2
        (s.run (k + fuel) (joined a b) form).2 := by
  have hcompleted : (s.run steps a form).1.outcome = .completed := by
    rw [hfirst]
    exact ha
  obtain ⟨haccepts, w, hcontrol, hstack⟩ := ended_of_completed hcompleted
  obtain ⟨⟨log, hrun⟩, hsession⟩ := @run_accepted s a form steps haccepts
  generalize hm : (s.started a form).run (s.host a form) steps = m at hcontrol hstack hrun hsession
  rw [hfirst] at hrun hsession
  obtain rfl : later = s.after a form m := hsession
  have hprinted : first.printed = m.sink.taken.reverse.flatten := by
    rw [show first = _ from hrun, printed_concluded]
    rfl
  obtain ⟨hjoined, hparsed, hdistances⟩ := accepts_joined after.ties haccepts hm.symm hb
  obtain ⟨k, hk⟩ := conclude_joined after haccepts hm.symm hcontrol hstack hb
  refine ⟨hjoined, k, fun fuel => ?_⟩
  have hhost : ((s.after a form m).host b form).Moved ((s.after a form m).shift b form (linesOf a))
      (s.host (joined a b) form) := .clock after.ties.clock rfl hdistances
  have hmoved := (started_moved (b := b) after haccepts hm.symm hstack).run hhost rfl fuel
  obtain ⟨⟨log', hsecond⟩, hlast⟩ := @run_accepted (s.after a form m) b form fuel hb
  obtain ⟨⟨log'', hwhole⟩, hfinal⟩ := run_of_conclude hjoined (hk fuel)
  constructor
  · rw [hsecond, hwhole, failsInside, ← offset_shift]
    exact hmoved.continues hprinted log' log''
  · have hissued := congrArg Parse.issued hparsed
    have hsink := congrArg Sink.drained hmoved.sink
    rw [hlast, hfinal]
    exact ⟨hmoved.store, hdistances, rfl, hsink, hmoved.depth, hmoved.calls, hissued⟩

/-- The second source calls a function of the first, and then fails on its second line, which is the
fourth of both. -/
theorem run_joined_fails_further_down :
    let s := Session.clocked .unlimited fun _ => 0
    let a := utf8 "fun twice(s) { return s + s; }\nprint twice(\"a\");"
    let b := utf8 "print twice(\"b\");\nprint -twice(\"c\");"
    (s.run 80 a).1.outcome = .completed ∧ (s.run 80 a).2.Accepts b .compact ∧
      ∃ k, (s.run (k + 80) (joined a b)).1.outcome = .failed ∧
        (s.run (k + 80) (joined a b)).1.printed = utf8 "aa\nbb\n" ∧
        (s.run (k + 80) (joined a b)).1.diagnostics =
          [⟨.runtime, 4, [], utf8 "Operand must be a number."⟩] := by
  intro s a b
  have ha : (s.run 80 a).1.outcome = .completed := by decide +kernel
  have hb : (s.run 80 a).2.Accepts b .compact := by decide +kernel
  have hfirst : s.run 80 a = ((s.run 80 a).1, (s.run 80 a).2) := (Prod.eta _).symm
  have hnew : After .unlimited (fun _ => 0) [] s := .new
  obtain ⟨-, k, hk⟩ := run_joined hnew hfirst ha hb
  have hwhole := (hk 80).1
  refine ⟨ha, hb, k, hwhole.outcome.trans ?_, hwhole.printed.trans ?_, hwhole.diagnostics.trans ?_⟩
  · decide +kernel
  · decide +kernel
  · decide +kernel

end Session

end Lox
