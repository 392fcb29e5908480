/-
What can go wrong while an accepted source is run.

# What is shown

A run that fails has failed because of the sink, or at a token of a source that was accepted, this
one or an earlier one, with one of a few causes that are worded alike wherever they come up; and a
return always comes back to a call (`faults_of_accepted`). All other faults, those of a tree or a
machine that is out of order, do not come up.

# Programs that can be run

The sources that a session accepts are read without a fault and have no misuse, so their programs
can be run (`runnable_program`): the tree has the grammar's shape, its tokens are those of the
source, and a return stands in a function. The frames then hold functions of such programs only,
whatever became of the runs that made them (`afterAll_runnable`, by induction over the history).

# Distances

Since frames mirror scopes, a distance always leads to a frame (`Tied.near`). This is the premise
that the lemmas about single steps have, and it is known at each moment since the machine of a
session is tied to a lexical one.

# Returns

Where a return is carried out, a statement is awaited, and between it and the end of its call only
statements wait (`Stack.split_call`); the call is there because the program has returns in functions
only.
-/
import Lox.Proofs.Machine.Blame
import Lox.Proofs.Reader.SpellingStatement
import Lox.Proofs.Session.History

namespace Lox

open Lexical (Scopes)

variable {T : Token → Prop} {host : Host} {reason : Bytes → Prop} {reading : Nat → Float}
variable {vs : List Visit}

-- ==== Constants of scanned tokens

/-- The constants of tokens are those that a tree may have. -/
theorem Segment.constant_tokens (line : Int) (segments : List Segment) :
    ∀ t ∈ Segment.tokens line segments, t.Constant := by
  induction segments generalizing line with
  | nil => exact List.forall_mem_singleton.mpr ⟨.nil, rfl⟩
  | cons s rest ih =>
      cases s with
      | lexeme kind text =>
          refine List.forall_mem_cons.mpr ⟨?_, ih _⟩
          unfold Token.Constant Segment.literalOf
          split
          · exact ⟨.number _, rfl⟩
          · exact ⟨.string _, rfl⟩
          · exact ⟨.nil, rfl⟩
      | _ => exact ih _

/-- So are those of the tokens of a source. -/
theorem constant_scan (source : Bytes) : ∀ t ∈ (scan source).tokens, t.Constant :=
  Segment.constant_tokens 1 (Segment.split source)

-- ==== Machines that are tied

/-- The distance of a name leads to a frame. A use that the machine comes to is tied to the walk,
and `Heap.use` finds its frame, so the name can only be missing there. -/
theorem Tied.near {L : Layout} {m : Machine} {l : Lexical.Machine} (serves : Serves host reading vs)
    (h : Tied vs L m l) : m.Near host where
  read := by
    intro id name env fault hcontrol hread
    have doing := h.doing
    rw [hcontrol] at doing
    generalize l.control = control' at doing
    cases doing with
    | eval exact chain holds seen stack =>
        obtain ⟨ref, hget, -⟩ := h.heap.use serves chain seen rfl
        rw [hget, Store.get] at hread
        split at hread
        next => cases hread
        next => exact (Except.error.inj hread).symm
  assign := by
    intro v id name env stack fault hcontrol hstack hfind
    have doing := h.doing
    rw [hcontrol, hstack] at doing
    generalize l.control = control', l.stack = stack' at doing
    cases doing with
    | yield exact agrees stack =>
        cases stack with
        | assign chain holds seen below =>
            obtain ⟨ref, -, hbound, -⟩ := h.heap.use serves chain seen rfl
            rw [hbound, Store.bound] at hfind
            split at hfind
            next => cases hfind
            next => exact (Except.error.inj hfind).symm

/-- Where a statement is awaited in the course of a call, only statements wait above the call. -/
theorem Stack.split_call {L : Layout} {ρ : FrameRef} {scene : Scene} {K : List Pending}
    {K' : List (Pending Scopes)} (h : Stack vs L .statement ρ scene K K')
    (hcall : Pending.inCall K = true) :
    ∃ work rest, K = work ++ .invoked :: rest ∧ ∀ p ∈ work, p.OfStatement := by
  generalize hawaited : Awaited.statement = awaited at h
  induction h with
  | invoked below => exact ⟨[], _, rfl, List.forall_mem_nil _⟩
  | loopBody chain seenC seenB plain below ih =>
      obtain ⟨work, rest, hK, hwork⟩ := ih hcall rfl
      exact ⟨_ :: work, rest, congrArg _ hK, List.forall_mem_cons.mpr ⟨trivial, hwork⟩⟩
  | sequence chain owns seen younger exact below ih =>
      obtain ⟨work, rest, hK, hwork⟩ := ih hcall rfl
      exact ⟨_ :: work, rest, congrArg _ hK, List.forall_mem_cons.mpr ⟨trivial, hwork⟩⟩
  | program => cases hcall
  | done => cases hcall
  | _ => cases hawaited

/-- A return is carried out where only statements wait, up to the end of its call. -/
theorem Tied.split_return {L : Layout} {m : Machine} {l : Lexical.Machine} (h : Tied vs L m l)
    (runnable : m.Runnable host T reason) {v : Value} (hleave : m.control = .leave v) :
    ∃ work rest, m.stack = work ++ .invoked :: rest ∧ ∀ p ∈ work, p.OfStatement := by
  have hcontrol := runnable.control
  have doing := h.doing
  rw [hleave] at hcontrol doing
  generalize l.control = control' at doing
  cases doing with
  | leave exact agrees stack => exact stack.split_call hcontrol.1

/-- A machine that has only trees that can be run fails in a way that programs can. -/
theorem Machine.Runnable.expected {m : Machine} {fault : Fault} (h : m.Runnable host T reason)
    (hfailed : (Interpreter.conclude host m).1 = .failed fault) : fault.Expected host T reason := by
  obtain ⟨control, stack, store, sink, depth, calls⟩ := m
  obtain ⟨hcontrol, -, -, -⟩ := h
  cases stack with
  | cons p stack => cases control <;> cases hfailed
  | nil =>
      cases control with
      | fail f =>
          obtain rfl := Ending.failed.inj hfailed
          exact hcontrol
      | leave v => exact absurd hcontrol.1 Bool.false_ne_true
      | _ => cases hfailed

-- ==== How a run ended

/-- Why a run failed, if it failed at a token. -/
def Ending.cause? : Ending → Option Cause
  | .failed (.raised _ cause) => some cause
  | _ => none

/-- A run that has a cause has failed with it, at some token. -/
theorem Ending.failed_of_cause? {e : Ending} {cause : Cause} (h : e.cause? = some cause) :
    ∃ token, e = .failed (.raised token cause) := by
  unfold Ending.cause? at h
  split at h
  next token _ =>
    cases h
    exact ⟨token, rfl⟩
  next => cases h

/-- Is a call being left? -/
def Control.leaves : Control → Bool
  | .leave _ => true
  | _ => false

/-- A call that is being left is left with a value. -/
theorem Control.leave_of_leaves {c : Control} (h : c.leaves = true) : ∃ v, c = .leave v := by
  unfold Control.leaves at h
  split at h
  next v => exact ⟨v, rfl⟩
  next => cases h

-- ==== Sessions

namespace Session

variable {sink : Sink} {s : Session} {source : Bytes} {form : LoopForm}

/-- All functions that the session keeps can be called. -/
structure Runnable (T : Token → Prop) (reason : Bytes → Prop) (s : Session) : Prop where
  store : s.interpreter.store.Runnable T
  sink : ∀ text, s.interpreter.sink.Gives text → reason text

/-- A new session keeps no function but the clock. -/
theorem runnable_clocked : (clocked sink reading).Runnable T sink.Gives where
  store := by
    have hinitial : Store.initial.Runnable T := Store.All.initial
    exact hinitial.define trivial
  sink := fun _ h => h

/-- The program of an accepted source can be run. -/
theorem runnable_program (accepts : s.Accepts source form) (hT : ∀ t, T t → t.Constant)
    (htokens : ∀ t ∈ (Lox.scan source).tokens, T t) :
    Stmt.RunnableAll T false (s.parsed source form).program := by
  have hspelled := parse_spells accepts.parse
  have hbody : ∀ t ∈ Token.body (Lox.scan source).tokens, T t :=
    fun t ht => htokens t ((List.takeWhile_sublist _).subset ht)
  exact Stmt.runnableAll_of_resolve hT hspelled.canonical (hspelled.holds T hbody) accepts.resolve

/-- The clock answers with a number. -/
theorem Ties.answers (h : s.Ties reading vs) : (s.host source form).Answers T := by
  intro calls f args v hcall
  have hclock : (s.host source form).functions = #[fun calls _ => .ok (.number (reading calls))] :=
    h.clock
  rw [Host.call_clock hclock] at hcall
  obtain rfl := Except.ok.inj hcall
  split <;> trivial

/-- At all moments of a run the machine has only trees that can be run. -/
theorem Ties.runnable (h : s.Ties reading vs) (accepts : s.Accepts source form)
    (kept : s.Runnable T reason) (hT : ∀ t, T t → t.Constant)
    (htokens : ∀ t ∈ (Lox.scan source).tokens, T t) (fuel : Nat) :
    Machine.Runnable (s.host source form) T reason
      ((s.started source form).run (s.host source form) fuel) := by
  have serves := (h.serves accepts).2
  refine (Machine.run_invariant (P := fun m => (∃ L l, Tied (vs ++ s.visited source form) L m l) ∧
    m.Runnable (s.host source form) T reason) ?_ ⟨h.run accepts 0, ?_⟩ fuel).2
  · rintro m ⟨⟨L, l, tied⟩, runnable⟩
    obtain ⟨L', tied'⟩ := tied.step serves
    exact ⟨⟨L', _, tied'⟩, runnable.step h.answers (tied.near serves)⟩
  · exact ⟨trivial, ⟨runnable_program accepts hT htokens, trivial⟩, kept.store, kept.sink⟩

/-- After a run the session keeps functions that can be called. -/
theorem run_runnable (after : After sink reading vs s) (kept : s.Runnable T reason)
    (hT : ∀ t, T t → t.Constant) (fuel : Nat)
    (htokens : s.Accepts source form → ∀ t ∈ (Lox.scan source).tokens, T t) :
    (s.run fuel source form).2.Runnable T reason := by
  by_cases accepts : s.Accepts source form
  · have runnable := after.ties.runnable accepts kept hT (htokens accepts) fuel
    rw [(run_accepted accepts).2]
    exact ⟨runnable.store, runnable.sink⟩
  · rw [(run_rejected accepts).2]
    exact ⟨kept.store, kept.sink⟩

/-- So it does after a history. -/
theorem afterAll_runnable (after : After sink reading vs s) (kept : s.Runnable T reason)
    (hT : ∀ t, T t → t.Constant) (history : List Request)
    (htokens : ∀ source ∈ s.accepted history, ∀ t ∈ (Lox.scan source).tokens, T t) :
    (s.afterAll history).Runnable T reason := by
  induction history generalizing vs s with
  | nil => exact kept
  | cons r rest ih =>
      have hfirst : s.Accepts r.source r.form → ∀ t ∈ (Lox.scan r.source).tokens, T t :=
        fun accepts => htokens r.source (List.mem_append_left _ (by simp [accepts]))
      exact ih (after.run r.fuel r.source r.form) (run_runnable after kept hT r.fuel hfirst)
        fun source hs => htokens source (List.mem_append_right _ hs)

/-- Whatever a session has run before, an accepted source fails with nothing but a refusal of the
sink or a fault that is raised at a token of an accepted source, this one or an earlier one, and
that is worded in one of a few ways. A return that is carried out leaves only statements of the call
that it belongs to, and comes back as the value of that call. -/
theorem faults_of_accepted (sink : Sink) (reading : Nat → Float) (history : List Request)
    (source : Bytes) (form : LoopForm) (fuel : Nat)
    (accepts : ((clocked sink reading).afterAll history).Accepts source form) :
    let s := (clocked sink reading).afterAll history
    let sources := (clocked sink reading).accepted history ++ [source]
    let ending := ((s.prepared source form).interpret fuel (s.parsed source form).program).1
    let m := (s.started source form).run (s.host source form) fuel
    (∀ fault, ending = .failed fault →
      fault.Expected (s.host source form) (fun t => ∃ a ∈ sources, t ∈ (Lox.scan a).tokens)
          sink.Gives ∧
        (s.run fuel source form).1.diagnostics = [fault.diagnostic]) ∧
      ((s.run fuel source form).1.outcome = .failed → ∃ fault, ending = .failed fault) ∧
      ∀ v, m.control = .leave v → ∃ work rest, m.stack = work ++ .invoked :: rest ∧
        (∀ p ∈ work, p.OfStatement) ∧
        m.run (s.host source form) (work.length + 1) =
          { m with control := .yield v, stack := rest, depth := m.depth - 1 } := by
  intro s sources ending m
  obtain ⟨vs, after⟩ := (After.new : After sink reading [] _).all history
  have hT : ∀ t, (∃ a ∈ sources, t ∈ (Lox.scan a).tokens) → t.Constant :=
    fun t ⟨a, _, ht⟩ => constant_scan a t ht
  have kept := afterAll_runnable .new runnable_clocked hT history
    fun a ha t ht => ⟨a, List.mem_append_left _ ha, ht⟩
  have runnable := after.ties.runnable accepts kept hT
    (fun t ht => ⟨source, List.mem_append_right _ (List.mem_singleton_self _), ht⟩) fuel
  obtain ⟨log, hrun⟩ : ∃ log, (s.run fuel source form).1 = concluded ending m.sink.contents log :=
    (run_accepted accepts).1
  rw [hrun]
  refine ⟨fun fault hfailed => ⟨runnable.expected hfailed, ?_⟩, fun houtcome => ?_,
    fun v hleave => ?_⟩
  · rw [hfailed]
    rfl
  · cases hending : ending with
    | failed fault => exact ⟨fault, rfl⟩
    | _ =>
        rw [hending] at houtcome
        cases houtcome
  · obtain ⟨L, l, tied⟩ := after.ties.run accepts fuel
    obtain ⟨work, rest, hstack, hwork⟩ := tied.split_return runnable hleave
    exact ⟨work, rest, hstack, hwork, Machine.run_leave hleave hstack hwork⟩

/-- A function of an earlier source is called twice. First it returns out of a loop, and then it
fails, at a token of the earlier source. -/
theorem faults_of_accepted_in_earlier_function :
    let earlier := utf8 "fun f(x) { while (true) { if (x) return x; -x; } }"
    let source := utf8 "f(true); f(nil);"
    let s := (clocked .unlimited fun _ => 0).afterAll [⟨100, earlier, .compact⟩]
    let ending := ((s.prepared source .compact).interpret 60 (s.parsed source .compact).program).1
    let m := (s.started source .compact).run (s.host source .compact) 19
    s.Accepts source .compact ∧
      (∃ token, ending = .failed (.raised token .operandNotNumber) ∧
        ∃ a ∈ [earlier, source], token ∈ (Lox.scan a).tokens) ∧
      ∃ v work rest, m.control = .leave v ∧ m.stack = work ++ .invoked :: rest ∧
        ∀ p ∈ work, p.OfStatement := by
  intro earlier source s ending m
  have accepts : s.Accepts source .compact := by decide +kernel
  have hsources : (clocked .unlimited fun _ => 0).accepted [⟨100, earlier, .compact⟩] ++ [source] =
      [earlier, source] := by decide +kernel
  have hcause : ending.cause? = some .operandNotNumber := by decide +kernel
  have hleaves : m.control.leaves = true := by decide +kernel
  refine ⟨accepts, ?_, ?_⟩
  · obtain ⟨token, hending⟩ := Ending.failed_of_cause? hcause
    obtain ⟨⟨htoken, -⟩, -⟩ :=
      (faults_of_accepted .unlimited (fun _ => 0) _ source .compact 60 accepts).1 _ hending
    exact ⟨token, hending, hsources ▸ htoken⟩
  · obtain ⟨v, hleave⟩ := Control.leave_of_leaves hleaves
    obtain ⟨work, rest, hstack, hwork, -⟩ :=
      (faults_of_accepted .unlimited (fun _ => 0) _ source .compact 19 accepts).2.2 v hleave
    exact ⟨v, work, rest, hleave, hstack, hwork⟩

end Session

end Lox
