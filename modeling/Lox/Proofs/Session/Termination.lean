/-
Programs without loops come to an end.

# What is shown

A session that has only run programs without loops binds no function with a loop, whatever became of
the runs (`afterAll_loopFree`). So the machine that is started on another such program has no loop
anywhere, and comes to an end (`LoopFree.enough`, from `Machine.LoopFree.ends`). From some number of
steps on, the bound on them does not matter then (`ends_without_loops`). That functions may call
each other or themselves without an end does not matter, since the depth of calls is limited.

# The host

Programs call functions of the host too, and these may answer with functions. It is asked of them
that they answer with no function that has a loop unless they were given one
(`HostBinding.LoopFree`); a host with any number of such functions brings in no loop
(`LoopFree.offers`, by induction over them). The clock is one of these.
-/
import Lox.Proofs.Machine.Termination
import Lox.Proofs.Session.History

namespace Lox

-- ==== The host

/-- A function of the host and the global name that it is bound to. -/
structure HostBinding where
  name : Bytes
  arity : Int
  function : Nat → HostFunction

/-- The function answers with no function that has a loop, unless it was given one. -/
def HostBinding.LoopFree (b : HostBinding) : Prop :=
  ∀ calls args v, (∀ a ∈ args, a.LoopFree) → b.function calls args = .ok v → v.LoopFree

/-- The interpreter, with one more function of the host. -/
def Interpreter.offer (i : Interpreter) (b : HostBinding) : Interpreter :=
  i.defineTimed b.name b.arity b.function

namespace Interpreter

variable {i : Interpreter}

/-- Neither the frames nor the host's functions bring in a loop. -/
structure LoopFree (i : Interpreter) : Prop where
  store : i.store.All Value.LoopFree
  host : i.host.LoopFree

/-- One more function of the host that brings in no loop. -/
theorem LoopFree.offer {b : HostBinding} (h : i.LoopFree) (hb : b.LoopFree) :
    (i.offer b).LoopFree where
  store := h.store.define trivial
  host := by
    intro calls f args v hargs hcall
    have hold := h.host calls f args v hargs
    unfold Host.call at hold
    simp only [Interpreter.offer, defineTimed, define, Host.call, Array.getElem?_push] at hcall
    by_cases hnew : f.ident = i.host.functions.size
    · rw [if_pos hnew] at hcall
      exact hb calls args v hargs hcall
    · rw [if_neg hnew] at hcall
      exact hold hcall

/-- Any number of them. -/
theorem LoopFree.offers (h : i.LoopFree) {bindings : List HostBinding}
    (hbindings : ∀ b ∈ bindings, b.LoopFree) : (bindings.foldl Interpreter.offer i).LoopFree := by
  induction bindings generalizing i with
  | nil => exact h
  | cons b rest ih =>
      obtain ⟨hb, hrest⟩ := List.forall_mem_cons.mp hbindings
      exact ih (h.offer hb) hrest

/-- A new session has the clock. -/
theorem loopFree_clocked (sink : Sink) (reading : Nat → Float) :
    (clocked sink reading).LoopFree := by
  have hbare : (bare sink).LoopFree :=
    ⟨.initial, fun _ _ _ _ _ hcall => Except.ok.inj hcall ▸ trivial⟩
  refine hbare.offer (b := ⟨_, _, _⟩) fun calls args v _ hcall => ?_
  exact Except.ok.inj hcall ▸ trivial

/-- Distances bring in no loop. -/
theorem LoopFree.addResolution (h : i.LoopFree) (r : Resolution) : (i.addResolution r).LoopFree :=
  ⟨h.store, h.host⟩

/-- The machine that is started on a program. -/
theorem LoopFree.start (h : i.LoopFree) {program : Program} (hp : Stmt.anyLoop program = false) :
    (i.start program).LoopFree :=
  ⟨trivial, List.forall_mem_singleton.mpr hp, h.store⟩

/-- A machine that is done has come to a result or to a fault. -/
theorem conclude_of_isDone (host : Host) {m : Machine} (h : m.isDone = true) :
    (∃ v, (conclude host m).1 = .finished v) ∨ ∃ f, (conclude host m).1 = .failed f := by
  obtain ⟨control, stack, store, sink, depth, calls⟩ := m
  obtain rfl : stack = [] := Machine.stack_of_isDone h
  cases control with
  | eval e env => cases h
  | exec s env => cases h
  | yield v => exact .inl ⟨v, rfl⟩
  | leave v => exact .inr ⟨.strayReturn, rfl⟩
  | fail f => exact .inr ⟨f, rfl⟩

/-- There is a number of steps that is enough for the program. -/
theorem LoopFree.enough (h : i.LoopFree) {program : Program} (hp : Stmt.anyLoop program = false) :
    ∃ enough, ((i.start program).run i.host enough).isDone = true ∧
      ∀ fuel, enough ≤ fuel →
        (i.start program).run i.host fuel = (i.start program).run i.host enough := by
  obtain ⟨enough, hdone, -⟩ := Machine.LoopFree.ends h.host _ (h.start hp) rfl
  refine ⟨enough, hdone, fun fuel hle => ?_⟩
  obtain ⟨more, rfl⟩ := Nat.exists_eq_add_of_le hle
  rw [Machine.run_add, Machine.run_of_isDone hdone]

end Interpreter

-- ==== Sessions

namespace Session

variable {s : Session}

/-- The session, with more functions of the host. -/
def offering (s : Session) (bindings : List HostBinding) : Session :=
  { s with interpreter := bindings.foldl Interpreter.offer s.interpreter }

/-- The programs of a history that are run, in order. -/
def ran (s : Session) : List Request → List Program
  | [] => []
  | r :: rest =>
    (if s.Accepts r.source r.form then [(s.parsed r.source r.form).program] else []) ++
      (s.serve r).2.ran rest

/-- A run of a program without loops leaves none behind. -/
theorem serve_loopFree (h : s.interpreter.LoopFree) (r : Request)
    (hr : s.Accepts r.source r.form → Stmt.anyLoop (s.parsed r.source r.form).program = false) :
    (s.serve r).2.interpreter.LoopFree := by
  unfold serve
  by_cases accepts : s.Accepts r.source r.form
  · have hprepared : (s.prepared r.source r.form).LoopFree := ⟨h.store, h.host⟩
    have hstart := hprepared.start (hr accepts)
    rw [(run_accepted accepts).2]
    exact ⟨(hstart.run hprepared.host r.fuel).store, hprepared.host⟩
  · rw [(run_rejected accepts).2]
    exact h

/-- A session that has run only programs without loops binds no function that has one. -/
theorem afterAll_loopFree (h : s.interpreter.LoopFree) (history : List Request)
    (hran : ∀ program ∈ s.ran history, Stmt.anyLoop program = false) :
    (s.afterAll history).interpreter.LoopFree := by
  induction history generalizing s with
  | nil => exact h
  | cons r rest ih =>
      refine ih (serve_loopFree h r fun accepts => hran _ (List.mem_append_left _ ?_))
        fun program hp => hran program (List.mem_append_right _ hp)
      rw [if_pos accepts]
      exact List.mem_singleton_self _

/-- A run depends on the bound on its steps only through the machine that it comes to. -/
theorem run_of_machine {source : Bytes} {form : LoopForm} {fuel enough : Nat}
    (h : (s.started source form).run (s.host source form) fuel =
      (s.started source form).run (s.host source form) enough) :
    s.run fuel source form = s.run enough source form := by
  rw [run_eq, run_eq, h]

/-- A run whose machine is done is not unfinished. -/
theorem outcome_of_isDone {source : Bytes} {form : LoopForm} {fuel : Nat}
    (hdone : ((s.started source form).run (s.host source form) fuel).isDone = true) :
    (s.run fuel source form).1.outcome ≠ .unfinished := by
  by_cases accepts : s.Accepts source form
  · obtain ⟨log, hrun⟩ := (run_accepted accepts).1
    rw [hrun]
    rcases Interpreter.conclude_of_isDone (s.host source form) hdone with ⟨v, hv⟩ | ⟨f, hf⟩
    · rw [hv]
      exact Outcome.noConfusion
    · rw [hf]
      exact Outcome.noConfusion
  · rw [(run_rejected accepts).1]
    exact Outcome.noConfusion

/-- Programs without loops come to an end. Take a session whose host functions bring in no loop, and
that has run only programs without loops, whatever became of them. Another such program ends in it
with a result or with a fault, and from some number of steps on the bound on them does not matter;
and so it is with each source that is read as such a program. -/
theorem ends_without_loops (sink : Sink) (reading : Nat → Float) (bindings : List HostBinding)
    (hbindings : ∀ b ∈ bindings, b.LoopFree) (history : List Request)
    (hran : ∀ program ∈ ((clocked sink reading).offering bindings).ran history,
      Stmt.anyLoop program = false) :
    let s := ((clocked sink reading).offering bindings).afterAll history
    (∀ (program : Program) (locals : Resolution), Stmt.anyLoop program = false →
      let i := s.interpreter.addResolution locals
      ∃ enough, ((∃ v, (i.interpret enough program).1 = .finished v) ∨
          ∃ f, (i.interpret enough program).1 = .failed f) ∧
        ∀ fuel, enough ≤ fuel → i.interpret fuel program = i.interpret enough program) ∧
    ∀ (source : Bytes) (form : LoopForm), Stmt.anyLoop (s.parsed source form).program = false →
      ∃ enough, (s.run enough source form).1.outcome ≠ .unfinished ∧
        ∀ fuel, enough ≤ fuel → s.run fuel source form = s.run enough source form := by
  intro s
  have hs : s.interpreter.LoopFree :=
    afterAll_loopFree ((Interpreter.loopFree_clocked sink reading).offers hbindings) history hran
  refine ⟨fun program locals hprogram => ?_, fun source form hsource => ?_⟩
  · obtain ⟨enough, hdone, hsame⟩ := (hs.addResolution locals).enough hprogram
    refine ⟨enough, Interpreter.conclude_of_isDone _ hdone, fun fuel hle => ?_⟩
    exact congrArg (Interpreter.conclude _) (hsame fuel hle)
  · have hprepared : (s.prepared source form).LoopFree := ⟨hs.store, hs.host⟩
    obtain ⟨enough, hdone, hsame⟩ := hprepared.enough hsource
    exact ⟨enough, outcome_of_isDone hdone, fun fuel hle => run_of_machine (hsame fuel hle)⟩

/-- Two functions that call each other without an end, through a function of the host: there is an
end to it. -/
theorem ends_without_loops_in_mutual_calls :
    let same : HostBinding := ⟨utf8 "same", 1, fun _ args => .ok (args.headD .nil)⟩
    let history : List Request :=
      [⟨100, utf8 "fun f(x) { return same(g)(x); } fun g(x) { return f(x); }", .compact⟩]
    let source := utf8 "print f(nil);"
    same.LoopFree ∧
      (∀ program ∈ ((clocked .unlimited fun _ => 0).offering [same]).ran history,
        Stmt.anyLoop program = false) ∧
      (((clocked .unlimited fun _ => 0).offering [same]).afterAll history).Accepts source .compact ∧
      ∃ enough, ((((clocked .unlimited fun _ => 0).offering [same]).afterAll history).run enough
        source .compact).1.outcome ≠ .unfinished := by
  intro same history source
  have hsame : same.LoopFree := by
    intro calls args v hargs hv
    obtain rfl : args.headD .nil = v := Except.ok.inj hv
    cases args with
    | nil => trivial
    | cons a rest => exact hargs a List.mem_cons_self
  have hran : ∀ program ∈ ((clocked .unlimited fun _ => 0).offering [same]).ran history,
      Stmt.anyLoop program = false := by
    decide +kernel
  have hsource : Stmt.anyLoop ((((clocked .unlimited fun _ => 0).offering [same]).afterAll
      history).parsed source .compact).program = false := by
    decide +kernel
  refine ⟨hsame, hran, by decide +kernel, ?_⟩
  obtain ⟨-, hends⟩ := ends_without_loops .unlimited (fun _ => 0) [same]
    (List.forall_mem_singleton.mpr hsame) history hran
  obtain ⟨enough, hended, -⟩ := hends source .compact hsource
  exact ⟨enough, hended⟩

end Session

end Lox
