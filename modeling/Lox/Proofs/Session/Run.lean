/-
What the run of a source comes to.

A source is accepted if it has no static diagnostic (`Accepts`). Then a machine is started on its
program, and the session keeps what that machine leaves (`run_accepted`). Otherwise the session only
takes the identities that were given to the tree (`run_rejected`).

The parts of a run are named here, as functions of the session and the source: the tree that is read
(`parsed`), the distances and misuses in it (`resolved`), what the program runs with (`host`) and
the machine at its start (`started`). Later modules speak of these and never open `Session.run`. The
log is left open: what is written there depends on times and sizes, and nothing is said about it.
-/
import Lox.Session

namespace Lox

/-- The reporter is told what the run keeps, in the same order. -/
theorem Run.foldl_report (r : Run) (ds : List Diagnostic) :
    ds.foldl Run.report r =
      { r with diagnostics := r.diagnostics ++ ds, reported := r.reported ++ ds } := by
  induction ds generalizing r with
  | nil => simp only [List.foldl_nil, List.append_nil]
  | cons d ds ih =>
      simp only [List.foldl_cons, ih, Run.report, List.append_assoc, List.singleton_append]

/-- Where a clock is the one function of the host, a call of any other one has no answer. -/
theorem Host.call_clock {host : Host} {reading : Nat → Float}
    (h : host.functions = #[fun calls _ => .ok (.number (reading calls))]) (calls : Nat) (f : Native)
    (args : List Value) :
    host.call calls f args = .ok (if f.ident = 0 then .number (reading calls) else .void) := by
  unfold call
  rw [h]
  cases f.ident with
  | zero => rfl
  | succ n => rfl

namespace Session

variable {s : Session} {source : Bytes} {form : LoopForm} {fuel : Nat}

/-- The tree that a source is read as. -/
def parsed (s : Session) (source : Bytes) (form : LoopForm) : Parse :=
  parse (scan source).tokens s.issued form

/-- The distances and the misuses in a source. -/
def resolved (s : Session) (source : Bytes) (form : LoopForm) : Resolved :=
  resolve s.interpreter.knows (s.parsed source form).program

/-- The source has no static diagnostic. -/
structure Accepts (s : Session) (source : Bytes) (form : LoopForm) : Prop where
  scan : (scan source).diagnostics = []
  parse : (s.parsed source form).diagnostics = []
  resolve : (s.resolved source form).diagnostics = []

instance : Decidable (s.Accepts source form) :=
  decidable_of_iff
    ((Lox.scan source).diagnostics = [] ∧ (s.parsed source form).diagnostics = [] ∧
      (s.resolved source form).diagnostics = [])
    ⟨fun ⟨h₁, h₂, h₃⟩ => ⟨h₁, h₂, h₃⟩, fun ⟨h₁, h₂, h₃⟩ => ⟨h₁, h₂, h₃⟩⟩

/-- The interpreter as it is when the program starts. -/
def prepared (s : Session) (source : Bytes) (form : LoopForm) : Interpreter :=
  let i := s.interpreter.addResolution (s.resolved source form).resolution
  { i with sink := i.sink.drained }

/-- What the program runs with. -/
def host (s : Session) (source : Bytes) (form : LoopForm) : Host := (s.prepared source form).host

/-- The machine at the start of the program. -/
def started (s : Session) (source : Bytes) (form : LoopForm) : Machine :=
  ⟨.yield .nil, [.sequence (s.parsed source form).program Store.global], s.interpreter.store,
    s.interpreter.sink.drained, 0, s.interpreter.calls⟩

/-- What a machine leaves behind. -/
def keeps (host : Host) (m : Machine) : Interpreter := ⟨host, m.store, m.sink, m.depth, m.calls⟩

/-- What an interpreter is left with is what its machine leaves. -/
theorem conclude_snd (host : Host) (m : Machine) :
    (Interpreter.conclude host m).2 = keeps host m := by
  obtain ⟨control, stack, store, sink, depth, calls⟩ := m
  cases control <;> cases stack <;> rfl

/-- What reading a source comes to, step by step. -/
theorem prepare_eq (s : Session) (source : Bytes) (form : LoopForm) :
    let parsed := s.parsed source form
    let resolved := s.resolved source form
    let found := (Lox.scan source).diagnostics ++ parsed.diagnostics
    let log := [parseRecord (Lox.scan source).tokens.length parsed.program.length found.length]
    let log' := log ++ [resolveRecord resolved.resolution.size resolved.diagnostics.length]
    s.prepare source form =
      if !found.isEmpty then (.error (reject found log), { s with issued := parsed.issued })
      else if !resolved.diagnostics.isEmpty then
        (.error (reject resolved.diagnostics log'), { s with issued := parsed.issued })
      else
        (.ok ⟨parsed.program, s.prepared source form, log'⟩,
          { s with issued := parsed.issued }) := rfl

/-- What a run of a source comes to, step by step: it is rejected for what scanning and parsing
found, or for misuses, or it is run. All that is said of runs goes back to this. -/
theorem run_eq (s : Session) (fuel : Nat) (source : Bytes) (form : LoopForm) :
    let parsed := s.parsed source form
    let resolved := s.resolved source form
    let found := (Lox.scan source).diagnostics ++ parsed.diagnostics
    let log := [parseRecord (Lox.scan source).tokens.length parsed.program.length found.length]
    let log' := log ++ [resolveRecord resolved.resolution.size resolved.diagnostics.length]
    let m := (s.started source form).run (s.host source form) fuel
    s.run fuel source form =
      if !found.isEmpty then (reject found log, { s with issued := parsed.issued })
      else if !resolved.diagnostics.isEmpty then
        (reject resolved.diagnostics log', { s with issued := parsed.issued })
      else
        (concluded (Interpreter.conclude (s.host source form) m).1 m.sink.contents log',
          ⟨keeps (s.host source form) m, parsed.issued⟩) := by
  intro parsed resolved found log log' m
  unfold run
  rw [prepare_eq]
  by_cases hfound : (!found.isEmpty) = true
  · rw [if_pos hfound, if_pos hfound]
  · rw [if_neg hfound, if_neg hfound]
    by_cases hresolved : (!resolved.diagnostics.isEmpty) = true
    · rw [if_pos hresolved, if_pos hresolved]
    · rw [if_neg hresolved, if_neg hresolved]
      simp only [Interpreter.interpret, conclude_snd]
      rfl

/-- A run has printed what its machine has. -/
theorem printed_concluded (ending : Ending) (printed : Bytes) (log : List LogRecord) :
    (concluded ending printed log).printed = printed := by
  cases ending <;> rfl

/-- A source that is accepted is run, and the session keeps what the machine leaves. -/
theorem run_accepted (h : s.Accepts source form) :
    (∃ log, (s.run fuel source form).1 =
      concluded
        (Interpreter.conclude (s.host source form)
          ((s.started source form).run (s.host source form) fuel)).1
        ((s.started source form).run (s.host source form) fuel).sink.contents log) ∧
      (s.run fuel source form).2 =
        ⟨keeps (s.host source form) ((s.started source form).run (s.host source form) fuel),
          (s.parsed source form).issued⟩ := by
  rw [run_eq]
  simp only [h.scan, h.parse, h.resolve, List.append_nil, List.isEmpty_nil, Bool.not_true,
    Bool.false_eq_true, if_false]
  exact ⟨⟨_, rfl⟩, trivial⟩

/-- A source that is not accepted is rejected, and takes identities. -/
theorem run_rejected (h : ¬s.Accepts source form) :
    (s.run fuel source form).1.outcome = .rejected ∧
      (s.run fuel source form).2 = { s with issued := (s.parsed source form).issued } := by
  rw [run_eq]
  split
  · simp only [reject, Run.foldl_report, Run.silent, and_self]
  next hfound =>
    split
    · simp only [reject, Run.foldl_report, Run.silent, and_self]
    next hresolved =>
      refine absurd ?_ h
      simp only [Bool.not_eq_true, Bool.not_eq_false', List.isEmpty_iff,
        List.append_eq_nil_iff] at hfound hresolved
      exact ⟨hfound.1, hfound.2, hresolved⟩

end Session

end Lox
