/-
Running a program by distances is running it by lexical scoping.

A program that was read, resolved and then run does, step for step, what the lexical machine does
with it: it prints the same and ends in the same way (`interpret_eq_lexical`). Nothing is asked of
the program: one with misuses or faults of its tree would not be run by a session, but the two
machines go the same way with it.

The two machines are tied when they start (`Tied.start`): the memories of a new interpreter have
just the clock (`Heap.initial`), the walk has been over the whole program, and what is known to be
global is so. Each step keeps them tied (`Tied.step`), and so does a run, by induction on the number
of steps (`Tied.run`). What can be seen of how a machine ended is read off what it is left with to
do (`Control.close`), and tied machines are left with the same (`Doing.close`).
-/
import Lox.Proofs.Frames.Step
import Lox.Interpreter

namespace Lox

open Lexical (CellRef Scopes Cells)

-- ==== How a run ends

/-- What can be seen of how a run ended. -/
inductive Close where
  | finished
  | failed (f : Fault)
  | unfinished

/-- How a machine has ended that is left with this to do. -/
def Control.close {Env : Type} : Control Env → List (Pending Env) → Close
  | .yield _, [] => .finished
  | .fail f, [] => .failed f
  | .leave _, [] => .failed .strayReturn
  | _, _ => .unfinished

/-- What can be seen of an ending. The value that a program comes to is not shown. -/
def Ending.close : Ending → Close
  | .finished _ => .finished
  | .failed f => .failed f
  | .unfinished => .unfinished

/-- How a run ended is how its machine is left. -/
theorem conclude_close (host : Host) (m : Machine) :
    (Interpreter.conclude host m).1.close = m.control.close m.stack := by
  obtain ⟨control, stack, store, sink, depth, calls⟩ := m
  cases control <;> cases stack <;> rfl

/-- What was printed is in the sink of the machine. -/
theorem conclude_sink (host : Host) (m : Machine) :
    (Interpreter.conclude host m).2.sink = m.sink := by
  obtain ⟨control, stack, store, sink, depth, calls⟩ := m
  cases control <;> cases stack <;> rfl

/-- Has the run ended? -/
def Close.isOver : Close → Bool
  | unfinished => false
  | _ => true

/-- A machine is done exactly if it has ended in some way. -/
theorem Machine.isDone_eq (m : Machine) : m.isDone = (m.control.close m.stack).isOver := by
  obtain ⟨control, stack, store, sink, depth, calls⟩ := m
  cases control <;> cases stack <;> rfl

/-- So is the lexical machine. -/
theorem Lexical.Machine.isDone_eq (l : Lexical.Machine) :
    l.isDone = (l.control.close l.stack).isOver := by
  obtain ⟨control, stack, memory, sink, depth, calls⟩ := l
  cases control <;> cases stack <;> rfl

-- ==== Runs

section

variable {vs : List Visit} {L : Layout} {m : Machine} {l : Lexical.Machine}
variable {host : Host} {reading : Nat → Float}

/-- Machines that are tied have ended in the same way, or both have not. -/
theorem Doing.close {c : Control} {c' : Control Scopes} {K : List Pending}
    {K' : List (Pending Scopes)} (h : Doing vs L c c' K K') : c.close K = c'.close K' := by
  cases h with
  | eval => rfl
  | exec => rfl
  | yield _ _ stack => cases stack <;> rfl
  | leave _ _ stack => cases stack <;> rfl
  | fail _ stack => cases stack <;> rfl

/-- Any number of steps keep two machines tied. -/
theorem Tied.run (hs : Serves host reading vs) (fuel : Nat) (h : Tied vs L m l) :
    ∃ L', Tied vs L' (m.run host fuel) (l.run reading fuel) := by
  induction fuel generalizing L m l with
  | zero => exact ⟨L, h⟩
  | succ fuel ih =>
      have hdone : l.isDone = m.isDone := by
        rw [m.isDone_eq, l.isDone_eq, h.doing.close]
      unfold Machine.run Lexical.Machine.run
      rw [hdone]
      split
      · exact ⟨L, h⟩
      · obtain ⟨L', h'⟩ := h.step hs
        exact ih h'

/-- Both machines at the start of a program. -/
theorem Tied.start {store : Store} {mem : Cells} {known : Bytes → Bool} {program : Program}
    (heap : Heap vs L store mem) (hknown : ∀ x, known x = true → L.bound Store.global x)
    (seen : SeenBody vs ⟨known, [], []⟩ program) (sink : Sink) (calls : Nat) :
    Tied vs L ⟨.yield .nil, [.sequence program Store.global], store, sink, 0, calls⟩
      ⟨.yield .nil, [.sequence program []], mem, sink, 0, calls⟩ := by
  refine ⟨heap, .yield ⟨⟨.top, ?_, ?_, hknown⟩, ?_, ?_⟩ .nil (.program rfl seen), rfl, rfl, rfl⟩
  · intro scope hscope
    simp at hscope
  · intro x hx
    simp at hx
  · intro hne
    exact absurd rfl hne
  · intro scope outer hs
    simp at hs

/-- The memories before the first program: one frame with the clock in it, and no cells. It is an
empty memory with one global written to it. -/
theorem Heap.initial (vs : List Visit) :
    ∃ L, Heap vs L (Store.initial.define Store.global (utf8 "clock") (.native ⟨0, 0⟩))
      ⟨#[], [(utf8 "clock", .native ⟨0, 0⟩)], 0⟩ := by
  have hlookup : ∀ ρ x, Store.initial.lookup? ρ x = none := by
    intro ρ x
    unfold Store.lookup? Store.initial
    cases ρ <;> simp
  have hparent : ∀ ρ, Store.initial.parent? ρ = none := by
    intro ρ
    unfold Store.parent? Store.initial
    cases ρ <;> simp
  have bare : Heap vs ⟨fun _ => none, fun _ _ => False, fun _ _ => none⟩ Store.initial ⟨#[], [], 0⟩ := by
    refine ⟨hparent, fun ρ x => ?_, rfl, Nat.one_pos, fun _ _ _ hb => hb.elim, ?_, ?_, fun x => ?_,
      rfl⟩
    · simp [hlookup]
    · intro ρ x c hc
      simp at hc
    · intro ρ x ρ' x' c hc
      simp at hc
    · rw [hlookup]
      exact .none
  exact ⟨_, bare.writeGlobal (utf8 "clock") (.native ⟨0, 0⟩)⟩

end

/-- Reading a source, resolving it and running it in a new interpreter prints what lexical scoping
says and ends as lexical scoping says: it comes to its end, or fails with the same fault at the same
token, or has not ended yet, after any number of steps. -/
theorem interpret_eq_lexical (sink : Sink) (reading : Nat → Float) (source : Bytes) (issued : Nat)
    (form : LoopForm) (fuel : Nat) :
    let program := (parse (scan source).tokens issued form).program
    let fresh := Interpreter.clocked sink reading
    let ran := (fresh.addResolution (resolve fresh.knows program).resolution).interpret fuel program
    let meant := (Lexical.Machine.start sink program).run reading fuel
    ran.1.close = meant.control.close meant.stack ∧ ran.2.sink = meant.sink := by
  intro program fresh ran meant
  have made := parse_made source issued form
  have located := Located.ofProgram fresh.knows made
  have serves : Serves (fresh.addResolution (resolve fresh.knows program).resolution).host reading
      (Walk.visits fresh.knows program) := by
    exact ⟨⟨issued, _, Located.empty.append located (Nat.le_refl issued) made.issued_le⟩, rfl⟩
  obtain ⟨L, heap⟩ := Heap.initial (Walk.visits fresh.knows program)
  have start := Tied.start heap (fun x hx => (heap.bound _ x).mp hx)
    (seenBody_program made.formed) sink 0
  obtain ⟨L', tied⟩ := start.run serves fuel
  refine ⟨?_, ?_⟩
  · show (Interpreter.conclude _ _).1.close = _
    rw [conclude_close]
    exact tied.doing.close
  · show (Interpreter.conclude _ _).2.sink = _
    rw [conclude_sink]
    exact tied.sink

end Lox
