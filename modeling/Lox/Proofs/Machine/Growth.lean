/-
Where names come to be bound.

# Frames grow

A frame is never dropped, keeps its parent, and keeps the names that it binds (`Store.Grown`). It
comes to bind another name only where a declaration is carried out in it, or where it is new: an
assignment is made in a frame that binds the name (`Machine.bound_of_findName`).

# What is allowed

Let `A` say which names are allowed in which frame, with all names allowed in frames that are not
there yet. If the declarations that a machine still has before it stay within what is allowed of
each frame, so do the names that the frames bind (`Introduces.run`). The declarations that count for
a frame are those of the statements that are carried out in that frame itself (`Stmt.Declares`): a
block and a function add a frame for theirs, a bare branch or loop does not.

# Pieces of work

Hence what an expression or a block does to the frames that were there before it is to replace
values (`frames_isolated`): their own declarations are carried out in frames that they add. For a
piece of work in the middle of a program this follows from a run with nothing waiting
(`BusyFor.grown`), since the work below may declare whatever it likes.
-/
import Lox.Proofs.Machine.Outcome
import Lox.Proofs.Store.Change

namespace Lox

variable {A : FrameRef → Bytes → Prop} {N : Bytes → Prop} {host : Host} {m : Machine}

-- ==== Declarations

/-- All names that the statement binds in the frame it is carried out in are of this kind. Blocks
and bodies of functions have frames of their own, so nothing is asked of them. -/
def Stmt.Declares (N : Bytes → Prop) : Stmt → Prop
  | .var _ name _ => N name.lexeme
  | .function _ name _ _ => N name.lexeme
  | .branch _ _ positive negative => positive.Declares N ∧ negative.Declares N
  | .loop _ _ body => body.Declares N
  | _ => True

/-- Where all names are allowed, a statement may declare any. -/
theorem Stmt.declares_of_all (h : ∀ x, N x) (s : Stmt) : s.Declares N := by
  cases s with
  | var id name initializer => exact h name.lexeme
  | function id name params body => exact h name.lexeme
  | branch id condition positive negative =>
      exact ⟨declares_of_all h positive, declares_of_all h negative⟩
  | loop id condition body =>
      show body.Declares N
      exact declares_of_all h body
  | _ => trivial

/-- The work binds no name in a frame but those that are allowed there. Each piece of work knows its
frame, and an assignment is no binding. -/
def Pending.Declares (A : FrameRef → Bytes → Prop) : Pending → Prop
  | .bind name env => A env name.lexeme
  | .sequence rest env => ∀ s ∈ rest, s.Declares (A env)
  | .choose positive negative env => positive.Declares (A env) ∧ negative.Declares (A env)
  | .loopTest _ body env => body.Declares (A env)
  | .loopBody _ body env => body.Declares (A env)
  | _ => True

/-- A statement that is carried out next binds no name in its frame but those allowed there. -/
def Control.Declares (A : FrameRef → Bytes → Prop) : Control → Prop
  | .exec s env => s.Declares (A env)
  | _ => True

/-- Where all names are allowed, so is all work. -/
theorem Pending.declares_of_all (h : ∀ ref x, A ref x) (p : Pending) : p.Declares A := by
  cases p with
  | bind name env => exact h env name.lexeme
  | sequence rest env => exact fun s _ => Stmt.declares_of_all (h env) s
  | choose positive negative env =>
      exact ⟨Stmt.declares_of_all (h env) positive, Stmt.declares_of_all (h env) negative⟩
  | loopTest condition body env => exact Stmt.declares_of_all (h env) body
  | loopBody condition body env => exact Stmt.declares_of_all (h env) body
  | _ => trivial

theorem Control.declares_of_all (h : ∀ ref x, A ref x) (c : Control) : c.Declares A := by
  cases c with
  | exec s env => exact Stmt.declares_of_all (h env) s
  | _ => trivial

/-- The outcome of an operator declares nothing. -/
theorem Control.declares_settle (result : Except Fault Value) :
    (Control.settle result).Declares A := by
  cases result <;> trivial

/-- Nor does the answer of the host. -/
theorem Control.declares_answer (paren : Token) (answer : Except Bytes Value) :
    (Control.answer paren answer).Declares A := by
  cases answer with
  | error text => trivial
  | ok v => cases v <;> trivial

-- ==== Frames

/-- The frame binds the name. -/
def Store.Binds (s : Store) (ref : FrameRef) (name : Bytes) : Prop :=
  (s.lookup? ref name).isSome = true

/-- The store `s` came from `s₀`: nothing was dropped, and the names that a frame binds are among
those that are allowed there. In a frame that is not there yet, all names are allowed. -/
structure Store.Grown (A : FrameRef → Bytes → Prop) (s₀ s : Store) : Prop where
  size : s₀.frames.size ≤ s.frames.size
  parent : ∀ ref < s₀.frames.size, s.parent? ref = s₀.parent? ref
  kept : ∀ ref x, s₀.Binds ref x → s.Binds ref x
  allowed : ∀ ref x, s.Binds ref x → A ref x
  fresh : ∀ ref, s.frames.size ≤ ref → ∀ x, A ref x

namespace Store.Grown

variable {s₀ s : Store} {ref : FrameRef} {name : Bytes}

/-- A name that is allowed is bound, or bound again. If the frame is not there nothing happens, so
that nothing is asked about it. -/
theorem define (h : s₀.Grown A s) (hname : A ref name) (v : Value) :
    s₀.Grown A (s.define ref name v) := by
  refine ⟨by simpa using h.size, fun ρ hρ => ?_, fun ρ x hx => ?_, fun ρ x hx => ?_,
    by simpa using h.fresh⟩
  · rw [parent?_define]
    exact h.parent ρ hρ
  · have hx := h.kept ρ x hx
    unfold Binds at hx ⊢
    by_cases hlt : ref < s.frames.size
    · rw [lookup?_define hlt]
      split
      · rfl
      · exact hx
    · rw [lookup?_define_of_le (Nat.le_of_not_lt hlt)]
      exact hx
  · unfold Binds at hx
    by_cases hlt : ref < s.frames.size
    · rw [lookup?_define hlt] at hx
      split at hx
      next heq => exact heq.1 ▸ heq.2 ▸ hname
      next => exact h.allowed ρ x hx
    · rw [lookup?_define_of_le (Nat.le_of_not_lt hlt)] at hx
      exact h.allowed ρ x hx

/-- A frame is added. -/
theorem add (h : s₀.Grown A s) (parent : Option FrameRef) : s₀.Grown A (s.add parent) := by
  refine ⟨?_, fun ρ hρ => ?_, fun ρ x hx => ?_, fun ρ x hx => ?_, fun ρ hρ => ?_⟩
  · rw [size_add]
    exact Nat.le_succ_of_le h.size
  · have hne : ρ ≠ s.nextRef := Nat.ne_of_lt (Nat.lt_of_lt_of_le hρ h.size)
    rw [parent?_add, if_neg hne]
    exact h.parent ρ hρ
  · unfold Binds
    rw [lookup?_add]
    exact h.kept ρ x hx
  · unfold Binds at hx
    rw [lookup?_add] at hx
    exact h.allowed ρ x hx
  · rw [size_add] at hρ
    exact h.fresh ρ (Nat.le_of_succ_le hρ)

/-- In the next frame all names are allowed. -/
theorem nextRef (h : s₀.Grown A s) (x : Bytes) : A s.nextRef x :=
  h.fresh s.nextRef (Nat.le_refl _) x

/-- The parameters of a call are bound in a frame where all names are allowed. -/
theorem bindParams (h : s₀.Grown A s) (href : ∀ x, A ref x) (params : List Token)
    (args : List Value) : s₀.Grown A (Machine.bindParams s ref params args) := by
  unfold Machine.bindParams
  generalize params.zip args = pairs
  induction pairs generalizing s with
  | nil => exact h
  | cons pair pairs ih => exact ih (h.define (href pair.1.lexeme) pair.2)

end Store.Grown

/-- A frame is found for a name if it binds it. -/
theorem Store.bound_eq_ok_iff {s : Store} {ref ρ : FrameRef} {name : Bytes} :
    s.bound ref name = .ok ρ ↔ ρ = ref ∧ s.Binds ref name := by
  unfold bound Binds
  split
  next h => exact ⟨fun heq => ⟨(Except.ok.inj heq).symm, h⟩, fun heq => congrArg _ heq.1.symm⟩
  next h => exact iff_of_false (by simp) fun heq => h heq.2

/-- A frame is found by hops if they lead to one that binds the name. -/
theorem Store.boundAt_eq_ok_iff {s : Store} {ref ρ : FrameRef} {hops : Int} {name : Bytes} :
    s.boundAt ref hops name = .ok ρ ↔ s.ancestor ref hops = .ok ρ ∧ s.Binds ρ name := by
  unfold boundAt
  cases s.ancestor ref hops with
  | error fault => exact iff_of_false (by simp) (by simp)
  | ok a =>
      dsimp only
      rw [bound_eq_ok_iff, Except.ok.injEq]
      exact ⟨fun h => ⟨h.1.symm, h.1 ▸ h.2⟩, fun h => ⟨h.1.symm, h.1 ▸ h.2⟩⟩

/-- An assignment is made in a frame that binds the name. -/
theorem Machine.bound_of_findName {store : Store} {id : Nat} {name : Token} {env ref : FrameRef}
    (h : findName host store id name env = .ok ref) : store.Binds ref name.lexeme := by
  unfold findName at h
  split at h
  next => exact (Store.boundAt_eq_ok_iff.mp h).2
  next =>
    obtain ⟨rfl, hbinds⟩ := Store.bound_eq_ok_iff.mp h
    exact hbinds

-- ==== Machines

/-- All names that the machine has bound in a frame, or still may, are allowed there. -/
structure Machine.Introduces (A : FrameRef → Bytes → Prop) (s₀ : Store) (m : Machine) : Prop where
  control : m.control.Declares A
  stack : ∀ p ∈ m.stack, p.Declares A
  store : s₀.Grown A m.store

namespace Machine.Introduces

variable {s₀ : Store}

/-- A call adds a frame for the parameters, and the body is carried out there. In a new frame all
names are allowed, so nothing is asked of the function. -/
theorem apply (h : m.Introduces A s₀) (paren : Token) (callee : Value) (args : List Value) :
    (m.apply host paren callee args).Introduces A s₀ := by
  unfold Machine.apply
  cases callee.arity? with
  | none => exact ⟨trivial, h.stack, h.store⟩
  | some arity =>
      dsimp only
      split
      · exact ⟨trivial, h.stack, h.store⟩
      · cases callee with
        | function f =>
            dsimp only [invoke]
            split
            · exact ⟨trivial, h.stack, h.store⟩
            · cases f.code with
              | none => exact ⟨trivial, h.stack, h.store⟩
              | some code =>
                  have hnew := h.store.nextRef
                  refine ⟨trivial, ?_, (h.store.add _).bindParams hnew code.params args⟩
                  intro p hp
                  rcases List.mem_cons.mp hp with rfl | hp
                  · exact fun s _ => Stmt.declares_of_all hnew s
                  · rcases List.mem_cons.mp hp with rfl | hp
                    · trivial
                    · exact h.stack p hp
        | native f => exact ⟨Control.declares_answer paren _, h.stack, h.store⟩
        | _ => exact ⟨trivial, h.stack, h.store⟩

/-- Work is left on the stack for a value that is evaluated first. -/
theorem push {p : Pending} {c : Control} (h : m.Introduces A s₀) (hp : p.Declares A)
    (hc : c.Declares A) : { m with control := c, stack := p :: m.stack }.Introduces A s₀ :=
  ⟨hc, List.forall_mem_cons.mpr ⟨hp, h.stack⟩, h.store⟩

theorem passArguments (h : m.Introduces A s₀) (id : Nat) (paren : Token) (callee : Value)
    (before : List Value) (rest : List Expr) (env : FrameRef) :
    (m.passArguments host id paren callee before rest env).Introduces A s₀ := by
  cases rest with
  | nil => exact h.apply paren callee before.reverse
  | cons e rest => exact h.push trivial trivial

/-- Evaluating declares nothing. -/
theorem evalStep (h : m.Introduces A s₀) (e : Expr) (env : FrameRef) :
    (m.evalStep host e env).Introduces A s₀ := by
  cases e with
  | absent => exact ⟨trivial, h.stack, h.store⟩
  | literal id value => cases value <;> exact ⟨trivial, h.stack, h.store⟩
  | grouping id inner => exact ⟨trivial, h.stack, h.store⟩
  | ident id name =>
      dsimp only [Machine.evalStep]
      cases readName host m.store id name env <;> exact ⟨trivial, h.stack, h.store⟩
  | _ => exact h.push trivial trivial

/-- A block is carried out in a frame of its own; all else in the frame of the statement, where the
name that it declares is allowed. -/
theorem execStep (h : m.Introduces A s₀) {s : Stmt} {env : FrameRef} (hs : s.Declares (A env)) :
    (m.execStep s env).Introduces A s₀ := by
  cases s with
  | absent => exact ⟨trivial, h.stack, h.store⟩
  | expression id value => exact h.push trivial trivial
  | print id value => exact h.push trivial trivial
  | var id name initializer =>
      cases initializer with
      | absent => exact ⟨trivial, h.stack, h.store.define hs .nil⟩
      | _ => exact h.push hs trivial
  | block id body =>
      have hnew : Pending.Declares A (.sequence body m.store.nextRef) :=
        fun s _ => Stmt.declares_of_all h.store.nextRef s
      exact ⟨trivial, List.forall_mem_cons.mpr ⟨hnew, h.stack⟩, h.store.add _⟩
  | branch id condition positive negative => exact h.push hs trivial
  | loop id condition body => exact h.push hs trivial
  | function id name params body =>
      have hclosure : s₀.Grown A { m.store with issued := m.store.issued + 1 } :=
        ⟨h.store.size, h.store.parent, h.store.kept, h.store.allowed, h.store.fresh⟩
      exact ⟨trivial, h.stack, hclosure.define hs _⟩
  | result id keyword value =>
      cases value with
      | absent => exact ⟨trivial, h.stack, h.store⟩
      | _ => exact h.push trivial trivial

/-- The work binds a name that is allowed, assigns one that is bound, or goes on with allowed
statements. -/
theorem resumeStep (h : m.Introduces A s₀) {p : Pending} (hp : p.Declares A) (v : Value) :
    (m.resumeStep host p v).Introduces A s₀ := by
  cases p with
  | unary id operator => exact ⟨Control.declares_settle _, h.stack, h.store⟩
  | left id operator right env => exact h.push trivial trivial
  | right id operator left => exact ⟨Control.declares_settle _, h.stack, h.store⟩
  | decide operator right env =>
      dsimp only [Machine.resumeStep]
      split <;> exact ⟨trivial, h.stack, h.store⟩
  | assign id name env =>
      dsimp only [Machine.resumeStep]
      cases hfind : findName host m.store id name env with
      | error fault => exact ⟨trivial, h.stack, h.store⟩
      | ok ref =>
          have hname := h.store.allowed ref name.lexeme (bound_of_findName hfind)
          exact ⟨trivial, h.stack, h.store.define hname v⟩
  | callee id paren arguments env => exact h.passArguments ..
  | argument id paren callee before rest env => exact h.passArguments ..
  | invoked => exact ⟨trivial, h.stack, h.store⟩
  | discard => exact ⟨trivial, h.stack, h.store⟩
  | print =>
      dsimp only [Machine.resumeStep]
      cases m.sink.next? <;> exact ⟨trivial, h.stack, h.store⟩
  | bind name env => exact ⟨trivial, h.stack, h.store.define hp v⟩
  | sequence rest env =>
      cases rest with
      | nil => exact ⟨trivial, h.stack, h.store⟩
      | cons s rest =>
          exact h.push (fun s' hs' => hp s' (List.mem_cons_of_mem s hs'))
            (hp s List.mem_cons_self)
  | choose positive negative env =>
      refine ⟨?_, h.stack, h.store⟩
      show Stmt.Declares (A env) (if v.isTruthy then positive else negative)
      split
      · exact hp.1
      · exact hp.2
  | loopTest condition body env =>
      dsimp only [Machine.resumeStep]
      split
      · exact h.push hp hp
      · exact ⟨trivial, h.stack, h.store⟩
  | loopBody condition body env => exact h.push hp trivial
  | result => exact ⟨trivial, h.stack, h.store⟩

/-- A step binds no names but those that are allowed in their frames, and each piece of work that it
leaves declares no others. -/
theorem step (h : m.Introduces A s₀) : (m.step host).Introduces A s₀ := by
  obtain ⟨control, stack, store, sink, depth, calls⟩ := m
  obtain ⟨hcontrol, hstack, hstore⟩ := h
  have idle : ∀ {stack : List Pending}, (∀ p ∈ stack, p.Declares A) →
      Introduces A s₀ ⟨.yield .nil, stack, store, sink, depth, calls⟩ :=
    fun h => ⟨trivial, h, hstore⟩
  have below : ∀ {p : Pending} {stack : List Pending}, (∀ q ∈ p :: stack, q.Declares A) →
      p.Declares A ∧ ∀ q ∈ stack, q.Declares A := List.forall_mem_cons.mp
  cases control with
  | eval e env => exact (idle hstack).evalStep e env
  | exec s env => exact (idle hstack).execStep hcontrol
  | yield v =>
      cases stack with
      | nil => exact ⟨trivial, hstack, hstore⟩
      | cons p stack => exact (idle (below hstack).2).resumeStep (below hstack).1 v
  | leave v =>
      cases stack with
      | nil => exact ⟨trivial, hstack, hstore⟩
      | cons p stack => cases p <;> exact ⟨trivial, (below hstack).2, hstore⟩
  | fail f =>
      cases stack with
      | nil => exact ⟨trivial, hstack, hstore⟩
      | cons p stack => cases p <;> exact ⟨trivial, (below hstack).2, hstore⟩

/-- Nor does a run. -/
theorem run (h : m.Introduces A s₀) (fuel : Nat) : (m.run host fuel).Introduces A s₀ :=
  run_invariant (P := Introduces A s₀) (fun _ => step) h fuel

end Machine.Introduces

-- ==== Pieces of work

/-- What a busy machine does to the frames is bounded by what it has set out to do itself. -/
theorem Machine.BusyFor.grown {n : Nat} (h : m.BusyFor host n) (hcontrol : m.control.Declares A)
    (hstore : m.store.Grown A m.store) : m.store.Grown A (m.run host n).store := by
  rw [run_busy h]
  have start : m.alone.Introduces A m.store :=
    ⟨hcontrol, fun p hp => absurd hp List.not_mem_nil, hstore⟩
  exact (start.run n).store

namespace Store

variable {s s' : Store} {P : FrameRef → Prop}

/-- The names that frames bind, and all names in frames of one kind. -/
def Beyond (P : FrameRef → Prop) (s : Store) (ref : FrameRef) (x : Bytes) : Prop :=
  P ref ∨ s.Binds ref x

/-- At the start each frame binds what it binds. -/
theorem grown_start (h : ∀ ref, s.frames.size ≤ ref → P ref) : s.Grown (s.Beyond P) s :=
  ⟨Nat.le_refl _, fun _ _ => rfl, fun _ _ hx => hx, fun _ _ hx => .inr hx,
    fun ref hle _ => .inl (h ref hle)⟩

/-- A frame that is left alone binds the same names. -/
theorem Grown.binds_iff {ref : FrameRef} (h : s.Grown (s.Beyond P) s') (href : ¬P ref) (x : Bytes) :
    s'.Binds ref x ↔ s.Binds ref x :=
  ⟨fun hx => (h.allowed ref x hx).resolve_left href, h.kept ref x⟩

end Store

/-- Frames are isolated, and grow only where a declaration is carried out. No run ever drops a binding
or changes a parent. Up to its outcome and with it, an expression or a block leaves the names alone
that any frame bound before; and a statement adds names only to the frame it is carried out in, of
those that were there before. -/
theorem Machine.frames_isolated (host : Host) (m : Machine) (n : Nat) :
    (∀ ref x, m.store.Binds ref x → (m.run host n).store.Binds ref x) ∧
    (∀ ref < m.store.frames.size, (m.run host n).store.parent? ref = m.store.parent? ref) ∧
    (m.BusyFor host n →
      (∀ e env, m.control = .eval e env → ∀ ref < m.store.frames.size, ∀ x,
        (m.run host n).store.Binds ref x ↔ m.store.Binds ref x) ∧
      (∀ id body env, m.control = .exec (.block id body) env →
        ∀ ref < m.store.frames.size, ∀ x,
          (m.run host n).store.Binds ref x ↔ m.store.Binds ref x) ∧
      ∀ s env, m.control = .exec s env → ∀ ref < m.store.frames.size, ref ≠ env → ∀ x,
        (m.run host n).store.Binds ref x ↔ m.store.Binds ref x) := by
  have anywhere : m.Introduces (fun _ _ => True) m.store :=
    ⟨Control.declares_of_all (fun _ _ => trivial) m.control,
      fun p _ => Pending.declares_of_all (fun _ _ => trivial) p,
      Nat.le_refl _, fun _ _ => rfl, fun _ _ hx => hx, fun _ _ _ => trivial, fun _ _ _ => trivial⟩
  refine ⟨(anywhere.run n).store.kept, (anywhere.run n).store.parent, fun busy => ?_⟩
  have inside : m.control.Declares (m.store.Beyond (m.store.frames.size ≤ ·)) →
      ∀ ref < m.store.frames.size, ∀ x,
        (m.run host n).store.Binds ref x ↔ m.store.Binds ref x := by
    intro hcontrol ref hlt
    exact (busy.grown hcontrol (Store.grown_start fun _ hle => hle)).binds_iff (Nat.not_le_of_lt hlt)
  refine ⟨fun e env hc => ?_, fun id body env hc => ?_, fun s env hc ref hlt hne => ?_⟩
  · apply inside
    rw [hc]
    trivial
  · apply inside
    rw [hc]
    trivial
  · have hcontrol : m.control.Declares
        (m.store.Beyond fun ref => m.store.frames.size ≤ ref ∨ ref = env) := by
      rw [hc]
      exact Stmt.declares_of_all (fun _ => .inl (.inr rfl)) s
    refine (busy.grown hcontrol (Store.grown_start fun _ hle => .inl hle)).binds_iff ?_
    rintro (hle | heq)
    · exact Nat.not_le_of_lt hlt hle
    · exact hne heq

/-- A block that declares a name of its own, assigns one that is there already, and returns. -/
theorem Machine.frames_isolated_in_block :
    let name (text : String) : Token := ⟨.identifier, utf8 text, .nil, 1⟩
    let body : List Stmt :=
      [.var 1 (name "a") .absent, .expression 2 (.assign 3 (name "b") (.literal 4 (.bool true))),
        .result 5 (name "return") .absent]
    let host : Host := ⟨∅, #[]⟩
    let store := Store.initial.define Store.global (utf8 "b") .nil
    let m : Machine := ⟨.exec (.block 6 body) Store.global, [], store, Sink.unlimited, 0, 0⟩
    m.BusyFor host 12 ∧ (m.run host 12).control = .leave .nil ∧ (m.run host 12).stack = [] ∧
      (m.run host 12).store.lookup? Store.global (utf8 "b") = some (.bool true) ∧
      ∀ ref < 1, ∀ x, (m.run host 12).store.Binds ref x ↔ store.Binds ref x := by
  intro name body host store m
  have busy : m.BusyFor host 12 := by
    have working : ∀ k < 12, (m.run host k).isDone = false := by decide
    intro k hk hend
    exact Bool.false_ne_true ((working k hk).symm.trans (answers_nil_iff.mp hend))
  exact ⟨busy, rfl, rfl, rfl, ((frames_isolated host m 12).2.2 busy).2.1 6 body Store.global rfl⟩

end Lox
