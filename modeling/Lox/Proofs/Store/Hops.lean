/-
The way out of a frame.

# Operations

Frames are made and written by four operations: adding a frame under another one, defining a name in
a frame, assigning to a name in a frame, and assigning to a name in the frame some hops out. Each
adds a frame, writes one binding of one frame, or does nothing (`after_cases`), and all other
bindings stay as they were (`lookup?_after`). A frame comes to bind a name only where it is defined
(`binds_after`). The same is then said of any number of operations, by induction
(`lookup?_afterAll`, `binds_afterAll`).

# Frames form a tree

`Around ref outer` says that `outer` are the frames around a frame, one after the other up to a
root. There is one such list (`Around.unique`), it stays the same for good since no operation
changes a parent (`Around.kept`), and a new frame has the frame that it is under and those around
that around it (`Around.extend`). From each frame the way out ends in the global one, at the start
and after each operation (`Rooted.after`). So a number of hops either tells one of the frames around
or is more than there are, and then the fault tells how many there are (`Around.ancestor_cases`).

# Reading what was written

An assignment is made exactly if the hops lead to a frame that binds the name itself
(`assignAt_eq_ok_iff`). It replaces one value in one frame and leaves all else (`Replaced`). So what
is read some hops out is what was last written in the frame that the hops lead to, whichever way was
taken to that frame, and also from a frame that is added later (`Replaced.getAt_afterAll`). All of
this together is `frames_addressed_by_hops`.
-/
import Lox.Proofs.Machine.Growth

namespace Lox

namespace Store

-- ==== Operations

/-- What can be done to frames. A history of them is all that a store depends on. -/
inductive Operation where
  /-- Add a frame under another one. -/
  | extend (frame : FrameRef)
  /-- Bind a name in a frame. -/
  | define (frame : FrameRef) (name : Bytes) (value : Value)
  /-- Replace the value of a name that the frame binds. -/
  | assign (frame : FrameRef) (name : Bytes) (value : Value)
  /-- Replace the value of a name that the frame a number of hops out binds. -/
  | assignAt (frame : FrameRef) (hops : Int) (name : Bytes) (value : Value)

/-- The frame that an operation sets out from. -/
def Operation.frame : Operation → FrameRef
  | extend frame => frame
  | define frame _ _ => frame
  | assign frame _ _ => frame
  | assignAt frame _ _ _ => frame

/-- What an operation comes to. -/
def perform (s : Store) : Operation → Except BindingFault Store
  | .extend frame => .ok (s.add (some frame))
  | .define frame name v => .ok (s.define frame name v)
  | .assign frame name v => s.assign frame name v
  | .assignAt frame hops name v => s.assignAt frame hops name v

/-- The store after an operation, which may have failed. -/
def after (s : Store) (op : Operation) : Store :=
  match s.perform op with
  | .ok t => t
  | .error _ => s

/-- The store after some operations, one after the other. -/
def afterAll (s : Store) (ops : List Operation) : Store := ops.foldl after s

/-- Each operation sets out from a frame that is there. -/
def Possible (s : Store) : List Operation → Prop
  | [] => True
  | op :: ops => op.frame < s.frames.size ∧ (s.after op).Possible ops

/-- The binding that an operation makes or replaces: its frame, its name and its new value. -/
def writes? (s : Store) : Operation → Option (FrameRef × Bytes × Value)
  | .extend _ => none
  | .define frame name v => some (frame, name, v)
  | .assign frame name v => (s.bound frame name).toOption.map (·, name, v)
  | .assignAt frame hops name v => (s.boundAt frame hops name).toOption.map (·, name, v)

/-- None of the operations writes the binding. -/
def Spares (s : Store) (ref : FrameRef) (name : Bytes) : List Operation → Prop
  | [] => True
  | op :: ops => (∀ v, s.writes? op ≠ some (ref, name, v)) ∧ (s.after op).Spares ref name ops

variable {s t : Store} {ref ρ a : FrameRef} {name x : Bytes} {v : Value} {hops : Int}
variable {op : Operation} {ops : List Operation} {outer : List FrameRef}

-- ==== One operation

/-- When an assignment some hops out is made, and what it comes to. -/
theorem assignAt_eq_ok_iff : s.assignAt ref hops name v = .ok t ↔
    ∃ a, s.ancestor ref hops = .ok a ∧ s.Binds a name ∧ s.define a name v = t := by
  unfold assignAt
  cases h : s.boundAt ref hops name with
  | error fault =>
      refine iff_of_false (by simp) ?_
      rintro ⟨a, hancestor, hbinds, -⟩
      rw [boundAt_eq_ok_iff.mpr ⟨hancestor, hbinds⟩] at h
      cases h
  | ok b =>
      obtain ⟨hancestor, hbinds⟩ := boundAt_eq_ok_iff.mp h
      dsimp only
      rw [Except.ok.injEq]
      refine ⟨fun heq => ⟨b, hancestor, hbinds, heq⟩, ?_⟩
      rintro ⟨a, ha, -, rfl⟩
      rw [Except.ok.inj (hancestor.symm.trans ha)]

/-- The frame no hops out is the frame itself. -/
theorem assign_eq_assignAt : s.assign ref name v = s.assignAt ref 0 name v := rfl

/-- A frame that binds a name is there. -/
theorem lt_of_binds (h : s.Binds ref name) : ref < s.frames.size := by
  refine Nat.lt_of_not_le fun hle => ?_
  unfold Binds at h
  rw [lookup?_of_le hle] at h
  cases h

/-- An operation adds a frame, writes one binding or does nothing. A binding that is written is made
by a definition, or it was there before. -/
theorem after_cases (s : Store) (op : Operation) :
    (∃ frame, op = .extend frame ∧ s.after op = s.add (some frame)) ∨
    (∃ ref name v, s.writes? op = some (ref, name, v) ∧ s.after op = s.define ref name v ∧
      (op = .define ref name v ∨ s.Binds ref name)) ∨
    s.writes? op = none ∧ s.after op = s := by
  cases op with
  | extend frame => exact .inl ⟨frame, rfl, rfl⟩
  | define frame name v => exact .inr (.inl ⟨frame, name, v, rfl, rfl, .inl rfl⟩)
  | assign frame name v =>
      simp only [writes?, after, perform, assign]
      cases h : s.bound frame name with
      | error fault => exact .inr (.inr ⟨rfl, rfl⟩)
      | ok a =>
          obtain ⟨rfl, hbinds⟩ := bound_eq_ok_iff.mp h
          exact .inr (.inl ⟨a, name, v, rfl, rfl, .inr hbinds⟩)
  | assignAt frame hops name v =>
      simp only [writes?, after, perform, assignAt]
      cases h : s.boundAt frame hops name with
      | error fault => exact .inr (.inr ⟨rfl, rfl⟩)
      | ok a => exact .inr (.inl ⟨a, name, v, rfl, rfl, .inr (boundAt_eq_ok_iff.mp h).2⟩)

/-- Nothing was dropped on the way from one store to the other, and no parent has changed. -/
def Kept (s t : Store) : Prop := s.Grown (fun _ _ => True) t

/-- Where nothing happens, nothing is dropped. -/
theorem Kept.refl (s : Store) : s.Kept s :=
  ⟨Nat.le_refl _, fun _ _ => rfl, fun _ _ h => h, fun _ _ _ => trivial, fun _ _ _ => trivial⟩

/-- No operation drops a frame or changes a parent. -/
theorem Kept.after (h : s.Kept t) (op : Operation) : s.Kept (t.after op) := by
  rcases t.after_cases op with ⟨frame, -, hafter⟩ | ⟨ref, name, v, -, hafter, -⟩ | ⟨-, hafter⟩
  · rw [hafter]
    exact Grown.add h (some frame)
  · rw [hafter]
    exact Grown.define h trivial v
  · rw [hafter]
    exact h

/-- A binding that an operation does not write stays as it is. -/
theorem lookup?_after (h : ∀ v, s.writes? op ≠ some (ρ, x, v)) :
    (s.after op).lookup? ρ x = s.lookup? ρ x := by
  rcases s.after_cases op with ⟨frame, -, hafter⟩ | ⟨ref, name, v, hwrites, hafter, -⟩ | ⟨-, hafter⟩
  · rw [hafter, lookup?_add]
  · rw [hafter, lookup?_define_of_ne]
    rintro ⟨rfl, rfl⟩
    exact h v hwrites
  · rw [hafter]

/-- What frames bind after a definition. -/
theorem binds_define (h : ref < s.frames.size) :
    (s.define ref name v).Binds ρ x ↔ s.Binds ρ x ∨ ρ = ref ∧ x = name := by
  unfold Binds
  rw [lookup?_define h]
  split
  next heq => exact iff_of_true rfl (.inr heq)
  next hne => exact (or_iff_left hne).symm

/-- Nothing is bound at the start. -/
theorem not_binds_initial : ¬initial.Binds ref name := by
  intro h
  obtain ⟨v, hv⟩ := Option.isSome_iff_exists.mp h
  exact (All.initial : initial.All fun _ => False) ref name v hv

/-- A frame comes to bind a name where the name is defined in it. A new frame binds none, and an
assignment finds a frame that binds the name already. -/
theorem binds_after (there : op.frame < s.frames.size) :
    (s.after op).Binds ρ x ↔ s.Binds ρ x ∨ ∃ v, op = .define ρ x v := by
  rcases s.after_cases op with
    ⟨frame, rfl, hafter⟩ | ⟨ref, name, v, hwrites, hafter, rfl | hbinds⟩ | ⟨hwrites, hafter⟩
  · rw [hafter]
    unfold Binds
    rw [lookup?_add]
    simp
  · have hlt : ref < s.frames.size := there
    rw [hafter, binds_define hlt]
    simp [eq_comm]
  · -- What is replaced was bound before.
    have written : ρ = ref ∧ x = name → s.Binds ρ x := by
      rintro ⟨rfl, rfl⟩
      exact hbinds
    have defined : (∃ v, op = .define ρ x v) → s.Binds ρ x := by
      rintro ⟨w, rfl⟩
      cases hwrites
      exact hbinds
    rw [hafter, binds_define (lt_of_binds hbinds), or_iff_left_of_imp written,
      or_iff_left_of_imp defined]
  · rw [hafter, iff_self_or]
    rintro ⟨v, rfl⟩
    cases hwrites

-- ==== Any number of operations

/-- Nor do any number of operations. -/
theorem Kept.afterAll (h : s.Kept t) (ops : List Operation) : s.Kept (t.afterAll ops) := by
  induction ops generalizing t with
  | nil => exact h
  | cons op ops ih => exact ih (h.after op)

/-- A binding that none of the operations writes stays as it is. -/
theorem lookup?_afterAll (h : s.Spares ρ x ops) :
    (s.afterAll ops).lookup? ρ x = s.lookup? ρ x := by
  induction ops generalizing s with
  | nil => rfl
  | cons op ops ih => exact (ih h.2).trans (lookup?_after h.1)

/-- A frame binds the names that it bound before and those that were defined in it since. -/
theorem binds_afterAll (possible : s.Possible ops) :
    (s.afterAll ops).Binds ρ x ↔ s.Binds ρ x ∨ ∃ v, .define ρ x v ∈ ops := by
  induction ops generalizing s with
  | nil => simp [afterAll]
  | cons op ops ih =>
      show ((s.after op).afterAll ops).Binds ρ x ↔ _
      rw [ih possible.2, binds_after possible.1, or_assoc, ← exists_or]
      simp only [List.mem_cons, eq_comm]

-- ==== The way out

/-- The frames around a frame: its parent, the parent of that, and so on up to a root. There is at
most one such list for a frame (`Around.unique`). -/
inductive Around (s : Store) : FrameRef → List FrameRef → Prop where
  | root {ref : FrameRef} (there : ref < s.frames.size) (parent : s.parent? ref = none) :
      Around s ref []
  | under {ref next : FrameRef} {rest : List FrameRef} (parent : s.parent? ref = some next)
      (around : Around s next rest) : Around s ref (next :: rest)

namespace Around

/-- There is one way out of a frame. -/
theorem unique {outer' : List FrameRef} (h : s.Around ref outer) (h' : s.Around ref outer') :
    outer' = outer := by
  induction h generalizing outer' with
  | root there parent =>
      cases h' with
      | root => rfl
      | under parent' => cases parent.symm.trans parent'
  | under parent around ih =>
      cases h' with
      | root there parent' => cases parent.symm.trans parent'
      | under parent' around' =>
          obtain rfl := Option.some.inj (parent.symm.trans parent')
          rw [ih around']

/-- The way out stays the same, since parents do. -/
theorem kept (h : s.Around ref outer) (hkept : s.Kept t) : t.Around ref outer := by
  induction h with
  | root there parent =>
      exact .root (Nat.lt_of_lt_of_le there hkept.size) ((hkept.parent _ there).trans parent)
  | under parent around ih =>
      exact .under ((hkept.parent _ (lt_of_parent? parent)).trans parent) ih

/-- A new frame has the frame it is under and those around that around it. -/
theorem extend (h : s.Around ref outer) :
    (s.after (.extend ref)).Around s.nextRef (ref :: outer) := by
  have parent : (s.after (.extend ref)).parent? s.nextRef = some ref := by
    show (s.add (some ref)).parent? s.nextRef = some ref
    rw [parent?_add, if_pos rfl]
  exact .under parent (h.kept ((Kept.refl s).after _))

/-- Climbing goes along the way out, and if it comes to the end it tells how far that was. -/
theorem climb (h : s.Around ref outer) (k : Nat) :
    s.climb k ref = ((ref :: outer)[k]?).elim (.error outer.length) .ok := by
  induction h generalizing k with
  | root there parent =>
      cases k with
      | zero => rfl
      | succ k => simp [Store.climb, parent]
  | under parent around ih =>
      cases k with
      | zero => rfl
      | succ k =>
          rw [Store.climb, parent]
          dsimp only
          rw [ih k, List.getElem?_cons_succ]
          cases (_ : List FrameRef)[k]? <;> rfl

/-- The frame some hops out is one of those around the frame, or there are too few of them. -/
theorem ancestor_cases (h : s.Around ref outer) (hops : Int) :
    (∃ a, hops.toNat ≤ outer.length ∧ (ref :: outer)[hops.toNat]? = some a ∧
      s.ancestor ref hops = .ok a) ∨
    outer.length < hops.toNat ∧ s.ancestor ref hops = .error (.tooFar hops outer.length) := by
  unfold Store.ancestor
  rw [h.climb]
  cases hget : (ref :: outer)[hops.toNat]? with
  | none =>
      have hle : outer.length + 1 ≤ hops.toNat := List.getElem?_eq_none_iff.mp hget
      exact .inr ⟨hle, rfl⟩
  | some a =>
      have hlt : hops.toNat < outer.length + 1 := (List.getElem?_eq_some_iff.mp hget).1
      exact .inl ⟨a, Nat.le_of_lt_succ hlt, rfl, rfl⟩

end Around

/-- From each frame the way out ends in the global frame. -/
def Rooted (s : Store) : Prop :=
  ∀ ref < s.frames.size, ∃ outer, s.Around ref outer ∧ (ref :: outer).getLast? = some global

/-- At the start there is the global frame alone. -/
theorem rooted_initial : initial.Rooted := by
  intro ref hlt
  obtain rfl : ref = global := Nat.lt_one_iff.mp hlt
  exact ⟨[], .root hlt rfl, rfl⟩

/-- An operation keeps it so: a frame that is new is under one from which the way out is known. -/
theorem Rooted.after (h : s.Rooted) (there : op.frame < s.frames.size) : (s.after op).Rooted := by
  intro ref hlt
  by_cases hold : ref < s.frames.size
  · obtain ⟨outer, around, hlast⟩ := h ref hold
    exact ⟨outer, around.kept ((Kept.refl s).after op), hlast⟩
  · -- A frame that was not there before is a new one.
    rcases s.after_cases op with ⟨frame, rfl, hafter⟩ | ⟨_, _, _, -, hafter, -⟩ | ⟨-, hafter⟩
    · obtain ⟨outer, around, hlast⟩ := h frame there
      rw [hafter, size_add] at hlt
      obtain rfl : ref = s.nextRef :=
        Nat.le_antisymm (Nat.le_of_lt_succ hlt) (Nat.le_of_not_lt hold)
      exact ⟨frame :: outer, around.extend, by rw [List.getLast?_cons_cons, hlast]⟩
    · rw [hafter, size_define] at hlt
      exact absurd hlt hold
    · rw [hafter] at hlt
      exact absurd hlt hold

/-- So do any number of operations. -/
theorem Rooted.afterAll (h : s.Rooted) (possible : s.Possible ops) : (s.afterAll ops).Rooted := by
  induction ops generalizing s with
  | nil => exact h
  | cons op ops ih => exact ih (h.after possible.1) possible.2

-- ==== Reading

/-- Reading some hops out is reading in the frame that the hops lead to. -/
theorem getAt_of_ancestor (h : s.ancestor ρ hops = .ok a) : s.getAt ρ hops x = s.get a x := by
  unfold getAt
  rw [h]

/-- What is read in a frame depends on what it binds the name to. -/
theorem get_congr (h : t.lookup? ρ x = s.lookup? ρ x) : t.get ρ x = s.get ρ x := by
  unfold get
  rw [h]

/-- The store `t` is `s` but for the value of one name in one frame, which bound the name before. No
frame comes to bind a name that it did not. -/
structure Replaced (s : Store) (ref : FrameRef) (name : Bytes) (v : Value) (t : Store) : Prop where
  before : s.Binds ref name
  now : t.lookup? ref name = some v
  others : ∀ ρ x, ¬(ρ = ref ∧ x = name) → t.lookup? ρ x = s.lookup? ρ x
  parents : ∀ ρ, t.parent? ρ = s.parent? ρ
  size : t.frames.size = s.frames.size

/-- Defining a name again in a frame that binds it replaces the value. -/
theorem replaced_define (h : s.Binds ref name) : s.Replaced ref name v (s.define ref name v) where
  before := h
  now := by rw [lookup?_define (lt_of_binds h), if_pos ⟨rfl, rfl⟩]
  others _ _ := lookup?_define_of_ne
  parents _ := parent?_define
  size := size_define

namespace Replaced

/-- Hops lead where they led. -/
theorem ancestor (h : s.Replaced ref name v t) : t.ancestor ρ hops = s.ancestor ρ hops :=
  ancestor_congr h.parents ρ hops

/-- Whoever comes to the frame reads the new value. -/
theorem getAt (h : s.Replaced a name v t) (hancestor : s.ancestor ρ hops = .ok a) :
    t.getAt ρ hops name = .ok v := by
  rw [getAt_of_ancestor (h.ancestor.trans hancestor), Store.get, h.now]

/-- Elsewhere the same is read as before, be it a value or a fault. -/
theorem getAt_of_ne (h : s.Replaced ref name v t)
    (hne : ¬(x = name ∧ s.ancestor ρ hops = .ok ref)) : t.getAt ρ hops x = s.getAt ρ hops x := by
  cases hancestor : s.ancestor ρ hops with
  | error fault => simp only [Store.getAt, h.ancestor, hancestor]
  | ok b =>
      have helse : ¬(b = ref ∧ x = name) := by
        rintro ⟨rfl, rfl⟩
        exact hne ⟨rfl, hancestor⟩
      rw [getAt_of_ancestor (h.ancestor.trans hancestor), getAt_of_ancestor hancestor,
        get_congr (h.others b x helse)]

/-- The new value is read as long as it is not replaced, also from a frame that was added later. -/
theorem getAt_afterAll (h : s.Replaced a name v t)
    (hancestor : (t.afterAll ops).ancestor ρ hops = .ok a) (spared : t.Spares a name ops) :
    (t.afterAll ops).getAt ρ hops name = .ok v := by
  rw [getAt_of_ancestor hancestor, get_congr (lookup?_afterAll spared), Store.get, h.now]

/-- Later too, any other binding that is not written since is read as before. -/
theorem getAt_afterAll_of_ne (h : s.Replaced ref name v t)
    (hancestor : (t.afterAll ops).ancestor ρ hops = .ok a) (hne : ¬(a = ref ∧ x = name))
    (spared : t.Spares a x ops) : (t.afterAll ops).getAt ρ hops x = s.get a x := by
  rw [getAt_of_ancestor hancestor, get_congr (lookup?_afterAll spared),
    get_congr (h.others a x hne)]

end Replaced

/-- Frames form a tree, and hops address them exactly. Whatever was done to frames before, those
around a frame are the frame that it was added under and those around that one. They stay the same and
end with the global frame. Hops lead to one of them if there are enough, and otherwise the fault tells
the hops and how many frames there are. A frame binds the names that were defined in it.

An assignment is made exactly if the hops lead to a frame that binds the name itself, and otherwise
nothing happens. If it is made, one value in one frame is replaced. So whoever comes to that frame
later, from whatever frame, reads the new value, and all other bindings are read as before. -/
theorem frames_addressed_by_hops (ops : List Operation) (possible : initial.Possible ops) :
    let s := initial.afterAll ops
    (s.Around global [] ∧ ∀ f < s.frames.size, ∃ outer : List FrameRef,
      (f :: outer).getLast? = some global ∧
      (∀ later around, (s.afterAll later).Around f around ↔ around = outer) ∧
      (s.after (.extend f)).Around s.nextRef (f :: outer) ∧
      ∀ hops : Int,
        ((∃ a, s.ancestor f hops = .ok a) ↔ hops.toNat ≤ outer.length) ∧
        (¬hops.toNat ≤ outer.length → s.ancestor f hops = .error (.tooFar hops outer.length)) ∧
        ∀ a, s.ancestor f hops = .ok a → (f :: outer)[hops.toNat]? = some a) ∧
    (∀ ref x, s.Binds ref x ↔ ∃ v, .define ref x v ∈ ops) ∧
    (∀ op fault, s.perform op = .error fault → s.after op = s) ∧
    ∀ f hops name v,
      s.assign f name v = s.assignAt f 0 name v ∧
      ((∃ t, s.assignAt f hops name v = .ok t) ↔
        ∃ a, s.ancestor f hops = .ok a ∧ s.Binds a name) ∧
      ∀ t, s.assignAt f hops name v = .ok t → ∃ a, s.ancestor f hops = .ok a ∧
        s.Replaced a name v t ∧
        (∀ f' hops' name',
          (name' = name ∧ s.ancestor f' hops' = s.ancestor f hops →
            t.getAt f' hops' name' = .ok v) ∧
          (¬(name' = name ∧ s.ancestor f' hops' = s.ancestor f hops) →
            t.getAt f' hops' name' = s.getAt f' hops' name') ∧
          (s.getAt f' hops' name' ≠ .ok v →
            (t.getAt f' hops' name' = .ok v ↔
              name' = name ∧ s.ancestor f' hops' = s.ancestor f hops))) ∧
        ∀ later f' hops' name' a', (t.afterAll later).ancestor f' hops' = .ok a' →
          t.Spares a' name' later →
          (a' = a ∧ name' = name → (t.afterAll later).getAt f' hops' name' = .ok v) ∧
          (¬(a' = a ∧ name' = name) →
            (t.afterAll later).getAt f' hops' name' = s.get a' name') := by
  intro s
  have rooted : s.Rooted := rooted_initial.afterAll possible
  refine ⟨⟨?_, fun f hlt => ?_⟩, fun ref x => ?_, fun op fault hfault => ?_,
    fun f hops name v => ⟨assign_eq_assignAt, ?_, fun t ht => ?_⟩⟩
  · have start : initial.Around global [] := .root Nat.one_pos rfl
    exact start.kept ((Kept.refl initial).afterAll ops)
  · obtain ⟨outer, around, hlast⟩ := rooted f hlt
    refine ⟨outer, hlast, fun later around' => ?_, around.extend, fun hops => ?_⟩
    · have kept := around.kept ((Kept.refl s).afterAll later)
      exact ⟨kept.unique, fun h => h ▸ kept⟩
    · rcases around.ancestor_cases hops with ⟨a, hle, hget, hok⟩ | ⟨hgt, herror⟩
      · refine ⟨iff_of_true ⟨a, hok⟩ hle, fun hgt => absurd hle hgt, fun b hb => ?_⟩
        rw [hget, Except.ok.inj (hok.symm.trans hb)]
      · refine ⟨iff_of_false ?_ (Nat.not_le_of_lt hgt), fun _ => herror, fun b hb => ?_⟩
        · rintro ⟨b, hb⟩
          cases herror.symm.trans hb
        · cases herror.symm.trans hb
  · rw [binds_afterAll possible]
    exact or_iff_right not_binds_initial
  · simp only [after, hfault]
  · constructor
    · rintro ⟨t, ht⟩
      obtain ⟨a, hancestor, hbinds, -⟩ := assignAt_eq_ok_iff.mp ht
      exact ⟨a, hancestor, hbinds⟩
    · rintro ⟨a, hancestor, hbinds⟩
      exact ⟨_, assignAt_eq_ok_iff.mpr ⟨a, hancestor, hbinds, rfl⟩⟩
  · obtain ⟨a, hancestor, hbinds, rfl⟩ := assignAt_eq_ok_iff.mp ht
    have replaced := replaced_define (v := v) hbinds
    refine ⟨a, hancestor, replaced, fun f' hops' name' => ?_,
      fun later f' hops' name' a' h spared => ⟨?_, fun hne => ?_⟩⟩
    · rw [hancestor]
      have same : name' = name ∧ s.ancestor f' hops' = .ok a →
          (s.define a name v).getAt f' hops' name' = .ok v := by
        rintro ⟨rfl, h⟩
        exact replaced.getAt h
      refine ⟨same, replaced.getAt_of_ne, fun hnew => ⟨fun hread => ?_, same⟩⟩
      refine Classical.byContradiction fun hne => hnew ?_
      exact (replaced.getAt_of_ne hne).symm.trans hread
    · rintro ⟨rfl, rfl⟩
      exact replaced.getAt_afterAll h spared
    · exact replaced.getAt_afterAll_of_ne h hne spared

/-- Two frames lead to the global one in different ways. The value that is assigned there through
the one is read through the other, and from a frame that is added below it. The name in the frame
between keeps its value. -/
theorem frames_addressed_by_hops_shared :
    let a := utf8 "a"
    let ops : List Operation :=
      [.define 0 a (.bool true), .extend 0, .define 1 a (.bool false), .extend 1, .extend 0]
    let s := initial.afterAll ops
    initial.Possible ops ∧
      ∃ t, s.assignAt 2 2 a .nil = .ok t ∧ t.getAt 3 1 a = .ok .nil ∧
        t.getAt 2 1 a = .ok (.bool false) ∧ (t.after (.extend 3)).getAt 4 2 a = .ok .nil := by
  intro a ops s
  have possible : initial.Possible ops :=
    ⟨by decide, by decide, by decide, by decide, by decide, trivial⟩
  obtain ⟨-, hbinds, -, assigns⟩ := frames_addressed_by_hops ops possible
  have bound : s.Binds 0 a := (hbinds 0 a).mpr ⟨.bool true, List.mem_cons_self⟩
  obtain ⟨-, hmade, reads⟩ := assigns 2 2 a .nil
  obtain ⟨t, ht⟩ := hmade.mpr ⟨0, rfl, bound⟩
  obtain ⟨b, hb, replaced, now, later⟩ := reads t ht
  obtain rfl : 0 = b := Except.ok.inj hb
  refine ⟨possible, t, ht, (now 3 1 a).1 ⟨rfl, rfl⟩, ?_, ?_⟩
  · refine ((now 2 1 a).2.1 ?_).trans rfl
    rintro ⟨-, h⟩
    cases h
  · obtain rfl : s.define 0 a .nil = t := Except.ok.inj ht
    have spared : Spares (s.define 0 a .nil) 0 a [.extend 3] := ⟨fun _ h => (by cases h), trivial⟩
    exact (later [.extend 3] 4 2 a 0 rfl spared).1 ⟨rfl, rfl⟩

end Store

end Lox
