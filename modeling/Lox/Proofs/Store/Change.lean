/-
Frames after a change.

A store only ever changes in two ways: a name is bound in a frame, or a frame is added. What the
frames bind, and what their parents are, is said here for both, so that no later proof has to look
into the array of frames.

- Binding a name changes what this frame binds this name to, and nothing else (`lookup?_define`,
  `parent?_define`). Nothing is bound in a frame that is not there (`lookup?_define_of_le`).
- Adding a frame leaves all bindings as they are (`lookup?_add`), and the new frame has the parent
  that it was given (`parent?_add`).

Hops lead to the same frame as long as the parents are the same (`ancestor_congr`).

A property of values that all bound values have, `Store.All`, is kept where only values that have it
are bound: by a binding (`All.define`), by a new frame (`All.add`) and by the parameters of a call
(`All.bindParams`), and what is read from a store then has it too (`All.get`, `All.readName`).
-/
import Lox.Machine

namespace Lox

namespace Store

variable {s t : Store} {ref ρ : FrameRef} {name x : Bytes} {v : Value}

/-- What frames bind after a name has been bound in one of them. -/
theorem lookup?_define (h : ref < s.frames.size) :
    (s.define ref name v).lookup? ρ x =
      if ρ = ref ∧ x = name then some v else s.lookup? ρ x := by
  unfold define lookup?
  rw [Array.getElem?_modify]
  by_cases hρ : ref = ρ
  · subst hρ
    simp [Array.getElem?_eq_getElem h, Table.lookup_set]
  · have hne : ¬(ρ = ref ∧ x = name) := fun h => hρ h.1.symm
    simp [hρ, hne]

/-- Nothing is bound in a frame that is not there. -/
theorem lookup?_define_of_le (h : s.frames.size ≤ ref) :
    (s.define ref name v).lookup? ρ x = s.lookup? ρ x := by
  unfold define lookup?
  rw [Array.getElem?_modify]
  split
  next hρ =>
    subst hρ
    simp [Array.getElem?_eq_none h]
  next => rfl

/-- Elsewhere nothing changes, whether or not the frame is there. -/
theorem lookup?_define_of_ne (h : ¬(ρ = ref ∧ x = name)) :
    (s.define ref name v).lookup? ρ x = s.lookup? ρ x := by
  by_cases hlt : ref < s.frames.size
  · rw [lookup?_define hlt, if_neg h]
  · exact lookup?_define_of_le (Nat.le_of_not_lt hlt)

/-- Binding a name changes no parent. -/
@[simp] theorem parent?_define : (s.define ref name v).parent? ρ = s.parent? ρ := by
  unfold define parent?
  rw [Array.getElem?_modify]
  split <;> cases s.frames[ρ]? <;> rfl

@[simp] theorem size_define : (s.define ref name v).frames.size = s.frames.size := by
  simp [define]

/-- A new frame binds nothing, and the others what they did. -/
@[simp] theorem lookup?_add {parent : Option FrameRef} :
    (s.add parent).lookup? ρ x = s.lookup? ρ x := by
  unfold add lookup?
  rw [Array.getElem?_push]
  split
  next h => subst h; simp
  next => rfl

/-- The parents after a frame has been added. -/
theorem parent?_add {parent : Option FrameRef} :
    (s.add parent).parent? ρ = if ρ = s.nextRef then parent else s.parent? ρ := by
  unfold add parent? nextRef
  rw [Array.getElem?_push]
  split <;> rfl

@[simp] theorem size_add {parent : Option FrameRef} :
    (s.add parent).frames.size = s.frames.size + 1 := by
  simp [add]

/-- A frame that binds a name or has a parent is in the store. -/
theorem lt_of_parent? {ρ' : FrameRef} (h : s.parent? ρ = some ρ') : ρ < s.frames.size := by
  unfold parent? at h
  cases hf : s.frames[ρ]? with
  | none => simp [hf] at h
  | some f => exact (Array.getElem?_eq_some_iff.mp hf).1

/-- A frame that is not there binds nothing. -/
theorem lookup?_of_le (h : s.frames.size ≤ ρ) : s.lookup? ρ x = none := by
  simp [lookup?, Array.getElem?_eq_none h]

-- ==== Where hops lead

/-- Climbing looks at parents alone. -/
theorem climb_congr (h : ∀ ρ, t.parent? ρ = s.parent? ρ) (hops : Nat) (ρ : FrameRef) :
    t.climb hops ρ = s.climb hops ρ := by
  induction hops generalizing ρ with
  | zero => rfl
  | succ hops ih => simp only [climb, h, ih]

/-- Where hops lead depends on the parents only. -/
theorem ancestor_congr (h : ∀ ρ, t.parent? ρ = s.parent? ρ) (ρ : FrameRef) (hops : Int) :
    t.ancestor ρ hops = s.ancestor ρ hops := by
  unfold ancestor
  rw [climb_congr h]

-- ==== What holds of all bound values

/-- All values that the frames bind have the property. -/
def All (P : Value → Prop) (s : Store) : Prop := ∀ ref x v, s.lookup? ref x = some v → P v

namespace All

variable {P : Value → Prop}

/-- Nothing is bound at the start. -/
theorem initial : Store.initial.All P := by
  intro ref x v hv
  unfold Store.initial lookup? at hv
  cases ref <;> simp at hv

/-- Binding a value that has the property keeps it. -/
theorem define (h : s.All P) (hv : P v) : (s.define ref name v).All P := by
  intro ρ x w hw
  by_cases hlt : ref < s.frames.size
  · rw [lookup?_define hlt] at hw
    split at hw
    next => exact Option.some.inj hw ▸ hv
    next => exact h ρ x w hw
  · rw [lookup?_define_of_le (Nat.le_of_not_lt hlt)] at hw
    exact h ρ x w hw

/-- A new frame binds nothing, so it keeps all properties. -/
theorem add (h : s.All P) (parent : Option FrameRef) : (s.add parent).All P :=
  fun ρ x w hw => h ρ x w (lookup?_add ▸ hw)

/-- Binding arguments that have the property keeps it, by induction over the parameters. -/
theorem bindParams (h : s.All P) (params : List Token) {args : List Value}
    (hargs : ∀ v ∈ args, P v) : (Machine.bindParams s ref params args).All P := by
  have hpairs : ∀ pair ∈ params.zip args, P pair.2 :=
    fun pair hpair => hargs _ (List.of_mem_zip hpair).2
  unfold Machine.bindParams
  generalize params.zip args = pairs at hpairs
  induction pairs generalizing s with
  | nil => exact h
  | cons pair pairs ih =>
      obtain ⟨hfirst, hrest⟩ := List.forall_mem_cons.mp hpairs
      exact ih (h.define hfirst) hrest

/-- What a frame binds a name to has the property. -/
theorem get (h : s.All P) (hget : s.get ref name = .ok v) : P v := by
  unfold Store.get at hget
  split at hget
  next hlookup => exact Except.ok.inj hget ▸ h ref name _ hlookup
  next => cases hget

/-- What a name is read as has the property, whether it is found by hops or among the globals. -/
theorem readName {host : Host} {id : Nat} {name : Token} {env : FrameRef} (h : s.All P)
    (hread : Machine.readName host s id name env = .ok v) : P v := by
  unfold Machine.readName Store.getAt at hread
  split at hread
  next =>
    split at hread
    next => exact h.get hread
    next => cases hread
  next => exact h.get hread

end All

end Store

end Lox
