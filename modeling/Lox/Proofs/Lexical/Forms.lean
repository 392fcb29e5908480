/-
Running programs with blocks added.

# Empty scopes

Two lexical machines run a program and the same program with blocks added around statements in it. A
block around a statement opens a scope that stays empty. So the scopes of the second machine are
those of the first with empty ones put in (`Spread`); cells are made at the same places, and a name
is found in the same cell. Functions keep scopes and code that are related in the same way. Where a
name is declared the innermost scopes have to be the same (`Level`), and a statement around which a
block was added declares nothing.

# More steps

The second machine takes more steps. It steps into an added block, and it comes out of one when the
statement in it is done, or when a return or a fault passes. What waits on its stack for that is a
sequence with no statements left, and it only ever lies where a statement is waited for and not a
value (`Waits`). So for each step of the first machine the second takes one step or more
(`Machine.Padded.step`): one for the same thing, and before it those into the blocks around a
statement (`execStep_padded`) or out of them (`step_done`). The number of steps is left open
(`CatchesUp`).

# Runs

By induction the second machine comes, for any number of steps of the first, to where it runs what
the first runs (`Padded.iterate`). If the first has ended, then the second has nothing left but to
come out of blocks, and does so (`Padded.settle`). In the end both have printed the same and ended
in the same way (`Padded.run`).
-/
import Lox.Proofs.Lexical.Refines
import Lox.Proofs.Tree.Padded
import Lox.Proofs.Value.Alike
import Mathlib.Data.List.Forall2
import Mathlib.Logic.Function.Iterate

namespace Lox

open Lexical (CellRef Scopes Cells)

-- ==== Values

/-- The second code is the first with blocks added. -/
structure Code.Padded (code code' : Code) : Prop where
  name : code'.name = code.name
  params : code'.params = code.params
  body : Stmt.PaddedAll code.body code'.body

/-- The second function is the first with blocks added to its code, and with empty scopes put in. -/
structure Closure.Padded (f g : Closure Scopes) : Prop where
  ident : g.ident = f.ident
  code : Option.Rel Code.Padded f.code g.code
  env : Spread f.env g.env

/-- A function is itself with no blocks added. -/
theorem Closure.Padded.refl (f : Closure Scopes) : f.Padded f := by
  refine ⟨rfl, ?_, .refl f.env⟩
  cases f.code with
  | none => exact .none
  | some code => exact .some ⟨rfl, rfl, .refl code.body⟩

/-- To operators, a function with blocks added is the same. -/
theorem Closure.Padded.same {f g : Closure Scopes} (h : f.Padded g) : f.Same g := by
  obtain ⟨ident, code, env⟩ := f
  obtain ⟨ident', code', env'⟩ := g
  obtain ⟨hident, hcode, -⟩ := h
  cases hcode with
  | none => exact ⟨hident, rfl, rfl⟩
  | some h =>
      refine ⟨hident, ?_, ?_⟩
      · simp only [Closure.name, h.name]
      · simp only [Closure.arity, h.params]

/-- The same values, but for functions with blocks added. -/
abbrev Value.Padded (v v' : Value Scopes) : Prop := Value.Alike Closure.Padded v v'

/-- A value is itself with no blocks added. -/
theorem Value.Padded.refl (v : Value Scopes) : v.Padded v := by
  cases v with
  | nil => exact .nil
  | bool b => exact .bool b
  | number x => exact .number x
  | string s => exact .string s
  | function f => exact .function (.refl f)
  | native f => exact .native f
  | void => exact .void
  | foreign f => exact .foreign f

-- ==== Cells

/-- Empty scopes do not matter for where a name is found. -/
theorem Spread.find?_eq {scopes scopes' : Scopes} (h : Spread scopes scopes') (name : Bytes) :
    scopes'.find? name = scopes.find? name := by
  induction h with
  | nil => rfl
  | cons names rest ih => rw [Scopes.find?, Scopes.find?, ih]
  | pad rest ih => rw [Scopes.find?, ih, List.lookup_nil, Option.none_or]

namespace Lexical.Cells

/-- The same cells, with values that are the same but for blocks added. Blocks make no cells, so
each cell of one memory is the cell of the other at the same place. -/
structure Padded (mem mem' : Cells) : Prop where
  size : mem'.slots.size = mem.slots.size
  cells : ∀ ref, Option.Rel Value.Padded (mem.cell? ref) (mem'.cell? ref)
  globals : ∀ name, Option.Rel Value.Padded (mem.globals.lookup name) (mem'.globals.lookup name)
  issued : mem'.issued = mem.issued

/-- A new cell holds nothing. -/
theorem cell?_push (mem : Cells) (ref : CellRef) :
    cell? { mem with slots := mem.slots.push none } ref = mem.cell? ref := by
  unfold cell?
  rw [Array.getElem?_push]
  split
  next h => simp [h]
  next => rfl

theorem rel_refl (a : Option (Value Scopes)) : Option.Rel Value.Padded a a := by
  cases a with
  | none => exact .none
  | some v => exact .some (.refl v)

theorem Padded.refl (mem : Cells) : mem.Padded mem :=
  ⟨rfl, fun _ => rel_refl _, fun _ => rel_refl _, rfl⟩

namespace Padded

variable {mem mem' : Cells} {scopes scopes' : Scopes} {v v' : Value Scopes} {name : Bytes}

/-- A name has related values in both memories, or none in either. -/
theorem value? (h : mem.Padded mem') (hs : Spread scopes scopes') (name : Bytes) :
    Option.Rel Value.Padded (mem.value? scopes name) (mem'.value? scopes' name) := by
  unfold Cells.value?
  rw [hs.find?_eq]
  cases scopes.find? name with
  | none => exact h.globals name
  | some ref => exact h.cells ref

/-- The same cell is set. -/
theorem setCell (h : mem.Padded mem') (ref : CellRef) (hv : v.Padded v') :
    (mem.setCell ref v).Padded (mem'.setCell ref v') := by
  refine ⟨?_, fun c => ?_, h.globals, h.issued⟩
  · simp only [Cells.setCell, Array.size_setIfInBounds, h.size]
  · by_cases hlt : ref < mem.slots.size
    · rw [cell?_setCell hlt, cell?_setCell (h.size ▸ hlt)]
      split
      · exact .some hv
      · exact h.cells c
    · have hle : mem.slots.size ≤ ref := Nat.not_lt.mp hlt
      have hle' : mem'.slots.size ≤ ref := h.size ▸ hle
      simp only [Cells.setCell, Array.setIfInBounds_eq_of_size_le, hle, hle']
      exact h.cells c

/-- The same global is set. -/
theorem setGlobal (h : mem.Padded mem') (name : Bytes) (hv : v.Padded v') :
    (mem.setGlobal name v).Padded (mem'.setGlobal name v') := by
  refine ⟨h.size, h.cells, fun x => ?_, h.issued⟩
  rw [lookup_setGlobal, lookup_setGlobal]
  split
  · exact .some hv
  · exact h.globals x

/-- A declaration makes the same cell. -/
theorem declare (h : mem.Padded mem') (hs : Level scopes scopes') (name : Bytes) :
    Level (mem.declare scopes name).1 (mem'.declare scopes' name).1 ∧
      (mem.declare scopes name).2.Padded (mem'.declare scopes' name).2 := by
  cases hs with
  | nil => exact ⟨.nil, h⟩
  | cons names rest =>
      unfold Cells.declare
      dsimp only
      cases names.lookup name with
      | some ref => exact ⟨.cons names rest, h⟩
      | none =>
          rw [h.size]
          refine ⟨.cons _ rest, ?_, fun ref => ?_, h.globals, h.issued⟩
          · simp only [Array.size_push, h.size]
          · rw [cell?_push, cell?_push]
            exact h.cells ref

/-- A name is set in the same cell. -/
theorem define (h : mem.Padded mem') (hs : Level scopes scopes') (name : Bytes)
    (hv : v.Padded v') : (mem.define scopes name v).Padded (mem'.define scopes' name v') := by
  cases hs with
  | nil => exact h.setGlobal name hv
  | cons names rest =>
      unfold Cells.define
      dsimp only
      cases names.lookup name with
      | some ref => exact h.setCell ref hv
      | none => exact h

theorem issue (h : mem.Padded mem') :
    Cells.Padded { mem with issued := mem.issued + 1 } { mem' with issued := mem'.issued + 1 } :=
  ⟨h.size, h.cells, h.globals, congrArg (· + 1) h.issued⟩

/-- Parameters are put in the innermost scope, one after the other. -/
theorem bindParams (h : mem.Padded mem') (hs : Level scopes scopes') (params : List Token)
    {args args' : List (Value Scopes)} (hargs : List.Forall₂ Value.Padded args args') :
    Level (mem.bindParams scopes (params.zip args)).1
        (mem'.bindParams scopes' (params.zip args')).1 ∧
      (mem.bindParams scopes (params.zip args)).2.Padded
        (mem'.bindParams scopes' (params.zip args')).2 := by
  induction params generalizing mem mem' scopes scopes' args args' with
  | nil => exact ⟨hs, h⟩
  | cons param params ih =>
      cases hargs with
      | nil => exact ⟨hs, h⟩
      | cons first rest =>
          obtain ⟨hlevel, hmem⟩ := h.declare hs param.lexeme
          exact ih (hmem.define hlevel param.lexeme first) hlevel rest

end Padded

end Lexical.Cells

-- ==== What waits

/-- Work of the second machine beside work of the first. With `true` a statement is waited for, which
hands over nil, and with `false` a value. Only where a statement is waited for may the second machine
have to come out of a block that was added. -/
inductive Waits : Bool → List (Pending Scopes) → List (Pending Scopes) → Prop where
  | nil : Waits true [] []
  | unary (id id' : Nat) (operator : Token) {K K' : List (Pending Scopes)}
      (below : Waits false K K') : Waits false (.unary id operator :: K) (.unary id' operator :: K')
  | left (id id' : Nat) (operator : Token) {e e' : Expr} {σ σ' : Scopes}
      {K K' : List (Pending Scopes)} (operand : e.Like e') (scopes : Spread σ σ')
      (below : Waits false K K') :
      Waits false (.left id operator e σ :: K) (.left id' operator e' σ' :: K')
  | right (id id' : Nat) (operator : Token) {v v' : Value Scopes} {K K' : List (Pending Scopes)}
      (operand : v.Padded v') (below : Waits false K K') :
      Waits false (.right id operator v :: K) (.right id' operator v' :: K')
  | decide (operator : Token) {e e' : Expr} {σ σ' : Scopes} {K K' : List (Pending Scopes)}
      (operand : e.Like e') (scopes : Spread σ σ') (below : Waits false K K') :
      Waits false (.decide operator e σ :: K) (.decide operator e' σ' :: K')
  | assign (id id' : Nat) (name : Token) {σ σ' : Scopes} {K K' : List (Pending Scopes)}
      (scopes : Spread σ σ') (below : Waits false K K') :
      Waits false (.assign id name σ :: K) (.assign id' name σ' :: K')
  | callee (id id' : Nat) (paren : Token) {es es' : List Expr} {σ σ' : Scopes}
      {K K' : List (Pending Scopes)} (arguments : Expr.LikeAll es es') (scopes : Spread σ σ')
      (below : Waits false K K') :
      Waits false (.callee id paren es σ :: K) (.callee id' paren es' σ' :: K')
  | argument (id id' : Nat) (paren : Token) {v v' : Value Scopes} {vs vs' : List (Value Scopes)}
      {es es' : List Expr} {σ σ' : Scopes} {K K' : List (Pending Scopes)} (called : v.Padded v')
      (before : List.Forall₂ Value.Padded vs vs') (rest : Expr.LikeAll es es')
      (scopes : Spread σ σ') (below : Waits false K K') :
      Waits false (.argument id paren v vs es σ :: K) (.argument id' paren v' vs' es' σ' :: K')
  | invoked {K K' : List (Pending Scopes)} (below : Waits false K K') :
      Waits true (.invoked :: K) (.invoked :: K')
  | discard {K K' : List (Pending Scopes)} (below : Waits true K K') :
      Waits false (.discard :: K) (.discard :: K')
  | print {K K' : List (Pending Scopes)} (below : Waits true K K') :
      Waits false (.print :: K) (.print :: K')
  | bind (name : Token) {σ σ' : Scopes} {K K' : List (Pending Scopes)} (scopes : Level σ σ')
      (below : Waits true K K') : Waits false (.bind name σ :: K) (.bind name σ' :: K')
  | sequence {ss ss' : List Stmt} {σ σ' : Scopes} {K K' : List (Pending Scopes)}
      (rest : Stmt.PaddedAll ss ss') (scopes : Level σ σ') (below : Waits true K K') :
      Waits true (.sequence ss σ :: K) (.sequence ss' σ' :: K')
  | choose {s s' t t' : Stmt} {σ σ' : Scopes} {K K' : List (Pending Scopes)}
      (positive : s.Padded s') (negative : t.Padded t') (scopes : Spread σ σ')
      (fits : Level σ σ' ∨ s.Plain ∧ t.Plain) (below : Waits true K K') :
      Waits false (.choose s t σ :: K) (.choose s' t' σ' :: K')
  | loopTest {e e' : Expr} {s s' : Stmt} {σ σ' : Scopes} {K K' : List (Pending Scopes)}
      (condition : e.Like e') (body : s.Padded s') (scopes : Spread σ σ')
      (fits : Level σ σ' ∨ s.Plain) (below : Waits true K K') :
      Waits false (.loopTest e s σ :: K) (.loopTest e' s' σ' :: K')
  | loopBody {e e' : Expr} {s s' : Stmt} {σ σ' : Scopes} {K K' : List (Pending Scopes)}
      (condition : e.Like e') (body : s.Padded s') (scopes : Spread σ σ')
      (fits : Level σ σ' ∨ s.Plain) (below : Waits true K K') :
      Waits true (.loopBody e s σ :: K) (.loopBody e' s' σ' :: K')
  | result {K K' : List (Pending Scopes)} (below : Waits true K K') :
      Waits false (.result :: K) (.result :: K')
  /-- A block that was added is to be left. -/
  | pad (τ : Scopes) {K K' : List (Pending Scopes)} (below : Waits true K K') :
      Waits true K (.sequence [] τ :: K')

/-- Blocks that were added lie on top of the rest, which is there just if there is work of the first
machine. -/
theorem Waits.peel {b : Bool} {K K' : List (Pending Scopes)} (h : Waits b K K') :
    ∃ (pads : List Scopes) (L : List (Pending Scopes)),
      K' = pads.map (.sequence []) ++ L ∧ Waits b K L ∧ (L = [] ↔ K = []) := by
  induction h with
  | nil => exact ⟨[], [], rfl, .nil, Iff.rfl⟩
  | pad τ below ih =>
      obtain ⟨pads, L, hK, hL, hnil⟩ := ih
      exact ⟨τ :: pads, L, congrArg (_ :: ·) hK, hL, hnil⟩
  | _ => exact ⟨[], _, rfl, by constructor <;> assumption, by simp⟩

/-- What the second machine does beside the first, and what waits for it. It is at the same thing,
though blocks may be around it; a statement that declares a name has the same innermost scope on
both sides. -/
inductive Control.Padded : Control Scopes → Control Scopes → List (Pending Scopes) →
    List (Pending Scopes) → Prop where
  | eval {e e' : Expr} {σ σ' : Scopes} {K K' : List (Pending Scopes)} (like : e.Like e')
      (scopes : Spread σ σ') (waits : Waits false K K') :
      Control.Padded (.eval e σ) (.eval e' σ') K K'
  | exec {s s' : Stmt} {σ σ' : Scopes} {K K' : List (Pending Scopes)} (padded : s.Padded s')
      (scopes : Spread σ σ') (fits : Level σ σ' ∨ s.Plain) (waits : Waits true K K') :
      Control.Padded (.exec s σ) (.exec s' σ') K K'
  | value {v v' : Value Scopes} {K K' : List (Pending Scopes)} (padded : v.Padded v')
      (waits : Waits false K K') : Control.Padded (.yield v) (.yield v') K K'
  | done {K K' : List (Pending Scopes)} (waits : Waits true K K') :
      Control.Padded (.yield .nil) (.yield .nil) K K'
  | leave {b : Bool} {v v' : Value Scopes} {K K' : List (Pending Scopes)} (padded : v.Padded v')
      (waits : Waits b K K') : Control.Padded (.leave v) (.leave v') K K'
  | fail {b : Bool} (f : Fault) {K K' : List (Pending Scopes)} (waits : Waits b K K') :
      Control.Padded (.fail f) (.fail f) K K'

/-- If work is left on both sides or on neither, both have ended alike. -/
theorem Control.close_congr {c c' : Control Scopes} {K K' : List (Pending Scopes)}
    (hnil : K' = [] ↔ K = []) (h : c.Padded c' K K') : c'.close K' = c.close K := by
  cases K with
  | nil =>
      obtain rfl := hnil.mpr rfl
      cases h <;> rfl
  | cons p K =>
      cases K' with
      | nil => cases hnil.mp rfl
      | cons p' K' => cases h <;> rfl

namespace Lexical.Machine

/-- The second machine runs with blocks added what the first runs. -/
inductive Padded : Machine → Machine → Prop where
  | mk {c c' : Control Scopes} {K K' : List (Pending Scopes)} {mem mem' : Cells}
      (doing : c.Padded c' K K') (memory : mem.Padded mem') (sink : Sink) (depth calls : Nat) :
      Padded ⟨c, K, mem, sink, depth, calls⟩ ⟨c', K', mem', sink, depth, calls⟩

-- ==== Steps

section Steps

variable {K K' : List (Pending Scopes)} {mem mem' : Cells} {σ σ' : Scopes} {reading : Nat → Float}
variable {v v' : Value Scopes} {sink : Sink} {depth calls : Nat}

/-- An expression is evaluated in one step on both sides. No blocks are added in an expression, so
the two differ only in the identities of their nodes and in empty scopes around them, and a name is
found in the same cell. -/
theorem evalStep_padded {e e' : Expr} (h : e.Like e') (hs : Spread σ σ') (hk : Waits false K K')
    (hm : mem.Padded mem') :
    (evalStep ⟨.yield .nil, K, mem, sink, depth, calls⟩ e σ).Padded
      (evalStep ⟨.yield .nil, K', mem', sink, depth, calls⟩ e' σ') := by
  cases h with
  | absent => exact .mk (.fail _ hk) hm ..
  | literal id id' value =>
      simp only [evalStep]
      cases (Value.ofLiteral? value : Option (Value Scopes)) with
      | none => exact .mk (.fail _ hk) hm ..
      | some v => exact .mk (.value (.refl v) hk) hm ..
  | grouping id id' inner => exact .mk (.eval inner hs hk) hm ..
  | unary id id' operator operand => exact .mk (.eval operand hs (.unary id id' operator hk)) hm ..
  | binary id id' operator left right =>
      exact .mk (.eval left hs (.left id id' operator right hs hk)) hm ..
  | logical id id' operator left right =>
      exact .mk (.eval left hs (.decide operator right hs hk)) hm ..
  | assign id id' name value => exact .mk (.eval value hs (.assign id id' name hs hk)) hm ..
  | ident id id' name =>
      simp only [evalStep, Cells.read]
      rcases Value.Alike.rel_cases (hm.value? hs name.lexeme) with ⟨v, v', h, h', hv⟩ | ⟨h, h'⟩
      · rw [h, h']
        exact .mk (.value hv hk) hm ..
      · rw [h, h']
        exact .mk (.fail _ hk) hm ..
  | call id id' paren callee arguments =>
      exact .mk (.eval callee hs (.callee id id' paren arguments hs hk)) hm ..

/-- The body of a function is entered. -/
theorem invoke_padded {f g : Closure Scopes} (hf : f.Padded g) (paren : Token)
    {args args' : List (Value Scopes)} (hargs : List.Forall₂ Value.Padded args args')
    (hk : Waits false K K') (hm : mem.Padded mem') :
    (invoke ⟨.yield .nil, K, mem, sink, depth, calls⟩ paren f args).Padded
      (invoke ⟨.yield .nil, K', mem', sink, depth, calls⟩ paren g args') := by
  obtain ⟨ident, code, env⟩ := f
  obtain ⟨ident', code', env'⟩ := g
  obtain ⟨-, hcode, henv⟩ := hf
  unfold invoke
  dsimp only
  split
  · exact .mk (.fail _ hk) hm ..
  · cases hcode with
    | none => exact .mk (.fail _ hk) hm ..
    | some h =>
        dsimp only
        rw [h.params]
        obtain ⟨hlevel, hbound⟩ := hm.bindParams (.cons [] henv) _ hargs
        exact .mk (.done (.sequence h.body hlevel (.invoked hk))) hbound ..

/-- The same is called with the same arguments. A function with blocks added in its body takes as
many parameters, and the host does not see functions at all. -/
theorem apply_padded {f f' : Value Scopes} (hf : f.Padded f') (paren : Token)
    {args args' : List (Value Scopes)} (hargs : List.Forall₂ Value.Padded args args')
    (hk : Waits false K K') (hm : mem.Padded mem') :
    (apply reading ⟨.yield .nil, K, mem, sink, depth, calls⟩ paren f args).Padded
      (apply reading ⟨.yield .nil, K', mem', sink, depth, calls⟩ paren f' args') := by
  unfold apply
  rw [hf.arity? fun _ _ h => h.same, ← hargs.length_eq]
  cases f.arity? with
  | none => exact .mk (.fail _ hk) hm ..
  | some arity =>
      dsimp only
      split
      · exact .mk (.fail _ hk) hm ..
      · cases hf with
        | function related => exact invoke_padded related paren hargs hk hm
        | native f =>
            unfold hostCall
            dsimp only
            split
            · exact .mk (.value (.number _) hk) hm ..
            · exact .mk (.value .nil hk) hm ..
        | _ => exact .mk (.fail _ hk) hm ..

/-- The next argument is evaluated on both sides, or the call is made. -/
theorem passArguments_padded (id id' : Nat) (paren : Token) {f f' : Value Scopes}
    (hf : f.Padded f') {before before' : List (Value Scopes)}
    (hbefore : List.Forall₂ Value.Padded before before') {rest rest' : List Expr}
    (hrest : Expr.LikeAll rest rest') (hs : Spread σ σ') (hk : Waits false K K')
    (hm : mem.Padded mem') :
    (passArguments reading ⟨.yield .nil, K, mem, sink, depth, calls⟩ id paren f before rest σ).Padded
      (passArguments reading ⟨.yield .nil, K', mem', sink, depth, calls⟩ id' paren f' before' rest'
        σ') := by
  cases hrest with
  | nil => exact apply_padded hf paren (List.rel_reverse hbefore) hk hm
  | cons first rest =>
      exact .mk (.eval first hs (.argument id id' paren hf hbefore rest hs hk)) hm ..

/-- Both operators come to related values, or to the same fault. -/
theorem settle_padded {r r' : Except Fault (Value Scopes)} (h : Settles Closure.Padded 0 r r')
    (hk : Waits false K K') : (Control.settle r).Padded (.settle r') K K' := by
  cases h with
  | ok alike => exact .value alike hk
  | error f =>
      rw [Fault.moved_zero]
      exact .fail f hk

/-- The same cell or the same global is assigned to, or the name is undefined. -/
theorem assign_padded (hv : v.Padded v') (name : Token) (hs : Spread σ σ') (hk : Waits false K K')
    (hm : mem.Padded mem') (id id' : Nat) :
    (step reading ⟨.yield v, .assign id name σ :: K, mem, sink, depth, calls⟩).Padded
      (step reading ⟨.yield v', .assign id' name σ' :: K', mem', sink, depth, calls⟩) := by
  simp only [step, resumeStep, Cells.assign]
  rw [Value.Alike.isSome_of_rel (hm.value? hs name.lexeme), hs.find?_eq]
  by_cases h : (mem.value? σ name.lexeme).isSome
  · rw [if_pos h, if_pos h]
    cases σ.find? name.lexeme with
    | none => exact .mk (.value hv hk) (hm.setGlobal name.lexeme hv) ..
    | some ref => exact .mk (.value hv hk) (hm.setCell ref hv) ..
  · rw [if_neg h, if_neg h]
    exact .mk (.fail _ hk) hm ..

/-- A value is handed to work that waits for one, in one step on both sides. Nothing of an added
block lies between, since blocks are only added where a statement is waited for. -/
theorem resumeStep_value (hk : Waits false K K') (hv : v.Padded v') (hm : mem.Padded mem') :
    (step reading ⟨.yield v, K, mem, sink, depth, calls⟩).Padded
      (step reading ⟨.yield v', K', mem', sink, depth, calls⟩) := by
  cases hk with
  | unary id id' operator below =>
      have h := applyUnary_settles operator 0 hv
      rw [Token.moved_zero] at h
      exact .mk (settle_padded h below) hm ..
  | left id id' operator operand scopes below =>
      exact .mk (.eval operand scopes (.right id id' operator hv below)) hm ..
  | right id id' operator operand below =>
      have h := applyBinary_settles (fun _ _ h => h.same) operator 0 operand hv
      rw [Token.moved_zero] at h
      exact .mk (settle_padded h below) hm ..
  | decide operator operand scopes below =>
      simp only [step, resumeStep, hv.isTruthy]
      split
      · exact .mk (.value hv below) hm ..
      · exact .mk (.eval operand scopes below) hm ..
  | assign id id' name scopes below => exact assign_padded hv name scopes below hm id id'
  | callee id id' paren arguments scopes below =>
      exact passArguments_padded id id' paren hv .nil arguments scopes below hm
  | argument id id' paren called before rest scopes below =>
      exact passArguments_padded id id' paren called (.cons hv before) rest scopes below hm
  | discard below => exact .mk (.done below) hm ..
  | print below =>
      simp only [step, resumeStep, hv.display fun _ _ h => h.same]
      cases sink.next? with
      | none => exact .mk (.done below) hm ..
      | some refusal => exact .mk (.fail _ below) hm ..
  | bind name scopes below => exact .mk (.done below) (hm.define scopes name.lexeme hv) ..
  | choose positive negative scopes fits below =>
      simp only [step, resumeStep, hv.isTruthy]
      split
      · exact .mk (.exec positive scopes (fits.imp_right And.left) below) hm ..
      · exact .mk (.exec negative scopes (fits.imp_right And.right) below) hm ..
  | loopTest condition body scopes fits below =>
      simp only [step, resumeStep, hv.isTruthy]
      split
      · exact .mk (.exec body scopes fits (.loopBody condition body scopes fits below)) hm ..
      · exact .mk (.done below) hm ..
  | result below => exact .mk (.leave hv below) hm ..

/-- Both machines declare the same name before a statement. -/
theorem declaring_padded {s s' : Stmt} (h : s.Padded s') (hs : Level σ σ') (hm : mem.Padded mem') :
    Level (declaring mem σ s).1 (declaring mem' σ' s').1 ∧
      (declaring mem σ s).2.Padded (declaring mem' σ' s').2 := by
  unfold declaring
  rw [h.declared?_eq]
  cases s.declared? with
  | none => exact ⟨hs, hm⟩
  | some name => exact hm.declare hs name.lexeme

end Steps

-- ==== Catching up

section Runs

variable {reading : Nat → Float}

/-- The second machine comes, with some steps more, to where it runs what the first runs. -/
def CatchesUp (reading : Nat → Float) (m m' : Machine) : Prop :=
  ∃ k, m.Padded ((step reading)^[k] m')

/-- Where nothing is to be caught up, no step is needed. -/
theorem Padded.catchesUp {m m' : Machine} (h : m.Padded m') : CatchesUp reading m m' := ⟨0, h⟩

/-- One step more to catch up. -/
theorem CatchesUp.before {m m' : Machine} (h : CatchesUp reading m (step reading m')) :
    CatchesUp reading m m' := by
  obtain ⟨k, h⟩ := h
  exact ⟨k + 1, h⟩

variable {K K' : List (Pending Scopes)} {mem mem' : Cells} {σ σ' : Scopes}
variable {sink : Sink} {depth calls : Nat}

/-- Two steps lead into a block around a statement that declares nothing. -/
theorem step_block {id : Nat} {s : Stmt} (h : s.declared? = none) :
    step reading (step reading
        (execStep ⟨.yield .nil, K, mem, sink, depth, calls⟩ (.block id [s]) σ)) =
      execStep ⟨.yield .nil, .sequence [] ([] :: σ) :: K, mem, sink, depth, calls⟩ s ([] :: σ) := by
  simp only [execStep, step, resumeStep, declaring, h]

/-- A statement that the first machine carries out, the second carries out too, once it has stepped
into the blocks around it. -/
theorem execStep_padded : ∀ {s s' : Stmt}, s.Padded s' → ∀ {K' : List (Pending Scopes)} {σ' : Scopes},
    Spread σ σ' → Level σ σ' ∨ s.Plain → Waits true K K' → mem.Padded mem' →
    CatchesUp reading (execStep ⟨.yield .nil, K, mem, sink, depth, calls⟩ s σ)
      (execStep ⟨.yield .nil, K', mem', sink, depth, calls⟩ s' σ')
  | _, _, .absent, _, _, _, _, hk, hm => Padded.catchesUp (.mk (.done hk) hm ..)
  | _, _, .expression _ _ value, _, _, hs, _, hk, hm =>
      Padded.catchesUp (.mk (.eval value hs (.discard hk)) hm ..)
  | _, _, .print _ _ value, _, _, hs, _, hk, hm =>
      Padded.catchesUp (.mk (.eval value hs (.print hk)) hm ..)
  | _, _, .var _ _ name initializer, _, _, hs, fits, hk, hm => by
      have hl := fits.resolve_right fun h => h
      cases initializer with
      | absent => exact Padded.catchesUp (.mk (.done hk) (hm.define hl name.lexeme .nil) ..)
      | _ =>
          refine Padded.catchesUp (.mk (.eval ?_ hs (.bind name hl hk)) hm ..)
          constructor <;> assumption
  | _, _, .block _ _ body, _, _, hs, _, hk, hm =>
      Padded.catchesUp (.mk (.done (.sequence body (.cons [] hs) hk)) hm ..)
  | _, _, .branch _ _ condition positive negative, _, _, hs, fits, hk, hm =>
      Padded.catchesUp (.mk (.eval condition hs (.choose positive negative hs fits hk)) hm ..)
  | _, _, .loop _ _ condition body, _, _, hs, fits, hk, hm =>
      Padded.catchesUp (.mk (.eval condition hs (.loopTest condition body hs fits hk)) hm ..)
  | .function _ _ _ ss, .function _ _ _ ss', .function _ _ name params body, _, σ', hs, fits, hk,
      hm => by
      have hl := fits.resolve_right fun h => h
      have hf : (mem.closure ⟨name, params, ss⟩ σ).1.Padded (mem'.closure ⟨name, params, ss'⟩ σ').1 :=
        ⟨congrArg (· + 1) hm.issued, .some ⟨rfl, rfl, body⟩, hs⟩
      exact Padded.catchesUp (.mk (.done hk) (hm.issue.define hl name.lexeme (.function hf)) ..)
  | _, _, .result _ _ keyword value, _, _, hs, _, hk, hm => by
      cases value with
      | absent => exact Padded.catchesUp (.mk (.leave .nil hk) hm ..)
      | _ =>
          refine Padded.catchesUp (.mk (.eval ?_ hs (.result hk)) hm ..)
          constructor <;> assumption
  | _, _, .wrap id plain inner, K', σ', hs, _, hk, hm => by
      have ih := execStep_padded inner (.pad hs) (.inr plain) (.pad ([] :: σ') hk) hm
      refine CatchesUp.before (CatchesUp.before ?_)
      rw [step_block (inner.declared?_eq.trans plain.declared?)]
      exact ih

/-- When a statement is done, the second machine first comes out of the blocks added around it. -/
theorem step_done : ∀ {K K' : List (Pending Scopes)}, Waits true K K' → mem.Padded mem' →
    CatchesUp reading (step reading ⟨.yield .nil, K, mem, sink, depth, calls⟩)
      (step reading ⟨.yield .nil, K', mem', sink, depth, calls⟩)
  | _, _, .nil, hm => Padded.catchesUp (.mk (.done .nil) hm ..)
  | _, _, .invoked below, hm => Padded.catchesUp (.mk (.value .nil below) hm ..)
  | _, _, .sequence .nil _ below, hm => Padded.catchesUp (.mk (.done below) hm ..)
  | _, _, .sequence (.cons first rest) scopes below, hm => by
      obtain ⟨hlevel, hdeclared⟩ := declaring_padded first scopes hm
      exact Padded.catchesUp
        (.mk (.exec first hlevel.spread (.inl hlevel) (.sequence rest hlevel below)) hdeclared ..)
  | _, _, .loopBody condition body scopes fits below, hm =>
      Padded.catchesUp
        (.mk (.eval condition scopes (.loopTest condition body scopes fits below)) hm ..)
  | _, _, .pad _ below, hm => CatchesUp.before (step_done below hm)

/-- A return passes what waits, up to a call. -/
theorem step_leave {b : Bool} {v v' : Value Scopes} (hk : Waits b K K') (hv : v.Padded v')
    (hm : mem.Padded mem') :
    CatchesUp reading (step reading ⟨.leave v, K, mem, sink, depth, calls⟩)
      (step reading ⟨.leave v', K', mem', sink, depth, calls⟩) := by
  induction hk with
  | nil => exact Padded.catchesUp (.mk (.leave hv .nil) hm ..)
  | invoked below _ => exact Padded.catchesUp (.mk (.value hv below) hm ..)
  | pad _ _ ih => exact CatchesUp.before ih
  | _ => exact Padded.catchesUp (.mk (.leave hv (by assumption)) hm ..)

/-- A fault passes all that waits. -/
theorem step_fail {b : Bool} (f : Fault) (hk : Waits b K K') (hm : mem.Padded mem') :
    CatchesUp reading (step reading ⟨.fail f, K, mem, sink, depth, calls⟩)
      (step reading ⟨.fail f, K', mem', sink, depth, calls⟩) := by
  induction hk with
  | nil => exact Padded.catchesUp (.mk (.fail f .nil) hm ..)
  | invoked below _ => exact Padded.catchesUp (.mk (.fail f below) hm ..)
  | pad _ _ ih => exact CatchesUp.before ih
  | _ => exact Padded.catchesUp (.mk (.fail f (by assumption)) hm ..)

variable (reading)

/-- For a step of the first machine the second takes one step or more. -/
theorem Padded.step {m m' : Machine} (h : m.Padded m') :
    CatchesUp reading (m.step reading) (m'.step reading) := by
  obtain ⟨doing, hm, sink, depth, calls⟩ := h
  cases doing with
  | eval like scopes waits => exact Padded.catchesUp (evalStep_padded like scopes waits hm)
  | exec padded scopes fits waits => exact execStep_padded padded scopes fits waits hm
  | value padded waits => exact Padded.catchesUp (resumeStep_value waits padded hm)
  | done waits => exact step_done waits hm
  | leave padded waits => exact step_leave waits padded hm
  | fail f waits => exact step_fail f waits hm

-- ==== Runs

variable {reading} in
/-- A machine that has ended stays as it is. -/
theorem step_of_isDone {m : Machine} (h : m.isDone = true) : m.step reading = m := by
  obtain ⟨control, stack, memory, sink, depth, calls⟩ := m
  cases stack with
  | nil => cases control <;> first | rfl | cases h
  | cons p stack => cases control <;> cases h

/-- A run is so many steps. -/
theorem run_eq_iterate (m : Machine) (fuel : Nat) :
    m.run reading fuel = (Machine.step reading)^[fuel] m := by
  induction fuel generalizing m with
  | zero => rfl
  | succ fuel ih =>
      rw [run, Function.iterate_succ_apply]
      split
      next hdone =>
        rw [step_of_isDone hdone]
        exact (Function.iterate_fixed (step_of_isDone hdone) fuel).symm
      next => exact ih _

/-- For any number of steps of the first machine the second takes as many or more. -/
theorem Padded.iterate {m m' : Machine} (h : m.Padded m') (n : Nat) :
    ∃ k, n ≤ k ∧ ((Machine.step reading)^[n] m).Padded ((Machine.step reading)^[k] m') := by
  induction n with
  | zero => exact ⟨0, Nat.le_refl 0, h⟩
  | succ n ih =>
      obtain ⟨k, hk, hn⟩ := ih
      obtain ⟨j, hj⟩ := hn.step reading
      refine ⟨j + (k + 1), by omega, ?_⟩
      rw [Function.iterate_succ_apply', Function.iterate_add_apply, Function.iterate_succ_apply']
      exact hj

variable {reading} in
/-- A result, a return and a fault come out of the blocks that were added. -/
theorem iterate_pads {c : Control Scopes}
    (hc : ∀ τ K, Machine.step reading ⟨c, .sequence [] τ :: K, mem, sink, depth, calls⟩ =
      ⟨c, K, mem, sink, depth, calls⟩) (pads : List Scopes) (K : List (Pending Scopes)) :
    (Machine.step reading)^[pads.length] ⟨c, pads.map (.sequence []) ++ K, mem, sink, depth, calls⟩ =
      ⟨c, K, mem, sink, depth, calls⟩ := by
  induction pads with
  | nil => rfl
  | cons τ pads ih =>
      rw [List.length_cons, Function.iterate_succ_apply, List.map_cons, List.cons_append, hc]
      exact ih

/-- With nothing left for the second machine but to come out of blocks, it does so, and then both
have ended in the same way. -/
theorem Padded.settle {m m' : Machine} (h : m.Padded m') :
    ∃ k, m.Padded ((Machine.step reading)^[k] m') ∧
      ((Machine.step reading)^[k] m').control.close ((Machine.step reading)^[k] m').stack =
        m.control.close m.stack := by
  obtain ⟨doing, hm, sink, depth, calls⟩ := h
  cases doing with
  | eval like scopes waits => exact ⟨0, .mk (.eval like scopes waits) hm .., rfl⟩
  | exec padded scopes fits waits => exact ⟨0, .mk (.exec padded scopes fits waits) hm .., rfl⟩
  | value padded waits =>
      refine ⟨0, .mk (.value padded waits) hm .., ?_⟩
      cases waits <;> rfl
  | done waits =>
      obtain ⟨pads, L, rfl, hL, hnil⟩ := waits.peel
      refine ⟨pads.length, ?_⟩
      rw [iterate_pads fun _ _ => rfl]
      exact ⟨.mk (.done hL) hm .., Control.close_congr hnil (.done hL)⟩
  | leave padded waits =>
      obtain ⟨pads, L, rfl, hL, hnil⟩ := waits.peel
      refine ⟨pads.length, ?_⟩
      rw [iterate_pads fun _ _ => rfl]
      exact ⟨.mk (.leave padded hL) hm .., Control.close_congr hnil (.leave padded hL)⟩
  | fail f waits =>
      obtain ⟨pads, L, rfl, hL, hnil⟩ := waits.peel
      refine ⟨pads.length, ?_⟩
      rw [iterate_pads fun _ _ => rfl]
      exact ⟨.mk (.fail f hL) hm .., Control.close_congr hnil (.fail f hL)⟩

/-- However long the first machine runs, the second comes to a moment at which it has printed the same
and has ended in the same way, or has not ended either. -/
theorem Padded.run {m m' : Machine} (h : m.Padded m') (fuel : Nat) :
    ∃ fuel', fuel ≤ fuel' ∧ (m.run reading fuel).Padded (m'.run reading fuel') ∧
      (m'.run reading fuel').control.close (m'.run reading fuel').stack =
        (m.run reading fuel).control.close (m.run reading fuel).stack := by
  obtain ⟨k, hk, hpadded⟩ := h.iterate reading fuel
  obtain ⟨j, hj⟩ := hpadded.settle reading
  refine ⟨j + k, by omega, ?_⟩
  rw [run_eq_iterate, run_eq_iterate, Function.iterate_add_apply]
  exact hj

/-- Both have printed the same. -/
theorem Padded.sink_eq {m m' : Machine} (h : m.Padded m') : m'.sink = m.sink := by
  cases h
  rfl

/-- Both machines at the start of a program. -/
theorem Padded.start {program program' : Program} (h : Stmt.PaddedAll program program')
    (hm : mem.Padded mem') (sink : Sink) (calls : Nat) :
    Padded ⟨.yield .nil, [.sequence program []], mem, sink, 0, calls⟩
      ⟨.yield .nil, [.sequence program' []], mem', sink, 0, calls⟩ :=
  .mk (.done (.sequence h .nil .nil)) hm ..

end Runs

end Lexical.Machine

end Lox
