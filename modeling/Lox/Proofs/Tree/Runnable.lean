/-
Trees that can be run.

# What a machine gives up on

A machine gives up on a tree that lacks an expression, that holds a constant of the host, or that
has an operator where it cannot stand, and on a return outside any function. These are faults of
whoever made the tree and not of the program, and `Expr.Runnable T` and `Stmt.Runnable T inCall` say
that a tree has none of them. They also say that the tokens at which a fault of the program can be
raised are tokens of `T`, and whether a return is allowed depends on whether the statement is
carried out in the course of a call.

# Why a script has none of them

A tree that was read has none of the first three, since it has the grammar's shape: nothing that the
grammar asks for is left out, operators stand where the grammar has them, and constants are those of
tokens (`Expr.Fits.runnable`). The walk reports the last: it only finds a return without a misuse
inside a function (`Walk.inFunction_of_result`). Misuses are only ever added to, so a walk that ends
without one was without one at each statement (`Walk.Grows.clean`), and by induction over the
statement each part of it can be carried out (`Stmt.Canonical.runnable`). So a program without
static diagnostics is runnable (`Stmt.runnableAll_of_resolve`).
-/
import Lox.Proofs.Scope.Walk
import Lox.Proofs.Tree.Written
import Lox.Value

namespace Lox

-- ==== Operators

/-- Operators that stand before an operand. -/
def Kind.Unary (k : Kind) : Prop := k = .bang ∨ k = .minus

/-- Operators that stand between two operands and need both of them. -/
def Kind.Binary (k : Kind) : Prop := ∃ level, (k, level) ∈ binaryLevels

-- ==== Trees

mutual

/-- The expression can be evaluated, and a fault in it is raised at a token of `T`. No part of it is
missing, and its operators are those that take as many operands. -/
def Expr.Runnable (T : Token → Prop) : Expr → Prop
  | .absent => False
  | .literal _ value => ∃ v : Value, Value.ofLiteral? value = some v
  | .grouping _ inner => inner.Runnable T
  | .unary _ operator operand => operator.kind.Unary ∧ T operator ∧ operand.Runnable T
  | .binary _ left operator right =>
    operator.kind.Binary ∧ T operator ∧ left.Runnable T ∧ right.Runnable T
  | .logical _ left _ right => left.Runnable T ∧ right.Runnable T
  | .assign _ name value => T name ∧ value.Runnable T
  | .ident _ name => T name
  | .call _ callee paren arguments =>
    T paren ∧ callee.Runnable T ∧ Expr.RunnableAll T arguments

/-- The same of all of the expressions. -/
def Expr.RunnableAll (T : Token → Prop) : List Expr → Prop
  | [] => True
  | e :: rest => e.Runnable T ∧ Expr.RunnableAll T rest

end

mutual

/-- The statement can be carried out, if `inCall` tells whether that is done in the course of a
call. -/
def Stmt.Runnable (T : Token → Prop) (inCall : Bool) : Stmt → Prop
  | .absent => True
  | .expression _ value => value.Runnable T
  | .print _ value => value.Runnable T
  | .var _ _ initializer => initializer = .absent ∨ initializer.Runnable T
  | .block _ body => Stmt.RunnableAll T inCall body
  | .branch _ condition positive negative =>
    condition.Runnable T ∧ positive.Runnable T inCall ∧ negative.Runnable T inCall
  | .loop _ condition body => condition.Runnable T ∧ body.Runnable T inCall
  | .function _ _ _ body => Stmt.RunnableAll T true body
  | .result _ _ value => inCall = true ∧ (value = .absent ∨ value.Runnable T)

/-- The same of all of the statements. -/
def Stmt.RunnableAll (T : Token → Prop) (inCall : Bool) : List Stmt → Prop
  | [] => True
  | s :: rest => s.Runnable T inCall ∧ Stmt.RunnableAll T inCall rest

end

variable {T : Token → Prop} {known : Bytes → Bool} {inFunction : Bool}

-- ==== Expressions that were read

/-- The constants that tokens carry are values of the language. -/
def Token.Constant (t : Token) : Prop := ∃ v : Value, Value.ofLiteral? t.literal = some v

/-- An expression of the grammar's shape can be evaluated, if the tokens that it was read from carry
constants of the language. -/
theorem Expr.Fits.runnable (hT : ∀ t, T t → t.Constant) {least : Nat} {e : Expr}
    (h : e.Fits least) (holds : e.Holds T) : e.Runnable T := by
  induction h with
  | literal _ id value =>
      rcases holds with rfl | ⟨b, rfl⟩ | ⟨t, ht, -, rfl⟩
      · exact ⟨.nil, rfl⟩
      · exact ⟨.bool b, rfl⟩
      · exact hT t ht
  | ident _ id kind => exact holds
  | grouping _ id inside ih => exact ih holds
  | @call _ callee paren arguments id loose called passed kind few ihc ihp =>
      obtain ⟨hc, hparen, ha⟩ := holds
      refine ⟨hparen, ihc hc, ?_⟩
      clear passed few
      induction arguments with
      | nil => trivial
      | cons e es ih =>
          exact ⟨ihp e List.mem_cons_self ha.1,
            ih (fun e' he' => ihp e' (List.mem_cons_of_mem _ he')) ha.2⟩
  | unary id loose kind inside ih => exact ⟨kind, holds.1, ih holds.2⟩
  | binary id binds loose before after ihl ihr =>
      exact ⟨⟨_, binds⟩, holds.2.1, ihl holds.1, ihr holds.2.2⟩
  | logical id binds loose before after ihl ihr => exact ⟨ihl holds.1, ihr holds.2.2⟩
  | assign id kind inside ih => exact ⟨holds.1, ih holds.2⟩

/-- The same for an expression that may be left out. -/
theorem Expr.runnable_of_fits_or_absent (hT : ∀ t, T t → t.Constant) {e : Expr}
    (h : e = .absent ∨ e.Fits 0) (holds : e.Holds T) : e = .absent ∨ e.Runnable T :=
  h.imp_right fun fits => fits.runnable hT holds

-- ==== Programs without a misuse

/-- Walks that end without a misuse were without one all along. -/
theorem Walk.Grows.clean {w w' : Walk} (h : w.Grows w') (hw : w'.faults = []) : w.faults = [] :=
  List.prefix_nil.mp (hw ▸ h.faults)

/-- A return is only found without a misuse inside a function. -/
theorem Walk.inFunction_of_result {id : Nat} {keyword : Token} {value : Expr} {w : Walk}
    (h : (stmt known inFunction (.result id keyword value) w).faults = []) : inFunction = true := by
  cases inFunction with
  | true => rfl
  | false =>
      have hnoted := (expr_adds value _).toGrows.clean h
      simp [note] at hnoted

/-- Statements in a row can be carried out if each of them can after a walk without a misuse: the
walk over the rest only adds misuses. -/
theorem Stmt.runnableAll_of_walk {body : List Stmt} {inCall : Bool} {w : Walk}
    (each : ∀ s ∈ body, ∀ w, s.Holds T → (Walk.stmt known inCall s w).faults = [] →
      s.Runnable T inCall)
    (holds : Stmt.HoldsAll T body) (h : (Walk.stmts known inCall body w).faults = []) :
    Stmt.RunnableAll T inCall body := by
  induction body generalizing w with
  | nil => trivial
  | cons s rest ih =>
      have hfirst := (Walk.stmts_grows rest inCall _).clean h
      exact ⟨each s List.mem_cons_self w holds.1 hfirst,
        ih (fun s' hs' => each s' (List.mem_cons_of_mem _ hs')) holds.2 h⟩

/-- A statement of the grammar's shape in which the walk found no misuse can be carried out. The
shape gives the parts that have to be there and the kinds of operators; the walk gives that a return
stands in a function. -/
theorem Stmt.Canonical.runnable (hT : ∀ t, T t → t.Constant) {s : Stmt} (h : s.Canonical) :
    ∀ (inFunction : Bool) (w : Walk), s.Holds T → (Walk.stmt known inFunction s w).faults = [] →
      s.Runnable T inFunction := by
  induction h with
  | expression id fits => exact fun _ _ holds _ => fits.runnable hT holds
  | print id fits => exact fun _ _ holds _ => fits.runnable hT holds
  | var id kind fits => exact fun _ _ holds _ => Expr.runnable_of_fits_or_absent hT fits holds.2
  | block id inside ih =>
      exact fun inFunction _ holds hw => runnableAll_of_walk (fun s hs => ih s hs inFunction) holds hw
  | branch id fits first plain ih =>
      exact fun inFunction _ holds hw =>
        ⟨fits.runnable hT holds.1, ih inFunction _ holds.2.1 hw, trivial⟩
  | @branchElse condition positive negative id fits first plain closed second plainElse ihp ihn =>
      intro inFunction w holds hw
      have hfirst := (Walk.stmt_grows negative inFunction _).clean hw
      exact ⟨fits.runnable hT holds.1, ihp inFunction _ holds.2.1 hfirst,
        ihn inFunction _ holds.2.2 hw⟩
  | loop id fits inside plain ih =>
      exact fun inFunction _ holds hw => ⟨fits.runnable hT holds.1, ih inFunction _ holds.2 hw⟩
  | function id kind kinds few inside ih =>
      exact fun _ _ holds hw => runnableAll_of_walk (fun s hs => ih s hs true) holds.2.2 hw
  | result id kind fits =>
      exact fun _ _ holds hw =>
        ⟨Walk.inFunction_of_result hw, Expr.runnable_of_fits_or_absent hT fits holds.2⟩

/-- A program without misuses can be run. -/
theorem Stmt.runnableAll_of_resolve (hT : ∀ t, T t → t.Constant) {program : Program}
    (canonical : ∀ s ∈ program, s.Canonical) (holds : Stmt.HoldsAll T program)
    (h : (resolve known program).diagnostics = []) : Stmt.RunnableAll T false program :=
  runnableAll_of_walk (fun s hs w => (canonical s hs).runnable hT false w) holds
    (List.map_eq_nil_iff.mp h)

end Lox
