/-
Values that no operator can tell apart.

# Functions in two forms

Two machines may keep functions in different forms, and two runs of one machine may have the
functions of two programs that differ in what no program can see. `Value.Alike R` says of two values
that they are the same, or functions that `R` relates; the relation is left open, so that one set of
lemmas serves for all comparisons of machines.

# What operators see

An operator sees of a function only its identity, its name and how many arguments it takes
(`Closure.Same`). Where `R` keeps these, values that are alike are shown alike
(`Value.Alike.display`), are called with as many arguments (`Value.Alike.arity?`) and are equal to
the same values (`Value.Alike.equals`).

# Applying operators

So an operator gives values that are alike, or fails on both sides with the same cause; the fault
stands where the operator does, and the operators of the two programs may stand `d` lines apart
(`Settles`). This is `applyUnary_settles` and `applyBinary_settles`, with one case for each
operator.
-/
import Lox.Machine
import Lox.Proofs.Token.Join

namespace Lox

variable {Env Env' : Type}

/-- Two functions are the same to every operator. -/
structure Closure.Same (f : Closure Env) (g : Closure Env') : Prop where
  ident : g.ident = f.ident
  name : g.name = f.name
  arity : g.arity = f.arity

/-- Two values are the same, or functions that are related. -/
inductive Value.Alike (R : Closure Env → Closure Env' → Prop) : Value Env → Value Env' → Prop where
  | nil : Value.Alike R .nil .nil
  | bool (b : Bool) : Value.Alike R (.bool b) (.bool b)
  | number (x : Float) : Value.Alike R (.number x) (.number x)
  | string (s : Bytes) : Value.Alike R (.string s) (.string s)
  | native (f : Native) : Value.Alike R (.native f) (.native f)
  | void : Value.Alike R .void .void
  | foreign (f : Foreign) : Value.Alike R (.foreign f) (.foreign f)
  | function {f : Closure Env} {g : Closure Env'} (related : R f g) :
      Value.Alike R (.function f) (.function g)

/-- The same fault, at a token `d` lines further down. -/
def Fault.moved (d : Int) : Fault → Fault
  | .raised token cause => .raised (token.moved d) cause
  | fault => fault

/-- A fault on the same line is the same fault. -/
@[simp] theorem Fault.moved_zero (f : Fault) : f.moved 0 = f := by
  cases f <;> simp [Fault.moved]

/-- Both operators give values that are alike, or the same fault at a token `d` lines apart. -/
inductive Settles (R : Closure Env → Closure Env' → Prop) (d : Int) :
    Except Fault (Value Env) → Except Fault (Value Env') → Prop where
  | ok {v : Value Env} {v' : Value Env'} (alike : Value.Alike R v v') : Settles R d (.ok v) (.ok v')
  | error (f : Fault) : Settles R d (.error f) (.error (f.moved d))

variable {R R' : Closure Env → Closure Env' → Prop} {v w : Value Env} {v' w' : Value Env'}

namespace Value.Alike

/-- Functions may be related by more. -/
theorem mono (h : Value.Alike R v v') (hR : ∀ f g, R f g → R' f g) : Value.Alike R' v v' := by
  cases h with
  | function related => exact .function (hR _ _ related)
  | nil => exact .nil
  | bool b => exact .bool b
  | number x => exact .number x
  | string s => exact .string s
  | native f => exact .native f
  | void => exact .void
  | foreign f => exact .foreign f

/-- Two answers that are alike, or missing on both sides. -/
theorem rel_cases {a : Option (Value Env)} {a' : Option (Value Env')}
    (h : Option.Rel (Value.Alike R) a a') :
    (∃ v v', a = some v ∧ a' = some v' ∧ Value.Alike R v v') ∨ (a = none ∧ a' = none) := by
  cases h with
  | some h => exact .inl ⟨_, _, rfl, rfl, h⟩
  | none => exact .inr ⟨rfl, rfl⟩

/-- Where one side has an answer, the other one has. -/
theorem isSome_of_rel {a : Option (Value Env)} {a' : Option (Value Env')}
    (h : Option.Rel (Value.Alike R) a a') : a'.isSome = a.isSome := by
  cases h <;> rfl

/-- Values that are alike count as true on both sides or on neither. -/
theorem isTruthy (h : Value.Alike R v v') : v'.isTruthy = v.isTruthy := by
  cases h <;> rfl

section Same

variable (hR : ∀ f g, R f g → Closure.Same f g)

include hR

/-- They are shown as the same text. -/
theorem display (h : Value.Alike R v v') : v'.display = v.display := by
  cases h with
  | function related => simp only [Value.display, (hR _ _ related).name]
  | _ => rfl

/-- They can be called on both sides or on neither, with as many arguments. -/
theorem arity? (h : Value.Alike R v v') : v'.arity? = v.arity? := by
  cases h with
  | function related => simp only [Value.arity?, (hR _ _ related).arity]
  | _ => rfl

/-- They are equal to values that are alike, or not, on both sides. -/
theorem equals (h : Value.Alike R v v') (k : Value.Alike R w w') : v'.equals w' = v.equals w := by
  cases h with
  | function related =>
      cases k with
      | function related' => simp only [Value.equals, (hR _ _ related).ident, (hR _ _ related').ident]
      | _ => rfl
  | _ => cases k <;> rfl

end Same

end Value.Alike

-- ==== Operators

/-- An operator before one operand. -/
theorem applyUnary_settles (operator : Token) (d : Int) (h : Value.Alike R v v') :
    Settles R d (applyUnary operator v) (applyUnary (operator.moved d) v') := by
  unfold applyUnary
  rw [Token.moved_kind]
  split
  · cases h with
    | number x => exact .ok (.number _)
    | _ => exact .error (.raised operator .operandNotNumber)
  · rw [h.isTruthy]
    exact .ok (.bool _)
  · exact .error (.unaryOperator operator.lexeme)

/-- An operator between two numbers. -/
theorem applyArithmetic_settles (operator : Token) (d : Int) (x y : Float) :
    Settles R d (applyArithmetic operator x y) (applyArithmetic (operator.moved d) x y) := by
  unfold applyArithmetic
  rw [Token.moved_kind]
  split
  all_goals first
    | exact .ok (.number _)
    | exact .ok (.bool _)
    | exact .error (.binaryOperator operator.lexeme)

/-- An operator between two operands: equality looks at the values, and all others ask for numbers
or texts and fail alike where they are given anything else. -/
theorem applyBinary_settles (hR : ∀ f g, R f g → Closure.Same f g) (operator : Token) (d : Int)
    (h : Value.Alike R v v') (k : Value.Alike R w w') :
    Settles R d (applyBinary operator v w) (applyBinary (operator.moved d) v' w') := by
  unfold applyBinary
  rw [Token.moved_kind]
  split
  · rw [h.equals hR k]
    exact .ok (.bool _)
  · rw [h.equals hR k]
    exact .ok (.bool _)
  · cases h <;> cases k <;> first
      | exact .ok (.number _)
      | exact .ok (.string _)
      | exact .error (.raised operator .operandsMixed)
  · cases h <;> cases k <;> first
      | exact applyArithmetic_settles ..
      | exact .error (.raised operator .operandsNotNumbers)

end Lox
