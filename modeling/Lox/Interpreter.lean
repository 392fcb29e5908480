/-
An interpreter keeps what one program leaves for the next: frames, distances, host functions and
the sink.

Running takes a bound on the number of machine steps. A run that reaches the bound ends
`unfinished`; one that ends otherwise ends the same with any larger bound.
-/
import Lox.Machine

namespace Lox

/-- What is kept between programs. -/
structure Interpreter where
  host : Host
  store : Store
  sink : Sink
  depth : Nat
  /-- How many calls the host took. -/
  calls : Nat

/-- How a run ended. -/
inductive Ending where
  | finished (v : Value)
  | failed (f : Fault)
  | unfinished

namespace Interpreter

/-- An interpreter with no global bound. -/
def bare (sink : Sink) : Interpreter := ⟨⟨∅, #[]⟩, Store.initial, sink, 0, 0⟩

/-- Bind a global name. -/
def define (i : Interpreter) (name : Bytes) (v : Value) : Interpreter :=
  { i with store := i.store.define Store.global name v }

/-- Replace the value of a global name. -/
def assign (i : Interpreter) (name : Bytes) (v : Value) : Except BindingFault Interpreter :=
  match i.store.assign Store.global name v with
  | .ok store => .ok { i with store := store }
  | .error fault => .error fault

/-- The value of a global name. -/
def get (i : Interpreter) (name : Bytes) : Except BindingFault Value :=
  i.store.get Store.global name

/-- Does the global frame bind the name? -/
def knows (i : Interpreter) (name : Bytes) : Bool :=
  (i.store.lookup? Store.global name).isSome

/-- Bind a global name to a function of the host that goes by the number of calls before. -/
def defineTimed (i : Interpreter) (name : Bytes) (arity : Int) (f : Nat → HostFunction) :
    Interpreter :=
  let native : Native := ⟨i.host.functions.size, arity⟩
  define { i with host := { i.host with functions := i.host.functions.push f } } name
    (.native native)

/-- Bind a global name to a function of the host. -/
def defineNative (i : Interpreter) (name : Bytes) (arity : Int) (f : HostFunction) : Interpreter :=
  i.defineTimed name arity fun _ => f

/-- A new interpreter. Its one global is the function `clock`, which tells the next reading each
time it is called. -/
def clocked (sink : Sink) (reading : Nat → Float) : Interpreter :=
  (bare sink).defineTimed (utf8 "clock") 0 fun calls _ => .ok (.number (reading calls))

/-- A new interpreter whose clock stands still. -/
def new (sink : Sink) (seconds : Float) : Interpreter :=
  clocked sink fun _ => seconds

/-- Add the distances of a program. Those of earlier programs are kept, since functions declared by
them may still be called. -/
def addResolution (i : Interpreter) (r : Resolution) : Interpreter :=
  { i with host := { i.host with resolution := i.host.resolution.merge r } }

/-- How a machine has ended, and what it leaves behind. -/
def conclude (host : Host) (m : Machine) : Ending × Interpreter :=
  let i : Interpreter := ⟨host, m.store, m.sink, m.depth, m.calls⟩
  match m.control, m.stack with
  | .yield v, [] => (.finished v, i)
  | .fail f, [] => (.failed f, i)
  | .leave _, [] => (.failed .strayReturn, i)
  | _, _ => (.unfinished, i)

/-- The machine at the start of a program, which is carried out in the global frame. -/
def start (i : Interpreter) (program : Program) : Machine :=
  ⟨.yield .nil, [.sequence program Store.global], i.store, i.sink, 0, i.calls⟩

/-- Carry out the statements of a program, until one of them fails. -/
def interpret (fuel : Nat) (i : Interpreter) (program : Program) : Ending × Interpreter :=
  conclude i.host ((i.start program).run i.host fuel)

/-- Evaluate one expression in the global frame. -/
def evaluate (fuel : Nat) (i : Interpreter) (e : Expr) : Ending × Interpreter :=
  conclude i.host (Machine.run i.host fuel
    ⟨.eval e Store.global, [], i.store, i.sink, i.depth, i.calls⟩)

end Interpreter

end Lox
