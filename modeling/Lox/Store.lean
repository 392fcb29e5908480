/-
Frames.

A frame binds names to values and has a parent, unless it is a root. Frames are kept in a store and
known by their place in it; a frame's parent never changes and no frame is ever dropped. A binding
is looked up in one frame only, which is found by going out a number of hops.
-/
import Lox.Value
import Lox.Table

namespace Lox

/-- Names bound to values. -/
abbrev Bindings (Env : Type := FrameRef) := Table (Value Env)

/-- A frame. -/
structure Frame where
  parent : Option FrameRef
  bindings : Bindings
deriving Inhabited

/-- All frames there are, and the last identity given to a function. -/
structure Store where
  frames : Array Frame
  issued : Nat

/-- Why a name could not be used. -/
inductive BindingFault where
  /-- The frame does not bind the name. -/
  | undefined (name : Bytes)
  /-- There are only `length` frames to go out from here. -/
  | tooFar (hops : Int) (length : Nat)
deriving DecidableEq

namespace BindingFault

/-- The wording of a binding fault. -/
def message : BindingFault → Bytes
  | undefined name => utf8 "Undefined variable '" ++ name ++ utf8 "'."
  | tooFar hops length =>
    utf8 "environment: scope depth " ++ Bytes.ofInt hops ++ utf8 " exceeds chain length " ++
      Bytes.ofNat length

end BindingFault

namespace Store

/-- One root frame that binds nothing. -/
def initial : Store := ⟨#[⟨none, []⟩], 0⟩

/-- The first frame, in which globals are bound. -/
def global : FrameRef := 0

/-- The parent of a frame. -/
def parent? (s : Store) (ref : FrameRef) : Option FrameRef :=
  (s.frames[ref]?).bind (·.parent)

/-- What a frame itself binds a name to. -/
def lookup? (s : Store) (ref : FrameRef) (name : Bytes) : Option Value :=
  (s.frames[ref]?).bind (·.bindings.lookup name)

/-- A new frame under `parent`, at the end of the store. -/
def add (s : Store) (parent : Option FrameRef) : Store :=
  { s with frames := s.frames.push ⟨parent, []⟩ }

/-- Where the next frame will be kept. -/
def nextRef (s : Store) : FrameRef := s.frames.size

/-- Bind a name in a frame. -/
def define (s : Store) (ref : FrameRef) (name : Bytes) (value : Value) : Store :=
  { s with frames := s.frames.modify ref fun f => { f with bindings := f.bindings.set name value } }

/-- The value of a name in one frame. -/
def get (s : Store) (ref : FrameRef) (name : Bytes) : Except BindingFault Value :=
  match s.lookup? ref name with
  | some value => .ok value
  | none => .error (.undefined name)

/-- The frame itself, if it binds the name. -/
def bound (s : Store) (ref : FrameRef) (name : Bytes) : Except BindingFault FrameRef :=
  if (s.lookup? ref name).isSome then .ok ref else .error (.undefined name)

/-- Replace the value of a name that the frame binds. -/
def assign (s : Store) (ref : FrameRef) (name : Bytes) (value : Value) :
    Except BindingFault Store :=
  match s.bound ref name with
  | .ok ref => .ok (s.define ref name value)
  | .error fault => .error fault

/-- Go out a number of hops; if the frames end first, the answer is how many hops there were. -/
def climb (s : Store) : Nat → FrameRef → Except Nat FrameRef
  | 0, ref => .ok ref
  | hops + 1, ref =>
    match s.parent? ref with
    | none => .error 0
    | some parent =>
      match s.climb hops parent with
      | .ok ancestor => .ok ancestor
      | .error length => .error (length + 1)

/-- The frame a number of hops out; fewer than no hops count as none. -/
def ancestor (s : Store) (ref : FrameRef) (hops : Int) : Except BindingFault FrameRef :=
  match s.climb hops.toNat ref with
  | .ok ancestor => .ok ancestor
  | .error length => .error (.tooFar hops length)

/-- The value of a name in the frame a number of hops out. -/
def getAt (s : Store) (ref : FrameRef) (hops : Int) (name : Bytes) : Except BindingFault Value :=
  match s.ancestor ref hops with
  | .ok ancestor => s.get ancestor name
  | .error fault => .error fault

/-- The frame a number of hops out, if it binds the name. -/
def boundAt (s : Store) (ref : FrameRef) (hops : Int) (name : Bytes) :
    Except BindingFault FrameRef :=
  match s.ancestor ref hops with
  | .ok ancestor => s.bound ancestor name
  | .error fault => .error fault

/-- Replace the value of a name in the frame a number of hops out. -/
def assignAt (s : Store) (ref : FrameRef) (hops : Int) (name : Bytes) (value : Value) :
    Except BindingFault Store :=
  match s.boundAt ref hops name with
  | .ok ancestor => .ok (s.define ancestor name value)
  | .error fault => .error fault

/-- A function declared in a frame, with an identity of its own. -/
def closure (s : Store) (code : Option Code) (frame : FrameRef) : Closure × Store :=
  (⟨s.issued + 1, code, frame⟩, { s with issued := s.issued + 1 })

end Store

end Lox
