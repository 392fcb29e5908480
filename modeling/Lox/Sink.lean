/-
Where printed text goes.

A sink takes one text for each print statement. It may refuse any of them, for a reason of its own,
and of a text that it refuses it may have written a part. What it does with a text is told by the
number of texts before it, so a sink may also take texts again after one that it refused.
-/
import Lox.Text.Bytes

namespace Lox

/-- What became of a text that a sink refused. -/
structure Refusal where
  /-- How many bytes of the text were written all the same. -/
  written : Nat
  reason : Bytes
deriving DecidableEq

/-- A sink for printed text. -/
structure Sink where
  /-- What was written, a piece for each text, the latest first. -/
  taken : List Bytes
  /-- How many texts were handed over. -/
  offered : Nat
  /-- Which texts are refused, by the number of texts handed over before. -/
  refusal? : Nat → Option Refusal

namespace Sink

/-- A sink that never refuses a text. -/
def unlimited : Sink := ⟨[], 0, fun _ => none⟩

/-- A sink that takes `n` texts and nothing of all others. -/
def limited (n : Nat) (reason : Bytes := utf8 "sink closed") : Sink :=
  ⟨[], 0, fun before => if before < n then none else some ⟨0, reason⟩⟩

/-- Is the next text refused? -/
def next? (s : Sink) : Option Refusal := s.refusal? s.offered

/-- What is written of a text, as pieces. -/
def pieces (text : Bytes) : Option Refusal → List Bytes
  | none => [text]
  | some r => if r.written = 0 then [] else [text.take r.written]

/-- Hand a text to the sink. -/
def take (s : Sink) (text : Bytes) : Sink :=
  { s with taken := pieces text s.next? ++ s.taken, offered := s.offered + 1 }

/-- All that the sink has taken. -/
def contents (s : Sink) : Bytes :=
  s.taken.reverse.flatten

/-- The same sink with what it took so far removed. -/
def drained (s : Sink) : Sink := { s with taken := [] }

end Sink

end Lox
