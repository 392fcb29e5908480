/-
Histories of a session.

A history is a list of sources that are run one after the other, each with a bound on its steps and
a form for its loops. It has an outcome for each of them (`runs`), and a session that is left at the
end (`afterAll`). Both are given by recursion on the history, so that what one run keeps is kept by
a history, by induction (`After.all`).

Statements about sessions are made for a new session after any history: there is nothing to be asked
of a session then, since whatever it has run, be it rejected, failed or cut off, is in the history.
-/
import Lox.Proofs.Session.Frames

namespace Lox.Session

/-- A source to be run, with a bound on the number of machine steps. -/
structure Request where
  fuel : Nat
  source : Bytes
  form : LoopForm := .compact

/-- Run the source of a request. -/
def serve (s : Session) (r : Request) : Run × Session := s.run r.fuel r.source r.form

/-- The session that a history leaves. -/
def afterAll (s : Session) : List Request → Session
  | [] => s
  | r :: rest => (s.serve r).2.afterAll rest

/-- What the runs of a history leave to see, in order. -/
def runs (s : Session) : List Request → List Run
  | [] => []
  | r :: rest => (s.serve r).1 :: (s.serve r).2.runs rest

/-- What the sources of a history that are accepted are, in order. -/
def accepted (s : Session) : List Request → List Bytes
  | [] => []
  | r :: rest =>
    (if s.Accepts r.source r.form then [r.source] else []) ++ (s.serve r).2.accepted rest

/-- What a history shows, and then another one. -/
theorem runs_append (s : Session) (before later : List Request) :
    s.runs (before ++ later) = s.runs before ++ (s.afterAll before).runs later := by
  induction before generalizing s with
  | nil => rfl
  | cons r rest ih => exact congrArg (_ :: ·) (ih _)

/-- There is something to see for each source. -/
theorem length_runs (s : Session) (history : List Request) :
    (s.runs history).length = history.length := by
  induction history generalizing s with
  | nil => rfl
  | cons r rest ih => exact congrArg (· + 1) (ih _)

/-- A history goes on from a session that has run some sources. -/
theorem After.all {sink : Sink} {reading : Nat → Float} {vs : List Visit} {s : Session}
    (h : After sink reading vs s) (history : List Request) :
    ∃ us, After sink reading us (s.afterAll history) := by
  induction history generalizing vs s with
  | nil => exact ⟨vs, h⟩
  | cons r rest ih => exact ih (h.run r.fuel r.source r.form)

end Lox.Session
