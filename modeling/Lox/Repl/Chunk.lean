/-
Chunks: the pieces of source that the prompt takes at a time.

A chunk is a line, or several if the first ones leave a bracket or a string open. Reading is one
step for each answer to a prompt: the answer completes the chunk, or leaves it pending. Each chunk
takes at least one answer, so the answers run out.
-/
import Lox.Token.Scan

namespace Lox

/-- The two prompts. -/
structure Prompts where
  /-- For the first line of a chunk. -/
  first : Bytes
  /-- For further lines. -/
  further : Bytes
deriving DecidableEq

/-- What a prompt is answered with. -/
inductive Answer where
  | line (text : Bytes)
  /-- The user gives up what is pending. -/
  | abort
  /-- The line could not be read. -/
  | failure
  /-- There is no more input. -/
  | ended
deriving DecidableEq

/-- How far a token opens brackets. -/
def Kind.nesting : Kind → Int
  | .leftBrace => 1
  | .leftParen => 1
  | .rightBrace => -1
  | .rightParen => -1
  | _ => 0

/-- Is the source incomplete: does it leave a string open, or more brackets than it closes? -/
def needsMore (source : Bytes) : Bool :=
  let scanned := scan source
  (scanned.diagnostics.any fun d => d.message = ScanFault.unterminatedString.message) ||
    0 < scanned.tokens.foldl (fun n t => n + t.kind.nesting) 0

/-- A chunk that was read, or the end of reading if it is not `ok`. -/
structure Chunk where
  source : Bytes
  ok : Bool
  /-- The prompts that were shown for it. -/
  shown : List Bytes
deriving DecidableEq

/-- A chunk that is being read. -/
structure OpenChunk where
  /-- The lines so far. -/
  source : Bytes := []
  /-- The prompts shown so far. -/
  shown : List Bytes := []
deriving DecidableEq

namespace OpenChunk

/-- The prompt to show next. -/
def prompt (p : OpenChunk) (prompts : Prompts) : Bytes :=
  if p.source.isEmpty then prompts.first else prompts.further

/-- The source with one more line. -/
def withLine (p : OpenChunk) (line : Bytes) : Bytes :=
  if p.source.isEmpty then line else p.source ++ [Bytes.lineFeed] ++ line

/-- Show the next prompt and take the answer. -/
def step (prompts : Prompts) (p : OpenChunk) (answer : Answer) : OpenChunk ⊕ Chunk :=
  let shown := p.shown ++ [p.prompt prompts]
  match answer with
  | .line text =>
    let source := p.withLine text
    if needsMore source then .inl ⟨source, shown⟩ else .inr ⟨source, true, shown⟩
  | .abort => .inr ⟨[], true, shown⟩
  | .failure => .inr ⟨[], false, shown⟩
  | .ended => .inr ⟨p.source, !p.source.isEmpty, shown⟩

end OpenChunk

/-- Read a chunk: the answers to its prompts are taken from a list, and those after it are left.
When the list is empty the input has ended. -/
def readChunk (prompts : Prompts) (p : OpenChunk) : List Answer → Chunk × List Answer
  | [] =>
    match p.step prompts .ended with
    | .inl p => (⟨p.source, true, p.shown⟩, [])
    | .inr chunk => (chunk, [])
  | answer :: rest =>
    match p.step prompts answer with
    | .inl p => readChunk prompts p rest
    | .inr chunk => (chunk, rest)

theorem readChunk_rest_length (prompts : Prompts) (answers : List Answer) (p : OpenChunk) :
    (readChunk prompts p answers).2.length ≤ answers.length - 1 := by
  induction answers generalizing p with
  | nil =>
    simp only [readChunk]
    split <;> simp
  | cons answer rest ih =>
    simp only [readChunk]
    split
    · have := ih ‹OpenChunk›
      simp only [List.length_cons]
      omega
    · simp

/-- Read chunk after chunk, until one begins with no answer left. -/
def readChunks (prompts : Prompts) (answers : List Answer) : List Chunk :=
  if answers.isEmpty then [(readChunk prompts {} answers).1]
  else
    (readChunk prompts {} answers).1 :: readChunks prompts (readChunk prompts {} answers).2
termination_by answers.length
decreasing_by
  have := readChunk_rest_length prompts answers {}
  have : answers.length ≠ 0 := by simpa using ‹¬answers.isEmpty = true›
  omega

end Lox
