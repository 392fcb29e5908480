import Lox.Tree.Build
import Lox.Shell.Memory
import Lox.Main
import Lox.Proofs.Reader.Calculus
import Lox.Proofs.Reader.Progress
import Lox.Proofs.Reader.Expression
import Lox.Proofs.Reader.Statement
import Lox.Proofs.Reader.Parse
import Lox.Proofs.Scope.Visit
import Lox.Proofs.Scope.Located
import Lox.Proofs.Scope.Seen
import Lox.Proofs.Lexical.Machine
import Lox.Proofs.Frames.Heap
import Lox.Proofs.Frames.Tied
import Lox.Proofs.Frames.Change
import Lox.Proofs.Frames.Step
import Lox.Proofs.Lexical.Refines
import Lox.Proofs.Session.Run
import Lox.Proofs.Session.Frames
import Lox.Proofs.Token.Join
import Lox.Proofs.Tree.Moved
import Lox.Proofs.Reader.Replay
import Lox.Proofs.Reader.ReplayExpression
import Lox.Proofs.Reader.ReplayStatement
import Lox.Proofs.Reader.Join
import Lox.Proofs.Scope.Join
import Lox.Proofs.Machine.Moved
import Lox.Proofs.Machine.Lockstep
import Lox.Proofs.Machine.Growth
import Lox.Proofs.Machine.Globals
import Lox.Proofs.Machine.Sequence
import Lox.Proofs.Session.Batch
import Lox.Proofs.Tree.Renamed
import Lox.Proofs.Tree.Written
import Lox.Proofs.Reader.ReadBack
import Lox.Proofs.Reader.ReadBackStatement
import Lox.Proofs.Reader.Spelling
import Lox.Proofs.Reader.SpellingStatement
import Lox.Proofs.Tree.Runnable
import Lox.Proofs.Machine.Blame
import Lox.Proofs.Session.History
import Lox.Proofs.Session.Blame
import Lox.Proofs.Reader.Later
import Lox.Proofs.Reader.Alike
import Lox.Proofs.Scope.Renamed
import Lox.Proofs.Machine.Renamed
import Lox.Proofs.Session.Rejected
import Lox.Proofs.Session.Identity
import Lox.Proofs.Machine.Output
import Lox.Proofs.Machine.LoopFree
import Lox.Proofs.Machine.Outcome
import Lox.Proofs.Machine.Depth
import Lox.Proofs.Machine.Termination
import Lox.Proofs.Session.Termination
import Lox.Proofs.Shell.Live
import Lox.Proofs.Text.Utf8
import Lox.Proofs.Token.Accounted
import Lox.Proofs.Token.Spaced
import Lox.Proofs.Scope.Site
import Lox.Proofs.Scope.Distance
import Lox.Proofs.Scope.Misuse
import Lox.Proofs.Reader.Cursor
import Lox.Proofs.Reader.Tracking
import Lox.Proofs.Reader.Position
import Lox.Proofs.Reader.Recovery
import Lox.Proofs.Reader.Forms
import Lox.Proofs.Scope.Forms
import Lox.Proofs.Lexical.Forms
import Lox.Proofs.Session.Forms
import Lox.Proofs.Reader.Fork
import Lox.Proofs.Reader.ForLoop
import Lox.Proofs.Reader.Nesting
import Lox.Proofs.Repl.Chunk
import Lox.Proofs.Number.Bits
import Lox.Proofs.Number.Digits
import Lox.Proofs.Number.Nearest
import Lox.Proofs.Number.Printed
import Lox.Proofs.Repl.Lines
import Lox.Proofs.Text.Split
import Lox.Proofs.Fixture.Verdict
import Lox.Proofs.Fixture.Printed
import Lox.Proofs.Fixture.Annotation
import Lox.Proofs.Text.Trim
import Lox.Proofs.Manifest.Decoded
import Lox.Proofs.Manifest.Targets
import Lox.Proofs.Store.Hops
import Lox.Proofs.Machine.Proper
