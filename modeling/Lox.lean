import Lox.Main
import Lox.Store.Lemmas
import Lox.Proofs.Lexical.Place
import Lox.Proofs.Lexical.Survey
import Lox.Proofs.Outcome
import Lox.Proofs.Store.Growth
import Lox.Proofs.Projection
import Lox.Proofs.Inputs
import Lox.Proofs.Scribe
import Lox.Proofs.Scribe.Erasure
import Lox.Proofs.Lexical.Mirror
import Lox.Proofs.Lexical.Nesting
import Lox.Proofs.Grammar.Normal
import Lox.Proofs.Grammar.Written
import Lox.Proofs.Grammar.Walk
import Lox.Proofs.Grammar.Soundness.Expression
import Lox.Proofs.Grammar.Soundness.Statement
import Lox.Proofs.Grammar.Soundness
import Lox.Proofs.Grammar.Completeness.Reach
import Lox.Proofs.Grammar.Completeness.Expression
import Lox.Proofs.Grammar.Completeness.Statement
import Lox.Proofs.Grammar.Completeness
import Lox.Proofs.Loop.Desugared
import Lox.Proofs.Loop.Pairing
import Lox.Proofs.Loop.Upkeep
import Lox.Proofs.Loop.Agree
import Lox.Proofs.Loop.Scopes
import Lox.Proofs.Loop.Steps
import Lox.Proofs.Loop.Alike
import Lox.Proofs.Loop.Passes
import Lox.Proofs.Loop.Replaced
import Lox.Proofs.Loop.Simulation
import Lox.Proofs.Loop.Desugaring
import Lox.Proofs.Store.Operation
import Lox.Proofs.Store.Integrity
import Lox.Proofs.Store.Laws
import Lox.Proofs.Heap.Journal
import Lox.Proofs.Grammar.Parts
import Lox.Proofs.Heap.Lawful
import Lox.Proofs.Heap.Histories
import Lox.Proofs.Heap.Integrity
import Lox.Proofs.Heap.Frame
import Lox.Proofs.Grammar.Safety
import Lox.Proofs.Verdict.Returns
import Lox.Proofs.Verdict.Closed
import Lox.Proofs.Console.Dialogue
import Lox.Proofs.Trace.Word
import Lox.Proofs.Trace.Tree
import Lox.Proofs.Trace.Records
import Lox.Proofs.Trace.Grammar
import Lox.Proofs.Trace.Additions
import Lox.Proofs.Trace.Sessions
import Lox.Proofs.Loop.Moments
import Lox.Proofs.Loop.PerPass
import Lox.Proofs.Heap.Loops
import Lox.Proofs.Heap.Constants
import Lox.Proofs.Monitor.Monitor
import Lox.Proofs.Monitor.Soundness
import Lox.Proofs.Monitor.Watched
import Lox.Proofs.Monitor.Sessions
import Lox.Proofs.Monitor.Depth
import Lox.Proofs.Token.Places
import Lox.Proofs.Grammar.Tokens
import Lox.Proofs.Monitor.Lines
import Lox.Proofs.Relocation.Tree
import Lox.Proofs.Relocation.Store
import Lox.Proofs.Relocation.Session
import Lox.Proofs.Relocation.Evaluation
import Lox.Proofs.Grammar.Windows
import Lox.Proofs.Token.Concatenation
import Lox.Proofs.Grammar.Transfer
import Lox.Proofs.Grammar.Concatenation
import Lox.Proofs.Relocation.Programs
import Lox.Proofs.Relocation.Origins
import Lox.Proofs.Concatenation
import Lox.Proofs.Token.PrefixTree
import Lox.Proofs.Token.Grammar
import Lox.Proofs.Token.Longest
import Lox.Proofs.Token.Reference
import Lox.Proofs.Token.Tiling
import Lox.Proofs.Token.Joined
import Lox.Proofs.Renaming.Tree
import Lox.Proofs.Renaming.Store
import Lox.Proofs.Renaming.Session
import Lox.Proofs.Renaming.Evaluation
import Lox.Proofs.Renaming.Programs
import Lox.Proofs.Grammar.Rejection.Fork
import Lox.Proofs.Grammar.Rejection.Agreement
import Lox.Proofs.Grammar.Rejection.Opening
import Lox.Proofs.Grammar.Rejection.Expression
import Lox.Proofs.Grammar.Rejection.Statement
import Lox.Proofs.Grammar.Rejection
import Lox.Proofs.Grammar.Distribution
import Lox.Proofs.Grammar.Steady
import Lox.Proofs.Grammar.Phrases
import Lox.Proofs.Room.Persistence
import Lox.Proofs.Termination.Runs
import Lox.Proofs.Termination.Evaluation
import Lox.Proofs.Termination.LoopFree
import Lox.Proofs.Enclosure.Store
import Lox.Proofs.Enclosure.Session
import Lox.Proofs.Enclosure.Evaluation
import Lox.Proofs.Enclosure.Braces
import Lox.Proofs.Enclosure.Programs
