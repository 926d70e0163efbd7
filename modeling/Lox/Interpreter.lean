import Lox.Evaluator
import Lox.Grammar.Program

/-!
# Interpretation

Running source texts in a session. Whatever becomes of one text, the session goes on to the next.

* `Session.execute` — runs one statement in the global scope;
* `Session.read` — reads a source text;
* `Session.interpret` — runs a source text, with its `Verdict`;
* `Session.run` — runs a source text and reports its failure in one line.
-/

namespace Lox

/-- **Verdicts** on a source text. -/
inductive Verdict
  | ok
  | rejected (error : CompileError)
  | interrupted (interrupt : Interrupt)

namespace Session

/-- Adds events to a traced session. -/
def record (host : Host) (m : Session) (events : List Event) : Session :=
  if host.tracing then { m with rest := { m.rest with events := events.reverse ++ m.rest.events } }
  else m

/-- The verdict on a run, and what the machine is after it. -/
def conclude {ω : Type} (result : EStateM.Result Interrupt (Machine ω) Unit) :
    Verdict × Machine ω :=
  match result with
  | .ok _ m => (.ok, m)
  | .error interrupt m => (.interrupted interrupt, m)

/-- **Runs a statement** in the global scope. -/
def execute (host : Host) (m : Session) (s : Stmt) : Verdict × Session :=
  conclude ((Evaluator.inRoom host).execute s m.rest.globals m)

/-- **Runs the statements of a program** in the global scope, up to the first that is
interrupted. -/
def executeProgram (host : Host) (m : Session) (program : List Stmt) : Verdict × Session :=
  let evaluator := Evaluator.inRoom host
  conclude (executeAll (fun s => evaluator.execute s m.rest.globals) program m)

/-- **Reads a source text.** -/
def read (host : Host) (m : Session) (source : String) : Except CompileError (List Stmt) × Session :=
  match tokenize source with
  | .error e => (.error (.scan e), m)
  | .ok tokens =>
    let reading := Reading.ofTokens host.room tokens
    -- the visits are recorded up to the error, if there is one
    let m := m.record host (.tokens tokens.toList :: reading.visits.map .visit)
    match reading.statements with
    | .error e => (.error (.syntactic e), m)
    | .ok program => (.ok program, m.record host [.statements program, .interpreting program.length])

/-- **Runs a source text.** A text that is rejected changes nothing. -/
def interpret (host : Host) (m : Session) (source : String) : Verdict × Session :=
  match m.read host source with
  | (.error e, m) => (.rejected e, m)
  | (.ok program, m) => executeProgram host m program

end Session

/-! ### Reports -/

/-- **The status of a run.** A run that `crashed` let out an interrupt which no source text leads
to. -/
inductive Status
  | ok | compileError | runtimeError | crashed
  deriving DecidableEq, Repr

/-- **Reports.** The line that says why a run failed. -/
structure Report where
  status : Status
  complaint : Option String

/-- The report on a verdict. -/
def Verdict.report : Verdict → Report
  | ok => ⟨.ok, none⟩
  | rejected e => ⟨.compileError, some e.message⟩
  | interrupted (.failed e) => ⟨.runtimeError, some e.message⟩
  | interrupted (.misplaced node) => ⟨.crashed, some node.message⟩
  | interrupted (.returning _) => ⟨.crashed, none⟩
  | interrupted .unfinished => ⟨.crashed, none⟩

/-- The event that reports a failure. -/
def Status.events : Status → List Event
  | compileError => [.compileError]
  | runtimeError => [.runtimeError]
  | ok | crashed => []

/-- **Runs a source text** and reports on it. -/
def Session.run (host : Host) (m : Session) (source : String) : Report × Session :=
  let (verdict, m) := m.interpret host source
  let report := verdict.report
  (report, m.record host report.status.events)

end Lox
