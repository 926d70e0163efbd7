import Lox.Event
import Lox.Machine

/-!
# Sessions

A session outlives the programs that are run in it: what they declare stays declared. Beside the
store it keeps the global scope, the number of calls in progress, the output, and the events if it
is traced.

* `Session` — sessions, `Session.new` a fresh one;
* `Interrupt` — how the run of a statement can end other than normally;
* `Exec` — runs, with their small steps: names, output, calls in progress.
-/

namespace Lox

/-- **Hosts.** The room for nested evaluation, the passes that a loop may take before it is given
up, the readings of the clock one after the other, and whether events are kept. -/
structure Host where
  room : Nat
  passes : Nat
  clock : Nat → Float
  tracing : Bool

/-- The host of a run without trace, whose clock counts its own readings. -/
def Host.standard : Host := ⟨5000, Nat.pow 2 60, fun n => Float.ofNat (n + 1), false⟩

/-- **What a session keeps beside the store.** `frames` counts the calls in progress and `readings`
the readings of the clock; the latest of the `events` comes first. -/
structure Console where
  globals : ScopeId
  frames : Nat
  output : String
  events : List Event
  readings : Nat

/-- **Sessions.** -/
abbrev Session := Machine Console

/-- A node that cannot be run, because it stands where it does not belong. -/
inductive Misplaced
  | statement (description : String)
  | expression (description : String)

/-- The text about a misplaced node. -/
def Misplaced.message : Misplaced → String
  | statement description => "statement " ++ description ++ " not implemented"
  | expression description => "expression " ++ description ++ " not implemented"

/-- **Interrupts.** A return on its way to its call, an error, a misplaced node, or a loop that was
given up. -/
inductive Interrupt
  | returning (value : Value)
  | failed (error : RuntimeError)
  | misplaced (node : Misplaced)
  | unfinished

/-- **Runs.** -/
abbrev Exec := Action Console Interrupt

namespace Session

/-- The names that a session has declared globally. -/
def globalNames (m : Session) : String := m.store.describeNames m.rest.globals

/-- A session inside a trace. -/
def describe (m : Session) : String :=
  "<Interpreter :frames " ++ toString m.rest.frames ++ " :globals " ++ m.globalNames ++ ">"

end Session

namespace Exec

variable {α : Type}

/-- Adds an event to a traced session. -/
def emit (host : Host) (event : Unit → Event) : Exec Unit := fun m =>
  if host.tracing then
    .ok () { m with rest := { m.rest with events := event () :: m.rest.events } }
  else .ok () m

/-- Writes a line. -/
def print (text : String) : Exec Unit := fun ⟨s, rest⟩ =>
  .ok () ⟨s, { rest with output := rest.output ++ text ++ "\n" }⟩

/-- The number of calls in progress. -/
def frames : Exec Nat := fun m => .ok m.rest.frames m

/-- The next reading of the clock. -/
def readClock (host : Host) : Exec Value := fun ⟨s, rest⟩ =>
  .ok (.number (host.clock rest.readings)) ⟨s, { rest with readings := rest.readings + 1 }⟩

/-- **Fails** for a reason, on a line if one is known. -/
def fail (cause : Cause) (line : Option Int) : Exec α := throw (.failed ⟨cause, line⟩)

/-- The value of an operation, or its failure on a line. -/
def orFail (line : Int) : Except Cause α → Exec α
  | .ok a => pure a
  | .error cause => fail cause (some line)

/-- **Reads a variable.** -/
def read (scope : ScopeId) (name : Token) : Exec Value := do
  orFail name.line ((← Action.store).get scope name.lexeme)

/-- **Assigns to a variable.** The assignment has the assigned value. -/
def write (scope : ScopeId) (name : Token) (value : Value) : Exec Value := fun ⟨s, rest⟩ =>
  match s.lookup scope name.lexeme with
  | .error cause => fail cause (some name.line) ⟨s, rest⟩
  | .ok c =>
    if (s.cell c).const then fail (.constAssignment name.lexeme) (some name.line) ⟨s, rest⟩
    else .ok value ⟨s.setCell c value, rest⟩

/-- **Declares a name.** -/
def declare (host : Host) (scope : ScopeId) (name : String) (value : Value) (const : Bool) :
    Exec Unit := do
  let _ ← Action.onStore (·.declare scope name value const)
  emit host fun _ => .declared name value

/-- Reports the names of a scope as declared. -/
def emitContents (host : Host) (scope : ScopeId) : Exec Unit := do
  if host.tracing then
    let s ← Action.store
    (s.contents scope).forM fun (name, value, _) => emit host fun _ => .declared name value

/-- **One more call in progress.** The count is restored however the call ends. -/
def inFrame (call : Exec α) : Exec α := fun ⟨s, rest⟩ =>
  match call ⟨s, { rest with frames := rest.frames + 1 }⟩ with
  | .ok a ⟨s, rest⟩ => .ok a ⟨s, { rest with frames := rest.frames - 1 }⟩
  | .error e ⟨s, rest⟩ => .error e ⟨s, { rest with frames := rest.frames - 1 }⟩

/-- **Adds a line** to an error that leaves an action without one. -/
def located {ω : Type} (line : Int) (act : Action ω Interrupt α) : Action ω Interrupt α := fun m =>
  match act m with
  | .error (.failed e) m => .error (.failed (e.locate (some line))) m
  | result => result

/-- **The value of a body:** that of the return which ends it, if one does. -/
def valueOf {ω : Type} (body : Action ω Interrupt Unit) : Action ω Interrupt Value := fun m =>
  match body m with
  | .ok _ m => .ok .nil m
  | .error (.returning value) m => .ok value m
  | .error e m => .error e m

end Exec

/-- **A fresh session.** Its only global name is that of the clock. -/
def Session.new (host : Host) : Session :=
  let (globals, s) := Store.empty.newScope none
  let (clock, s) := s.newNative "clock" 0
  let m : Session := ⟨s, ⟨globals, 0, "", [], 0⟩⟩
  match Exec.declare host globals clock.name (.native clock) false m with
  | .ok _ m => m
  | .error _ m => m

end Lox
