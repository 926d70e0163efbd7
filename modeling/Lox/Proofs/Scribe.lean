import Lox.Proofs.Inputs
import Lox.Proofs.Lexical.Place
import Mathlib.Data.List.Induction

/-!
# Scribes

A scribe sits beside a session and takes notes. It is told which node begins and ends at which place,
and what becomes of calls, scopes, names and functions; what it makes of that is its own affair. The
session does not see the notes.

* `Occurrence` — what a scribe is told;
* `Scribe` — how it keeps places and notes;
* `Scribe.steps`, `Scribe.evaluator` — the small steps of a session with a scribe, and its evaluator;
* `Scribe.interpret`, `Scribe.feed`, `Scribe.feedAll` — source texts, inputs and whole sessions.
-/

namespace Lox

/-! ### Notes -/

/-- **Occurrences,** at places of whatever kind. -/
inductive Occurrence (π : Type)
  /-- A node begins to be run in a scope, -/
  | begins (p : π) (node : Node) (scope : ScopeId)
  /-- an error leaves it, -/
  | fails (p : π) (node : Node)
  /-- and it ends, however it ends. -/
  | ends (p : π) (node : Node)
  /-- A call begins, -/
  | calls (paren : Token)
  /-- and it ends, however it ends. -/
  | returns (paren : Token)
  /-- A scope has been opened for a node, with some items declared in it. -/
  | opened (p : π) (scope : ScopeId) (items : List (String × Value × Bool))
  /-- A function has been made by a node. -/
  | made (p : π) (f : Closure)
  /-- A name has been declared. -/
  | declared (scope : ScopeId) (name : String) (value : Value) (const : Bool)
  /-- A variable has been assigned to. -/
  | assigned (scope : ScopeId) (name : String) (value : Value)
  /-- The session is given something to run, -/
  | input
  /-- and this is the program. -/
  | program (body : List Stmt)

/-- **Scribes.** The places `π` are those of nodes, and `ν` are the notes. -/
structure Scribe (ν π : Type) where
  /-- The place of a part, by its number, -/
  part (p : π) (i : Nat) : π
  /-- and that of the next part. -/
  next (p : π) : π
  /-- The place of the program of an input, by the number of the input. -/
  root (notes : ν) (number : Nat) : π
  /-- The place where a function was made. -/
  birthplace (notes : ν) (f : Closure) : π
  /-- What is written down of an occurrence. The session is as it is then. -/
  note (o : Occurrence π) (m : Session) (notes : ν) : ν
  /-- The notes about a fresh session. -/
  start : ν

/-- What a session keeps beside its store, and the notes about it. -/
structure AnnotatedConsole (ν : Type) where
  console : Console
  notes : ν

/-- **Sessions with notes.** -/
abbrev Annotated (ν : Type) := Machine (AnnotatedConsole ν)

/-- **Runs with notes.** -/
abbrev Annotating (ν : Type) := Action (AnnotatedConsole ν) Interrupt

variable {ν π α : Type}

namespace Machine

/-- The session, without the notes. -/
def plain (m : Annotated ν) : Session := ⟨m.store, m.rest.console⟩

/-- The notes about a session. -/
def notes (m : Annotated ν) : ν := m.rest.notes

/-- A session with notes about it. -/
def noted (m : Session) (notes : ν) : Annotated ν := ⟨m.store, ⟨m.rest, notes⟩⟩

/-- One more call in progress. -/
def entered (m : Annotated ν) : Annotated ν :=
  (Machine.mk m.store { m.rest.console with frames := m.rest.console.frames + 1 }).noted m.notes

/-- One call in progress less. -/
def left (m : Annotated ν) : Annotated ν :=
  (Machine.mk m.store { m.rest.console with frames := m.rest.console.frames - 1 }).noted m.notes

end Machine

/-- A run of the session that nothing is written down of. -/
def Annotating.lift (act : Exec α) : Annotating ν α := fun m =>
  match act m.plain with
  | .ok a m' => .ok a (m'.noted m.notes)
  | .error e m' => .error e (m'.noted m.notes)

namespace Scribe

variable (scribe : Scribe ν π)

/-! ### Small steps -/

/-- **The scribe is told.** -/
def told (o : Occurrence π) (m : Annotated ν) : Annotated ν :=
  m.plain.noted (scribe.note o m.plain m.notes)

/-- The scribe is told before a run. -/
def before (o : Session → Occurrence π) (act : Annotating ν α) : Annotating ν α :=
  fun m => act (scribe.told (o m.plain) m)

/-- The scribe is told behind a run that succeeds. -/
def after (o : Occurrence π) (act : Annotating ν α) : Annotating ν α := fun m =>
  match act m with
  | .ok a m' => .ok a (scribe.told o m')
  | .error e m' => .error e m'

/-- **The run of a node.** It ends however its run ends. -/
def within (p : π) (node : Node) (scope : ScopeId) (act : Annotating ν α) : Annotating ν α := fun m =>
  match act (scribe.told (.begins p node scope) m) with
  | .ok a m' => .ok a (scribe.told (.ends p node) m')
  | .error (.failed e) m' =>
    .error (.failed e) (scribe.told (.ends p node) (scribe.told (.fails p node) m'))
  | .error e m' => .error e (scribe.told (.ends p node) m')

/-- **A call.** It is in progress while the scribe is told. -/
def inCall (paren : Token) (act : Annotating ν α) : Annotating ν α := fun m =>
  match act (scribe.told (.calls paren) m.entered) with
  | .ok a m' => .ok a (scribe.told (.returns paren) m').left
  | .error e m' => .error e (scribe.told (.returns paren) m').left

variable {scribe}

/-- What is not written down is not told either. -/
theorem after_of_told {o : Occurrence π} (h : ∀ m, scribe.told o m = m) (act : Annotating ν α) :
    scribe.after o act = act := by
  funext m
  unfold after
  cases act m with
  | ok a m' => exact congrArg (EStateM.Result.ok a) (h m')
  | error e m' => rfl

/-- **A scribe who does not look at the end** of a node is told of its beginning. -/
theorem within_of_ends {p : π} {node : Node}
    (hends : ∀ m, scribe.told (.ends p node) m = m) (hfails : ∀ m, scribe.told (.fails p node) m = m)
    (scope : ScopeId) (act : Annotating ν α) :
    scribe.within p node scope act = scribe.before (fun _ => .begins p node scope) act := by
  funext m
  unfold within before
  cases act (scribe.told (.begins p node scope) m) with
  | ok a m' => exact congrArg (EStateM.Result.ok a) (hends m')
  | error e m' =>
    cases e with
    | failed e => exact congrArg (EStateM.Result.error _) ((hends _).trans (hfails m'))
    | returning v => exact congrArg (EStateM.Result.error _) (hends m')
    | misplaced node => exact congrArg (EStateM.Result.error _) (hends m')
    | unfinished => exact congrArg (EStateM.Result.error _) (hends m')

variable (scribe) (host : Host)

/-- **The small steps of a session with a scribe.** -/
abbrev steps : Steps (AnnotatedConsole ν) π where
  part := scribe.part
  next := scribe.next
  lift act := Annotating.lift act
  expression p e scope act := scribe.within p (.expr e) scope act
  statement p s scope act := scribe.within p (.stmt s) scope act
  inCall paren act := scribe.inCall paren act
  inBody f act := fun m => act (scribe.birthplace m.notes f) m
  first p clause := some fun scope =>
    scribe.before (fun _ => .opened p scope []) (ForLoop.clause clause scope)
  opened p scope items act := scribe.before (fun m => .opened p scope (items m.store)) act
  made p f act := scribe.before (fun _ => .made p f) act
  declare scope name value const :=
    scribe.after (.declared scope name value const)
      (Annotating.lift (Exec.declare host scope name value const))
  write scope name value :=
    scribe.after (.assigned scope name.lexeme value) (Annotating.lift (Exec.write scope name value))

/-- **The evaluator of a session with a scribe,** in some room. -/
def evaluator (room cost : Nat) : PlacedEvaluator (AnnotatedConsole ν) π :=
  recurse (scribe.steps host).full ((scribe.steps host).step host) room cost

/-- The body of a function in the steps of a scribe. -/
theorem callHooks_body (d : Nat → PlacedEvaluator (AnnotatedConsole ν) π) (f : Closure)
    (arguments : List Value) (activation : ScopeId) :
    ((scribe.steps host).callHooks host d).body f arguments activation =
      (scribe.steps host).inBody f fun p =>
        (scribe.steps host).opened p activation (fun _ => f.items arguments) (do
          Annotating.lift (Exec.emit host fun _ => .called (.closure f) arguments)
          if host.tracing then
            Annotating.lift ((f.parameters.zip arguments).forM fun item =>
              Exec.emit host fun _ => .declared item.1 item.2)
          Exec.valueOf (Steps.executeAll scribe.next (fun p s => (d 4).execute p s activation)
            (scribe.part p 0) f.body)) := rfl

/-! ### Sessions -/

/-- A fresh session with a scribe. -/
def new : Annotated ν := (Session.new host).noted scribe.start

variable (number : Nat) (m : Annotated ν)

/-- Runs the statements of a program in the global scope, at their places. -/
def executeProgram (program : List Stmt) : Verdict × Annotated ν :=
  let place := scribe.root m.notes number
  let run := Steps.executeAll scribe.next
    (fun p s => (scribe.evaluator host host.room 0).execute p s m.rest.console.globals)
    (scribe.part place 0) program
  Session.conclude (run (scribe.told (.program program) m))

/-- **Runs a source text** with a scribe. -/
def interpret (source : String) : Verdict × Annotated ν :=
  match m.plain.read host source with
  | (.error e, m') => (.rejected e, m'.noted m.notes)
  | (.ok program, m') => scribe.executeProgram host number (m'.noted m.notes) program

/-- Runs a tree with a scribe, as the only statement of a program. -/
def execute (s : Stmt) : Verdict × Annotated ν :=
  let place := scribe.part (scribe.root m.notes number) 0
  Session.conclude ((scribe.evaluator host host.room 0).execute place s m.rest.console.globals
    (scribe.told (.program [s]) m))

/-- **Gives a session with a scribe something to run.** -/
def feed (input : Input) : Verdict × Annotated ν :=
  let m := scribe.told .input m
  match input with
  | .source text => scribe.interpret host number m text
  | .tree s => scribe.execute host number m s

/-- One more input of a session with a scribe. The inputs are numbered from nought. -/
def feedNext (before : List Verdict × Annotated ν) (input : Input) : List Verdict × Annotated ν :=
  let (verdict, m) := scribe.feed host before.1.length before.2 input
  (before.1 ++ [verdict], m)

/-- **A whole session** with a scribe. -/
def feedAll (inputs : List Input) : List Verdict × Annotated ν :=
  inputs.foldl (scribe.feedNext host) ([], scribe.new host)

theorem feedAll_append_singleton (inputs : List Input) (input : Input) :
    scribe.feedAll host (inputs ++ [input]) =
      scribe.feedNext host (scribe.feedAll host inputs) input := List.foldl_append

theorem length_feedAll (inputs : List Input) :
    (scribe.feedAll host inputs).1.length = inputs.length := by
  induction inputs using List.reverseRecOn with
  | nil => rfl
  | append_singleton inputs input ih =>
    rw [feedAll_append_singleton]
    change ((scribe.feedAll host inputs).1 ++ [_]).length = _
    rw [List.length_append, ih, List.length_append]
    rfl

/-- The next input of a session has the number of those before it. -/
theorem feedAll_concat (inputs : List Input) (input : Input) :
    scribe.feedAll host (inputs ++ [input]) =
      let after := scribe.feed host inputs.length (scribe.feedAll host inputs).2 input
      ((scribe.feedAll host inputs).1 ++ [after.1], after.2) := by
  rw [feedAll_append_singleton, ← scribe.length_feedAll host inputs]
  rfl

end Scribe

end Lox
