import Lox.Proofs.Scribe
import Mathlib.Logic.Function.Basic

/-!
# Monitors

A monitor is a scribe who keeps the nodes and the calls that are in progress, and takes a snapshot of
the session whenever one of them begins or ends. It knows from which input of the session a node comes,
and remembers for every function in which input it was made; and when an error leaves a node that no
error has left before it, this node is the culprit.

* `Notes` — what a monitor keeps, with its `Activity`s and `Snapshot`s;
* `Monitor`, `Monitored` — sessions and runs with a monitor;
* `Monitor.scribe` — how a monitor takes its notes.
-/

namespace Lox

/-! ### What a monitor keeps -/

/-- **Activities** that are in progress: a node of an input is run, or a value is called. -/
inductive Activity
  | node (chunk : Nat) (node : Node)
  | call (paren : Token)

/-- Is the activity a call? -/
def Activity.isCall : Activity → Bool
  | call _ => true
  | node .. => false

/-- **The number of calls** among some activities. -/
def callsIn (active : List Activity) : Nat := active.countP Activity.isCall

/-- **Snapshots.** What is in progress, the innermost first, and the session at this moment. -/
structure Snapshot where
  active : List Activity
  session : Session

/-- **Notes.** `birth` is the number of the input in which a function was made, and the latest snapshot
comes first. The `culprit` is the node that an error was the first to leave. -/
structure Notes where
  birth : Nat → Nat
  active : List Activity
  snapshots : List Snapshot
  culprit : Option (Nat × Node)

namespace Notes

variable (n : Notes) (m : Session)

/-- **An activity begins.** -/
def begin (a : Activity) : Notes :=
  { n with active := a :: n.active, snapshots := ⟨a :: n.active, m⟩ :: n.snapshots }

/-- **The innermost activity ends.** -/
def finish : Notes := { n with active := n.active.tail, snapshots := ⟨n.active, m⟩ :: n.snapshots }

/-- **An error leaves a node.** Only the first node that it leaves is the culprit. -/
def blame (chunk : Nat) (node : Node) : Notes :=
  { n with culprit := n.culprit.or (some (chunk, node)) }

end Notes

/-- **Monitored sessions.** -/
abbrev Monitor := Annotated Notes

/-- **Runs with a monitor.** -/
abbrev Monitored := Annotating Notes

namespace Monitor

/-- **The scribe of a monitor.** The place of a node is the number of the input that it comes from. No
node has been blamed yet when an input is given. -/
def scribe : Scribe Notes Nat where
  part chunk _ := chunk
  next chunk := chunk
  root _ number := number
  birthplace n f := n.birth f.identity
  note
    | .begins chunk node _, m, n => n.begin m (.node chunk node)
    | .fails chunk node, _, n => n.blame chunk node
    | .ends _ _, m, n => n.finish m
    | .calls paren, m, n => n.begin m (.call paren)
    | .returns _, m, n => n.finish m
    | .made chunk f, _, n => { n with birth := Function.update n.birth f.identity chunk }
    | .input, _, n => { n with culprit := none }
    | _, _, n => n
  start := ⟨fun _ => 0, [], [], none⟩

/-- Evaluators with a monitor. -/
abbrev Evaluator := PlacedEvaluator (AnnotatedConsole Notes) Nat

/-- The monitor sees that an activity begins, -/
def begin (m : Monitor) (a : Activity) : Monitor := m.plain.noted (m.notes.begin m.plain a)

/-- that the innermost one ends, -/
def finish (m : Monitor) : Monitor := m.plain.noted (m.notes.finish m.plain)

/-- and that an error leaves a node. -/
def blame (m : Monitor) (chunk : Nat) (node : Node) : Monitor :=
  m.plain.noted (m.notes.blame chunk node)

/-- A session before anything is in progress. All its functions were there from the beginning. -/
def ofSession (m : Session) : Monitor := m.noted scribe.start

section Steps

variable (host : Host) {α : Type}

/-- Scopes that are opened are not written down, -/
theorem opened_eq (chunk : Nat) (scope : ScopeId) (items : Store → List (String × Value × Bool))
    (act : Monitored α) : (scribe.steps host).opened chunk scope items act = act := rfl

/-- nor are declarations, -/
theorem declare_eq (scope : ScopeId) (name : String) (v : Value) (const : Bool) :
    (scribe.steps host).declare scope name v const =
      Annotating.lift (Exec.declare host scope name v const) := Scribe.after_of_told (fun _ => rfl) _

/-- nor assignments. -/
theorem write_eq (scope : ScopeId) (name : Token) (v : Value) :
    (scribe.steps host).write scope name v = Annotating.lift (Exec.write scope name v) :=
  Scribe.after_of_told (fun _ => rfl) _

end Steps

end Monitor

end Lox
