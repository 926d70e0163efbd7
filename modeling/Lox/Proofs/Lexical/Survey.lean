import Lox.Proofs.Lexical.Place
import Lox.Proofs.Scribe
import Mathlib.Logic.Function.Basic

/-!
# Surveys

A survey is made by a scribe who writes down which node is run in which scope. The scribe knows the
place of every node that is run, and remembers for which construct each scope was made and where each
function was declared.

* `Survey` — what is written down, with its `Sighting`s;
* `Surveyor`, `Surveyed` — sessions and runs with a survey;
* `Surveyor.scribe` — how a survey is kept.
-/

namespace Lox

/-- **Sightings.** The node at `place` is run in `scope`, in the session as it is at that moment. -/
structure Sighting where
  place : Place
  node : Node
  scope : ScopeId
  session : Session

/-- **Surveys.** `origin` is the construct for which a scope was made, the global scope having none;
`birthplace` is the place of the statement that declared a function. The latest sighting comes first. -/
structure Survey where
  programs : List (List Stmt)
  origin : ScopeId → Option Place
  birthplace : Nat → Place
  sightings : List Sighting

/-- **Surveyed sessions.** -/
abbrev Surveyor := Annotated Survey

/-- **Runs with a survey.** -/
abbrev Surveyed := Annotating Survey

/-- The survey of a surveyed session. -/
def Machine.survey (m : Surveyor) : Survey := m.rest.notes

namespace Surveyor

/-- **The scribe of a survey.** The scopes of calls are made for the functions whose bodies run in
them. A source text that is rejected adds no program, and the place of the next one is behind all
programs. -/
def scribe : Scribe Survey Place where
  part := Place.part
  next := Place.next
  root w _ := ⟨w.programs.length, []⟩
  birthplace w f := w.birthplace f.identity
  note
    | .begins p node scope, m, w => { w with sightings := ⟨p, node, scope, m⟩ :: w.sightings }
    | .opened p scope _, _, w => { w with origin := Function.update w.origin scope (some p) }
    | .made p f, _, w => { w with birthplace := Function.update w.birthplace f.identity p }
    | .program body, _, w => { w with programs := w.programs ++ [body] }
    | _, _, w => w
  start := ⟨[], fun _ => none, fun _ => default, []⟩

/-- Evaluators with a survey. -/
abbrev Evaluator := PlacedEvaluator (AnnotatedConsole Survey) Place

end Surveyor

end Lox
