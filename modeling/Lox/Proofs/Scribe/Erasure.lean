import Lox.Proofs.Projection
import Lox.Proofs.Scribe

/-!
# Notes have no effect

A session goes exactly as it goes without its scribe, whoever that is. The notes are a projection away
in every small step, so that they are in expressions and statements, and in whole sessions.

* `Scribe.related_steps` — the small steps;
* `Scribe.Follows`, `Scribe.follows_evaluator` — the evaluators in the same room;
* `Scribe.interpret_plain`, `Scribe.feed_plain` — a source text, and whatever a session is given;
* `Scribe.feedAll_plain` — a whole session, with the same verdicts.
-/

namespace Lox

variable {ν π α : Type}

/-- A run that nothing is written down of is the run. -/
theorem projects_lift (act : Exec α) :
    Projects Machine.plain (Annotating.lift act : Annotating ν α) act := by
  intro m
  unfold Annotating.lift
  cases act m.plain <;> rfl

namespace Scribe

variable (scribe : Scribe ν π) {rich : Annotating ν α} {plain : Exec α}

section Surroundings

variable (h : Projects Machine.plain rich plain)

include h

theorem projects_before (o : Session → Occurrence π) :
    Projects Machine.plain (scribe.before o rich) plain := fun m => h (scribe.told (o m.plain) m)

theorem projects_after (o : Occurrence π) :
    Projects Machine.plain (scribe.after o rich) plain := by
  intro m
  rw [← h m]
  unfold after
  cases rich m <;> rfl

/-- **Nodes.** -/
theorem projects_within (p : π) (node : Node) (scope : ScopeId) :
    Projects Machine.plain (scribe.within p node scope rich) plain := by
  intro m
  have hm := h (scribe.told (.begins p node scope) m)
  change _ = plain m.plain at hm
  rw [← hm]
  unfold within
  cases rich (scribe.told (.begins p node scope) m) with
  | ok a m' => rfl
  | error e m' => cases e <;> rfl

/-- **Calls.** -/
theorem projects_inCall (paren : Token) :
    Projects Machine.plain (scribe.inCall paren rich) (Exec.inFrame plain) := by
  intro m
  -- the call itself runs with one more call in progress on both sides
  have hm := h (scribe.told (.calls paren) m.entered)
  change _ = plain ⟨m.store, { m.rest.console with frames := m.rest.console.frames + 1 }⟩ at hm
  change _ = Exec.inFrame plain ⟨m.store, m.rest.console⟩
  unfold inCall Exec.inFrame
  simp only
  rw [← hm]
  cases rich (scribe.told (.calls paren) m.entered) <;> rfl

end Surroundings

/-- **The small steps** do the same beside whatever is written down. -/
theorem related_steps (host : Host) :
    (scribe.steps host).Related host (fun _ rich plain => Projects Machine.plain rich plain)
      (Steps.session host) where
  toComposes := composes_projects
  interrupt e _ := projects_throw e
  onStore _ := fun _ => rfl
  located line _ _ h := projects_located h line
  lift _ := projects_lift _
  inCall paren _ _ h := scribe.projects_inCall h paren
  inBody f _ _ h := fun m => h (scribe.birthplace m.notes f) () m
  first p _ _ _ h scope := scribe.projects_before (h scope) fun _ => .opened p scope []
  opened p _ scope items _ _ h :=
    scribe.projects_before h fun m => .opened p scope (items m.store)
  made p _ f _ _ h := scribe.projects_before h fun _ => .made p f
  declare _ _ _ _ := scribe.projects_after (projects_lift _) _
  write _ _ _ := scribe.projects_after (projects_lift _) _

/-! ### Evaluators -/

/-- **Evaluators that do the same** at every place. -/
structure Follows (rich : PlacedEvaluator (AnnotatedConsole ν) π) (plain : Evaluator) : Prop where
  evaluate p e scope : Projects Machine.plain (rich.evaluate p e scope) (plain.evaluate e scope)
  execute p s scope : Projects Machine.plain (rich.execute p s scope) (plain.execute s scope)

variable {scribe} {host : Host} {d : Nat → PlacedEvaluator (AnnotatedConsole ν) π}
  {d' : Nat → Evaluator}

/-- Several statements. -/
theorem projects_executeAll {rich : PlacedEvaluator (AnnotatedConsole ν) π} {plain : Evaluator}
    (h : Follows rich plain) (next : π → π) (p : π) (scope : ScopeId) (ss : List Stmt) :
    Projects Machine.plain (Steps.executeAll next (fun p s => rich.execute p s scope) p ss)
      (executeAll (fun s => plain.execute s scope) ss) := by
  have hplaced : ∀ s ∈ ss, ∀ (p : π) (p' : Unit), Projects Machine.plain (rich.execute p s scope)
      ((fun _ s => plain.execute s scope : Unit → Stmt → Exec Unit) p' s) :=
    fun s _ p _ => h.execute p s scope
  exact composes_projects.executeAll hplaced p ()

/-- Several expressions. -/
theorem projects_evaluateAll {rich : PlacedEvaluator (AnnotatedConsole ν) π} {plain : Evaluator}
    (h : Follows rich plain) (next : π → π) (p : π) (scope : ScopeId) (es : List Expr) :
    Projects Machine.plain (Steps.evaluateAll next (fun p e => rich.evaluate p e scope) p es)
      (evaluateAll (fun e => plain.evaluate e scope) es) := by
  have hplaced : ∀ (p : π) (p' : Unit) e, Projects Machine.plain (rich.evaluate p e scope)
      ((fun _ e => plain.evaluate e scope : Unit → Expr → Exec Value) p' e) :=
    fun p _ e => h.evaluate p e scope
  exact composes_projects.evaluateAll hplaced es p ()

/-- What a call does with a body. -/
theorem projects_valueOf_body (hd : ∀ cost, Follows (d cost) (d' cost)) (body : List Stmt)
    (activation : ScopeId) (p : π) :
    Projects Machine.plain
      (Exec.valueOf (Steps.executeAll scribe.next (fun p s => (d 4).execute p s activation) p body))
      (Exec.valueOf (executeAll (fun s => (d' 4).execute s activation) body)) :=
  projects_valueOf (projects_executeAll (hd 4) scribe.next p activation body)

/-- **The body of a function.** -/
theorem projects_body (hd : ∀ cost, Follows (d cost) (d' cost)) (f : Closure)
    (arguments : List Value) (activation : ScopeId) :
    Projects Machine.plain (((scribe.steps host).callHooks host d).body f arguments activation)
      ((callHooks host d').body f arguments activation) :=
  (scribe.related_steps host).body
    (fun body activation p _ => projects_valueOf_body hd body activation p) f arguments activation

/-- **One step further up.** -/
theorem follows_step (hd : ∀ cost, Follows (d cost) (d' cost)) :
    Follows ((scribe.steps host).step host d) (Evaluator.step host d') := by
  have hplaced : ∀ cost (p : π) (p' : Unit) e scope, Projects Machine.plain
      ((d cost).evaluate p e scope) ((d' cost).placed.evaluate p' e scope) :=
    fun cost p _ e scope => (hd cost).evaluate p e scope
  constructor
  case evaluate =>
    intro p e scope
    refine scribe.projects_within ?_ p (.expr e) scope
    exact (scribe.related_steps host).evaluateStep hplaced
      (fun body activation p _ => projects_valueOf_body hd body activation p) p () e scope
  case execute =>
    intro p s scope
    refine scribe.projects_within ?_ p (.stmt s) scope
    exact (scribe.related_steps host).executeStep hplaced p ()
      (fun cost part _ p _ scope => (hd cost).execute p part scope) (fun _ _ _ _ => projects_throw _)
      scope

variable (scribe)

/-- **The evaluators in the same room.** -/
theorem follows_evaluator (host : Host) (room cost : Nat) :
    Follows (scribe.evaluator host room cost) (recurse .full (Evaluator.step host) room cost) := by
  have hfails : ∀ {α : Type}, Projects Machine.plain
      (Annotating.lift (Exec.fail .roomExhausted none) : Annotating ν α)
      (Exec.fail .roomExhausted none) := projects_lift _
  have hfull : Follows (scribe.steps host).full .full :=
    ⟨fun p e scope => scribe.projects_within hfails p (.expr e) scope,
      fun p s scope => scribe.projects_within hfails p (.stmt s) scope⟩
  exact recurse_induction₂ hfull (fun _ _ hd => follows_step hd) room cost

/-! ### Sessions -/

/-- The verdict on a run is the same without the notes. -/
theorem conclude_plain (r : EStateM.Result Interrupt (Annotated ν) Unit) :
    Prod.map id Machine.plain (Session.conclude r) =
      Session.conclude (Outcome.project Machine.plain r) := by
  cases r <;> rfl

variable (host : Host) (number : Nat) (m : Annotated ν)

/-- **A program** has the same verdict and leaves the same session. -/
theorem executeProgram_plain (program : List Stmt) :
    Prod.map id Machine.plain (scribe.executeProgram host number m program) =
      m.plain.executeProgram host program := by
  have hall := projects_executeAll (scribe.follows_evaluator host host.room 0) scribe.next
    (scribe.part (scribe.root m.notes number) 0) m.rest.console.globals program
    (scribe.told (.program program) m)
  exact (conclude_plain _).trans (congrArg Session.conclude hall)

/-- **A source text** has the same verdict and leaves the same session. -/
theorem interpret_plain (source : String) :
    Prod.map id Machine.plain (scribe.interpret host number m source) =
      m.plain.interpret host source := by
  unfold interpret Session.interpret
  obtain ⟨events, hread⟩ := m.plain.exists_read_eq host source
  rw [hread]
  cases parse host.room source with
  | error e => rfl
  | ok program => exact scribe.executeProgram_plain host number _ program

/-- **Whatever a session is given** has the same verdict and leaves the same session. -/
theorem feed_plain (input : Input) :
    Prod.map id Machine.plain (scribe.feed host number m input) = m.plain.feed host input := by
  cases input with
  | source text => exact scribe.interpret_plain host number (scribe.told .input m) text
  | tree s =>
    have hstep := (scribe.follows_evaluator host host.room 0).execute
      (scribe.part (scribe.root (scribe.told .input m).notes number) 0) s m.rest.console.globals
      (scribe.told (.program [s]) (scribe.told .input m))
    exact (conclude_plain _).trans (congrArg Session.conclude hstep)

theorem feedNext_plain (before : List Verdict × Annotated ν) (input : Input) :
    Prod.map id Machine.plain (scribe.feedNext host before input) =
      Session.feedNext host (Prod.map id Machine.plain before) input := by
  unfold feedNext Session.feedNext
  rw [Prod.map_snd, ← scribe.feed_plain host before.1.length]
  rfl

/-- **A whole session** has the same verdicts and ends in the same state. -/
theorem feedAll_plain (inputs : List Input) :
    Prod.map id Machine.plain (scribe.feedAll host inputs) = Session.feedAll host inputs := by
  induction inputs using List.reverseRecOn with
  | nil => rfl
  | append_singleton inputs input ih =>
    rw [feedAll_append_singleton, feedNext_plain, ih, Session.feedAll_append_singleton]

end Scribe

end Lox
