import Lox.Proofs.Loop.Replaced
import Lox.Proofs.Parametricity

/-!
# More room

A run that was not cut short does exactly the same in more room. Nothing that a program does depends
on how much room is left, and nothing catches the lack of it, so that either the run is cut short
in the smaller room or the larger one does not show.

* `Persists` — an action that does the same, unless it is cut short;
* `parametric_persists` — whatever happens in a run may be in it;
* `Evaluator.Persists` — evaluators that do, `Evaluator.Persists.step` for one step;
* `persists_within` — the evaluators of a host in two rooms.
-/

namespace Lox

variable {α β γ : Type}

/-- **The second action does the same as the first,** unless the first is cut short. -/
def Persists (act act' : Exec α) : Prop := ∀ m, Exhausted (act m) ∨ act' m = act m

theorem persists_refl (act : Exec α) : Persists act act := fun _ => .inr rfl

/-- **One action after the other.** -/
theorem persists_bind {act act' : Exec β} {next next' : β → Exec α} (h : Persists act act')
    (hnext : ∀ b, Persists (next b) (next' b)) : Persists (act >>= next) (act' >>= next') := by
  intro m
  obtain hshort | hsame := h m
  · exact .inl hshort.bind
  · change Exhausted (EStateM.bind act next m) ∨ EStateM.bind act' next' m = EStateM.bind act next m
    unfold EStateM.bind
    rw [hsame]
    cases act m with
    | ok b m' => exact hnext b m'
    | error e m' => exact .inr rfl

section Surroundings

variable {act act' : Exec α} (h : Persists act act')

include h

theorem persists_located (line : Int) : Persists (Exec.located line act) (Exec.located line act') := by
  intro m
  refine (h m).imp (fun hshort => hshort.located line) fun hsame => ?_
  rw [Exec.located, Exec.located, hsame]

theorem persists_inFrame : Persists (Exec.inFrame act) (Exec.inFrame act') := by
  intro m
  refine (h _).imp Exhausted.inFrame fun hsame => ?_
  rw [Exec.inFrame, Exec.inFrame, hsame]

end Surroundings

theorem persists_valueOf {body body' : Exec Unit} (h : Persists body body') :
    Persists (Exec.valueOf body) (Exec.valueOf body') := by
  intro m
  refine (h m).imp Exhausted.valueOf fun hsame => ?_
  rw [Exec.valueOf, Exec.valueOf, hsame]

/-! ### Evaluators -/

/-- **Evaluators of which the second does the same** as the first, unless that is cut short. -/
structure Evaluator.Persists (ev ev' : Evaluator) : Prop where
  evaluate : ∀ e scope, Lox.Persists (ev.evaluate e scope) (ev'.evaluate e scope)
  execute : ∀ s scope, Lox.Persists (ev.execute s scope) (ev'.execute s scope)

/-- A run goes on in the same way as long as it is not cut short. -/
theorem parametric_persists (host : Host) : Parametric host fun _ act act' => Persists act act' where
  pure _ := persists_refl _
  bind := persists_bind
  interrupt _ _ := persists_refl _
  onStore _ := persists_refl _
  frames := persists_refl _
  print _ := persists_refl _
  emit _ := persists_refl _
  readClock := persists_refl _
  inFrame := persists_inFrame
  located line _ _ h := persists_located h line

/-- **One step** with evaluators that persist. -/
theorem Evaluator.Persists.step (host : Host) {d d' : Nat → Evaluator}
    (hd : ∀ cost, (d cost).Persists (d' cost)) :
    (Evaluator.step host d).Persists (Evaluator.step host d') := by
  have h := parametric_persists host
  have hevaluate := fun cost => (hd cost).evaluate
  constructor
  case evaluate =>
    exact h.evaluateStep d d' hevaluate fun body activation =>
      persists_valueOf (h.executeAll' _ _ fun s _ => (hd 4).execute s activation)
  case execute =>
    exact fun s => h.executeStep d d' hevaluate (fun cost s _ => (hd cost).execute s)
      fun _ _ _ _ => persists_refl _

/-! ### Two rooms -/

/-- Without room every run is cut short. -/
theorem persists_full (ev : Evaluator) : Evaluator.full.Persists ev where
  evaluate _ _ m := .inl ⟨none, m, rfl⟩
  execute _ _ m := .inl ⟨none, m, rfl⟩

/-- **The evaluators of a host in two rooms,** at the same cost. -/
theorem persists_recurse (host : Host) {room room' : Nat} (hroom : room ≤ room') (cost : Nat) :
    (recurse Evaluator.full (.step host) room cost).Persists
      (recurse .full (.step host) room' cost) :=
  recurse_induction_le persists_full (fun _ _ hd => .step host hd) hroom cost

/-- **A program in two rooms.** It does the same in the larger one, unless it is cut short in the
other. -/
theorem persists_within (host : Host) {room room' : Nat} (hroom : room ≤ room') (scope : ScopeId)
    (program : List Stmt) :
    Persists (executeAll (fun s => (Evaluator.within host room).execute s scope) program)
      (executeAll (fun s => (Evaluator.within host room').execute s scope) program) :=
  (parametric_persists host).executeAll' _ _ fun s _ =>
    (persists_recurse host hroom 0).execute s scope

end Lox
