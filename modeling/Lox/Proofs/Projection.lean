import Lox.Proofs.Parametricity

/-!
# Projections

A machine that keeps more beside its store may do what a plainer one does. Projections compose, so
that a loop is projected as soon as its clauses are; so are the line that a call adds to an error,
and the value of a body.

* `composes_projects` — projections compose;
* `projects_forLoop` — loops, by their clauses;
* `projects_located`, `projects_valueOf` — what surrounds a call and a body.
-/

namespace Lox

variable {ω ω' ε α β : Type} {f : Machine ω → Machine ω'}

theorem composes_projects :
    Composes fun _ (rich : Action ω ε _) (plain : Action ω' ε _) => Projects f rich plain where
  pure := projects_pure
  bind := projects_bind

theorem projects_located {rich : Action ω Interrupt α} {plain : Action ω' Interrupt α}
    (h : Projects f rich plain) (line : Int) :
    Projects f (Exec.located line rich) (Exec.located line plain) := by
  intro m
  unfold Exec.located
  rw [← h m]
  cases rich m with
  | ok a m' => rfl
  | error e m' => cases e <;> rfl

theorem projects_valueOf {rich : Action ω Interrupt Unit} {plain : Action ω' Interrupt Unit}
    (h : Projects f rich plain) : Projects f (Exec.valueOf rich) (Exec.valueOf plain) := by
  intro m
  unfold Exec.valueOf
  rw [← h m]
  cases rich m with
  | ok a m' => rfl
  | error e m' => cases e <;> rfl

/-- **Loops.** A loop whose clauses are projected is projected. -/
theorem projects_forLoop (hstore : ∀ {β : Type} (g : Store → β × Store),
      Projects f (Action.onStore g : Action ω ε β) (Action.onStore g))
    {rich : ForLoop ω ε} {plain : ForLoop ω' ε}
    (hstart : ∀ scope, Projects f (ForLoop.clause rich.start scope)
      (ForLoop.clause plain.start scope))
    (hgoesOn : ∀ scope, Projects f (rich.goesOn scope) (plain.goesOn scope))
    (hbody : ∀ scope, Projects f (rich.body scope) (plain.body scope))
    (hupdate : ∀ scope, Projects f (ForLoop.clause rich.update scope)
      (ForLoop.clause plain.update scope))
    (hcopied : ∀ scope, Projects f (rich.copied scope) (plain.copied scope))
    (gaveUp : ε) (passes : Nat) (enclosing : ScopeId) :
    Projects f (rich.run gaveUp passes enclosing) (plain.run gaveUp passes enclosing) := by
  have hrelated : rich.Related (fun _ act act' => Projects f act act') enclosing plain :=
    { opened := hstore _, start := hstart, declares := fun _ => hstore _, goesOn := hgoesOn,
      body := hbody, following := fun _ => hstore _, copied := hcopied, update := hupdate }
  exact composes_projects.run hrelated (projects_throw gaveUp) passes

end Lox
