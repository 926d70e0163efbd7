import Lox.Store

/-!
# Machines

A machine is a store together with whatever else a host keeps. Loops and calls are described for
every host: what a host does in the clauses of a loop or in the body of a function may act on the
store in any way, and may keep state of its own.

* `Machine` — a store and the state of a host;
* `Action` — a step of a machine, with a result or an error.
-/

namespace Lox

/-- **Machines.** -/
structure Machine (ω : Type) where
  store : Store
  rest : ω

/-- **Actions** of a machine. An action that fails keeps its effects. -/
abbrev Action (ω ε : Type) := EStateM ε (Machine ω)

namespace Action

variable {ω ε α : Type}

/-- The store as it is now. -/
def store : Action ω ε Store := fun m => .ok m.store m

/-- An action on the store alone. -/
@[inline] def onStore (f : Store → α × Store) : Action ω ε α := fun ⟨s, rest⟩ =>
  match f s with
  | (a, s) => .ok a ⟨s, rest⟩

end Action

end Lox
