import Lox.Machine
import Lox.Recursion

/-!
# Loops

A loop whose every pass has a scope of its own. The scopes of the passes are siblings below the
scope around the loop, so that a closure made in one pass keeps the cells of that pass while later
passes go on in cells of their own.

* `ForLoop` — the clauses of a loop, as actions in the scope of a pass;
* `ForLoop.pass` — one pass;
* `ForLoop.run` — the whole loop.
-/

namespace Lox

/-- **The clauses of a loop** as actions in the scope of a pass. `copied` is told of every scope
that a later pass gets. -/
structure ForLoop (ω ε : Type) where
  start : Option (ScopeId → Action ω ε Unit)
  condition : Option (ScopeId → Action ω ε Value)
  update : Option (ScopeId → Action ω ε Unit)
  body : ScopeId → Action ω ε Unit
  copied : ScopeId → Action ω ε Unit

namespace ForLoop

variable {ω ε : Type}

/-- A clause that may be absent. -/
def clause (hook : Option (ScopeId → Action ω ε Unit)) (scope : ScopeId) : Action ω ε Unit :=
  match hook with
  | none => pure ()
  | some act => act scope

/-- Does the loop go on? Without a condition it does. -/
def goesOn (loop : ForLoop ω ε) (current : ScopeId) : Action ω ε Bool :=
  match loop.condition with
  | none => pure true
  | some test => return (← test current).isTruthy

/-- The scope that follows a pass: a copy where passes have variables of their own, and the same
scope where there is nothing to copy. -/
def advance (loop : ForLoop ω ε) (enclosing : ScopeId) (fresh : Bool) (current : ScopeId) :
    Action ω ε ScopeId := do
  if fresh then
    let following ← Action.onStore (·.nextIteration enclosing current)
    loop.copied following
    return following
  return current

/-- **One pass.** The condition and the body belong to this pass, the update to the next one. -/
def pass (loop : ForLoop ω ε) (enclosing : ScopeId) (fresh : Bool) (current : ScopeId) :
    Action ω ε (Turn ScopeId Unit) := do
  if ← loop.goesOn current then
    loop.body current
    -- the copy is made before the update, which so leaves the cells of this pass alone
    let following ← loop.advance enclosing fresh current
    clause loop.update following
    return .again following
  return .done ()

/-- **A loop below `enclosing`.** Every pass has a scope of its own if the first clause declares a
name, and all passes share one scope if it does not. After `passes` passes the loop is given up. -/
def run (loop : ForLoop ω ε) (unfinished : ε) (passes : Nat) (enclosing : ScopeId) :
    Action ω ε Unit := do
  let first ← Action.onStore (·.newScope (some enclosing))
  clause loop.start first
  -- what the body declares later does not count
  let fresh := !((← Action.store).bindings first).isEmpty
  iterate unfinished (loop.pass enclosing fresh) passes first

end ForLoop

end Lox
