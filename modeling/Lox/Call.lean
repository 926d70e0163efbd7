import Lox.Machine

/-!
# Calls

A call checks that the called value is a function and takes so many arguments. A native function is
left to the host; the body of a closure runs in an activation, a fresh scope that holds the
parameters.

* `invoke` — the call of a value with arguments.
-/

namespace Lox

/-- **What a host does in a call.** `refuse` reports a value that cannot be called with these
arguments. -/
structure CallHooks (ω ε : Type) where
  refuse : Cause → ε
  native : Native → List Value → Action ω ε Value
  body : Closure → List Value → ScopeId → Action ω ε Value

/-- **Calls.** The body of a closure runs in a fresh activation below the scope that the closure
captured, not below the caller's. -/
def invoke {ω ε : Type} (hooks : CallHooks ω ε) (callee : Value) (arguments : List Value) :
    Action ω ε Value :=
  match callee with
  | .literal _ => throw (hooks.refuse .notCallable)
  | .native f =>
    if arguments.length = f.arity then hooks.native f arguments
    else throw (hooks.refuse (.arityMismatch f.name f.arity arguments.length))
  | .closure f => do
    if arguments.length = f.arity then
      let activation ← Action.onStore (·.activate f arguments)
      hooks.body f arguments activation
    else throw (hooks.refuse (.arityMismatch f.name f.arity arguments.length))

end Lox
