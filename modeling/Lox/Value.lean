import Lox.Tree

/-!
# Values

The values of a running program: literals, closures, and native functions. Closures and natives have
an identity, which is all that their equality looks at.

* `Value` — the values, with `Value.nil`, `Value.bool`, `Value.number` and `Value.string` for the
  literals;
* `Value.isTruthy`, `Value.equals` — conditions and equality;
* `Value.display`, `Value.describe` — the printed text, and the text inside a trace.
-/

namespace Lox

/-- The name of a scope in a store. Scopes are numbered in the order of their creation. -/
structure ScopeId where
  index : Nat
  deriving DecidableEq, Repr, Inhabited

/-- The name of a cell in a store. Cells are numbered in the order of their creation. -/
structure CellId where
  index : Nat
  deriving DecidableEq, Repr, Inhabited

/-- **Closures.** A function together with the scope that was live where it was declared: the scope
itself, so that the body sees every later change. -/
structure Closure where
  identity : Nat
  name : String
  parameters : List String
  body : List Stmt
  scope : ScopeId

/-- **Native functions,** whose behaviour is known to the host alone. The host may claim any arity; a
negative one makes a function that no call fits. -/
structure Native where
  identity : Nat
  name : String
  arity : Int

/-- **Values.** -/
inductive Value
  | literal (value : Literal)
  | closure (function : Closure)
  | native (function : Native)

/-- How many arguments a closure takes. -/
def Closure.arity (c : Closure) : Nat := c.parameters.length

/-- The parameters of a closure with the arguments of a call, as variables. -/
def Closure.items (f : Closure) (arguments : List Value) : List (String × Value × Bool) :=
  (f.parameters.zip arguments).map fun (name, value) => (name, value, false)

namespace Value

/-- The value that stands for nothing. -/
@[match_pattern] abbrev nil : Value := literal .nil

/-- A truth value. -/
@[match_pattern] abbrev bool (value : Bool) : Value := literal (.bool value)

/-- A number. -/
@[match_pattern] abbrev number (value : Float) : Value := literal (.number value)

/-- A string. -/
@[match_pattern] abbrev string (value : String) : Value := literal (.string value)

instance : Inhabited Value := ⟨nil⟩

/-- Is the value a number? Truth values are not. -/
def isNumber : Value → Bool
  | number _ => true
  | _ => false

/-- **Truthiness.** Every function is accepted. -/
def isTruthy : Value → Bool
  | literal l => l.isTruthy
  | _ => true

/-- **Equality.** Functions are equal only to themselves. -/
def equals : Value → Value → Bool
  | literal a, literal b => a.equals b
  | closure f, closure g => f.identity == g.identity
  | native f, native g => f.identity == g.identity
  | _, _ => false

/-- **The printed text.** -/
def display : Value → String
  | literal l => l.display
  | closure f => "<fn " ++ f.name ++ ">"
  | native f => "<native fn " ++ f.name ++ ">"

/-- **The text inside a trace.** -/
def describe : Value → String
  | literal l => l.describe
  | closure f => "<ObjClosure :name " ++ f.name ++ " :arity " ++ toString f.arity ++ ">"
  | native f => "<ObjNative :name " ++ f.name ++ " :arity " ++ toString f.arity ++ ">"

end Value

end Lox
