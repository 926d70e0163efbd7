import Lox.RuntimeError
import Lox.Value

/-!
# The store

All scopes and cells of a running program. A scope binds names to cells and has a parent, unless it
is the outermost one; a cell holds a value and knows whether it is constant. Closures refer to
scopes and scopes to cells, so that every read goes through the live chain of scopes and every write
lands in a shared cell.

* `Store.newScope`, `Store.declare` — the two ways to make the store larger;
* `Store.chain` — a scope and its ancestors, on which all look-up rests;
* `Store.resolve`, `Store.get`, `Store.assign` — what a name refers to, its value, and a new value
  for it;
* `Store.nextIteration` — a sibling of a scope with fresh cells of the same values;
* `Store.activate` — the scope of a call.
-/

namespace Lox

/-- **Cells.** The value of a constant cell is not assigned to. -/
structure Cell where
  value : Value
  const : Bool
  deriving Inhabited

/-- **Scopes.** The bindings are in the order in which their names were first declared. -/
structure Scope where
  parent : Option ScopeId
  bindings : List (String × CellId)
  deriving Inhabited

/-- **Stores.** `functions` counts the closures and natives made so far, whose identities it
gives. -/
structure Store where
  scopes : Array Scope
  cells : Array Cell
  functions : Nat
  deriving Inhabited

/-- Binds a name to a cell: in its place if it is bound already, behind all others if not. -/
def bindName (name : String) (cell : CellId) : List (String × CellId) → List (String × CellId)
  | [] => [(name, cell)]
  | (other, old) :: rest =>
    if other = name then (name, cell) :: rest else (other, old) :: bindName name cell rest

namespace Store

/-- The store of a program that has not started. -/
def empty : Store := ⟨#[], #[], 0⟩

/-! ### Looking up -/

/-- The parent of a scope. -/
def parent? (s : Store) (scope : ScopeId) : Option ScopeId :=
  s.scopes[scope.index]?.bind (·.parent)

/-- The bindings of a scope, without those of its ancestors. -/
def bindings (s : Store) (scope : ScopeId) : List (String × CellId) :=
  (s.scopes[scope.index]?.map (·.bindings)).getD []

/-- The contents of a cell. -/
def cell (s : Store) (c : CellId) : Cell := s.cells[c.index]?.getD ⟨.nil, false⟩

/-- The first `length` scopes on the way from a scope outwards. -/
def ancestors (s : Store) : Nat → ScopeId → List ScopeId
  | 0, _ => []
  | length + 1, scope =>
    scope :: match s.parent? scope with
      | none => []
      | some parent => s.ancestors length parent

/-- **The chain of a scope:** the scope, its parent, and so on to the outermost one. A parent is
older than its child, so that the number of the scope bounds the chain. -/
def chain (s : Store) (scope : ScopeId) : List ScopeId := s.ancestors (scope.index + 1) scope

/-- How many ancestors a scope has. -/
def depth (s : Store) (scope : ScopeId) : Nat := (s.chain scope).length - 1

/-- **The cell that a name refers to:** that of the nearest scope on the chain which binds it. -/
def resolve (s : Store) (scope : ScopeId) (name : String) : Option CellId :=
  (s.chain scope).findSome? fun ancestor => (s.bindings ancestor).lookup name

/-- The cell that a name refers to, or the reason why there is none. -/
def lookup (s : Store) (scope : ScopeId) (name : String) : Except Cause CellId :=
  match s.resolve scope name with
  | some c => .ok c
  | none => .error (.undefinedVariable name)

/-- **The value of a name.** -/
def get (s : Store) (scope : ScopeId) (name : String) : Except Cause Value :=
  match s.lookup scope name with
  | .ok c => .ok (s.cell c).value
  | .error e => .error e

/-! ### Making scopes and cells -/

/-- **A new scope,** without bindings. -/
def newScope (s : Store) (parent : Option ScopeId) : ScopeId × Store :=
  (⟨s.scopes.size⟩, { s with scopes := s.scopes.push ⟨parent, []⟩ })

/-- **Declares a name** in a scope, with a fresh cell. A cell that the name had there before is
replaced and left as it is, and so are the bindings of all other scopes. -/
def declare (s : Store) (scope : ScopeId) (name : String) (value : Value) (const : Bool) :
    CellId × Store :=
  let c : CellId := ⟨s.cells.size⟩
  (c, { s with
    cells := s.cells.push ⟨value, const⟩
    scopes := s.scopes.modify scope.index fun sc =>
      { sc with bindings := bindName name c sc.bindings } })

/-- A new closure over a scope. -/
def newClosure (s : Store) (name : String) (parameters : List String) (body : List Stmt)
    (scope : ScopeId) : Closure × Store :=
  (⟨s.functions, name, parameters, body, scope⟩, { s with functions := s.functions + 1 })

/-- A new native function. -/
def newNative (s : Store) (name : String) (arity : Int) : Native × Store :=
  (⟨s.functions, name, arity⟩, { s with functions := s.functions + 1 })

/-! ### Changing cells -/

/-- Overwrites the value of a cell, constant or not. -/
def setCell (s : Store) (c : CellId) (value : Value) : Store :=
  { s with cells := s.cells.modify c.index fun cell => { cell with value := value } }

/-- **Assigns to a name.** -/
def assign (s : Store) (scope : ScopeId) (name : String) (value : Value) : Except Cause Store :=
  match s.lookup scope name with
  | .error e => .error e
  | .ok c => if (s.cell c).const then .error (.constAssignment name) else .ok (s.setCell c value)

/-! ### Scopes of loops and calls -/

/-- Declares several names in a scope, one after the other. -/
def declareAll (s : Store) (scope : ScopeId) (items : List (String × Value × Bool)) : Store :=
  items.foldl (fun s (name, value, const) => (s.declare scope name value const).2) s

/-- The names of a scope with what their cells hold. -/
def contents (s : Store) (scope : ScopeId) : List (String × Value × Bool) :=
  (s.bindings scope).map fun (name, c) => (name, (s.cell c).value, (s.cell c).const)

/-- **The next iteration:** a sibling of `current` below `enclosing`, with fresh cells for the same
names that hold the current values. -/
def nextIteration (s : Store) (enclosing current : ScopeId) : ScopeId × Store :=
  let items := s.contents current
  let (following, s) := s.newScope (some enclosing)
  (following, s.declareAll following items)

/-- **The activation of a closure:** a scope below the one that the closure captured, in which its
parameters are declared. -/
def activate (s : Store) (f : Closure) (arguments : List Value) : ScopeId × Store :=
  let (activation, s) := s.newScope (some f.scope)
  (activation, s.declareAll activation (f.items arguments))

/-! ### Descriptions -/

/-- A cell inside a trace. -/
def describeCell (c : Cell) : String :=
  "<Cell :value " ++ c.value.describe ++ " :const " ++ (Literal.bool c.const).describe ++ ">"

/-- The names of a scope as a list of quoted texts. -/
def describeNames (s : Store) (scope : ScopeId) : String :=
  Text.bracketed ((s.bindings scope).map fun (name, _) => Text.quoted name)

/-- A scope inside a trace. -/
def describeScope (s : Store) (scope : ScopeId) : String :=
  "<Scope :depth " ++ toString (s.depth scope) ++ " :names " ++ s.describeNames scope ++ ">"

end Store

end Lox
