import Lox.Operator
import Lox.Proofs.Relocation.Tree
import Lox.Store.Lemmas

/-!
# Relocated stores

A store whose closures have relocated bodies. All else in the store is as before, so that every
operation does the same to it, and no operator tells a relocated value from the value itself.

* `Value.relocate`, `Store.relocate` — values and stores with their closures relocated;
* `Value.display_relocate`, `applyBinary_relocate` — what is seen of values;
* `Store.lookup_relocate`, `Store.declare_relocate`, `Store.nextIteration_relocate` — operations.
-/

namespace Lox

variable (f g : Token → Token)

/-! ### Values -/

/-- **A relocated closure** has the identity, the name and the scope that it had before. -/
def Closure.relocate (c : Closure) : Closure := { c with body := Stmt.relocateAll f c.body }

/-- **A relocated value.** -/
def Value.relocate : Value → Value
  | .literal l => .literal l
  | .closure c => .closure (c.relocate f)
  | .native n => .native n

theorem Value.relocate_id (v : Value) : v.relocate id = v := by
  cases v with
  | literal l | native n => rfl
  | closure c =>
    rw [Value.relocate, Closure.relocate, Stmt.relocateAll_id]

theorem Value.relocate_comp (v : Value) : (v.relocate f).relocate g = v.relocate (g ∘ f) := by
  cases v with
  | literal l | native n => rfl
  | closure c =>
    simp only [Value.relocate, Closure.relocate, Stmt.relocateAll_comp]

@[simp] theorem Value.isTruthy_relocate (v : Value) : (v.relocate f).isTruthy = v.isTruthy := by
  cases v <;> rfl

@[simp] theorem Value.display_relocate (v : Value) : (v.relocate f).display = v.display := by
  cases v <;> rfl

/-- Values that are made of nothing but literals stay as they are. -/
theorem Value.relocate_of_literal {v : Value} (h : ∃ l, v = .literal l) : v.relocate f = v := by
  obtain ⟨l, rfl⟩ := h
  rfl

/-- **No operator sees the body of a closure.** -/
theorem applyUnary_relocate (kind : TokenKind) (v : Value) :
    applyUnary kind (v.relocate f) = applyUnary kind v := by
  cases v with
  | literal l | native n => rfl
  | closure c => cases kind <;> rfl

theorem applyBinary_relocate (kind : TokenKind) (v w : Value) :
    applyBinary kind (v.relocate f) (w.relocate f) = applyBinary kind v w := by
  cases v with
  | literal l =>
    cases w with
    | literal l' | native n => rfl
    | closure c => cases l <;> cases kind <;> rfl
  | native n | closure c => cases w <;> cases kind <;> rfl

/-! ### Stores -/

/-- A relocated cell. -/
def Cell.relocate (c : Cell) : Cell := { c with value := c.value.relocate f }

/-- What is declared, relocated. -/
def relocateItem (item : String × Value × Bool) : String × Value × Bool :=
  (item.1, item.2.1.relocate f, item.2.2)

namespace Store

/-- **A relocated store.** -/
def relocate (s : Store) : Store := { s with cells := s.cells.map (Cell.relocate f) }

variable (s : Store)

theorem relocate_id : s.relocate id = s := by
  have hcell : Cell.relocate id = id := funext fun c => by
    rw [Cell.relocate, Value.relocate_id, id]
  rw [relocate, hcell, Array.map_id]

theorem relocate_comp : (s.relocate f).relocate g = s.relocate (g ∘ f) := by
  have hcell : Cell.relocate g ∘ Cell.relocate f = Cell.relocate (g ∘ f) := funext fun c => by
    simp only [Function.comp, Cell.relocate, Value.relocate_comp]
  simp only [relocate, Array.map_map, hcell]

/-! ### Looking up -/

theorem cell_relocate (c : CellId) : (s.relocate f).cell c = (s.cell c).relocate f := by
  simp only [cell, relocate, Array.getElem?_map]
  cases s.cells[c.index]? <;> rfl

theorem resolve_relocate (scope : ScopeId) (name : String) :
    (s.relocate f).resolve scope name = s.resolve scope name := by
  have hparents : ∀ t, (s.relocate f).parent? t = s.parent? t := fun _ => rfl
  rw [resolve, resolve, chain_congr hparents]
  rfl

theorem lookup_relocate (scope : ScopeId) (name : String) :
    (s.relocate f).lookup scope name = s.lookup scope name := by
  rw [lookup, lookup, resolve_relocate]

theorem get_relocate (scope : ScopeId) (name : String) :
    (s.relocate f).get scope name = (s.get scope name).map (Value.relocate f) := by
  rw [get, get, lookup_relocate]
  cases s.lookup scope name with
  | ok c => exact congrArg (fun cell => Except.ok cell.value) (cell_relocate f s c)
  | error e => rfl

theorem contents_relocate (scope : ScopeId) :
    (s.relocate f).contents scope = (s.contents scope).map (relocateItem f) := by
  rw [contents, contents, List.map_map]
  refine List.map_congr_left fun b _ => ?_
  simp only [cell_relocate]
  rfl

/-! ### Operations -/

theorem newScope_relocate (parent : Option ScopeId) :
    (s.relocate f).newScope parent = ((s.newScope parent).1, (s.newScope parent).2.relocate f) := rfl

theorem declare_relocate (scope : ScopeId) (name : String) (v : Value) (const : Bool) :
    (s.relocate f).declare scope name (v.relocate f) const =
      ((s.declare scope name v const).1, (s.declare scope name v const).2.relocate f) := by
  simp only [declare, relocate, Array.size_map, Array.map_push]
  rfl

theorem setCell_relocate (c : CellId) (v : Value) :
    (s.relocate f).setCell c (v.relocate f) = (s.setCell c v).relocate f := by
  have hcells : (s.cells.map (Cell.relocate f)).modify c.index
        (fun cell => { cell with value := v.relocate f }) =
      (s.cells.modify c.index fun cell => { cell with value := v }).map (Cell.relocate f) := by
    refine Array.ext_getElem? fun i => ?_
    simp only [Array.getElem?_modify, Array.getElem?_map]
    by_cases hi : c.index = i
    · simp only [hi, if_true]
      cases s.cells[i]? <;> rfl
    · simp only [hi, if_false]
  simp only [setCell, relocate, hcells]

theorem newClosure_relocate (name : String) (parameters : List String) (body : List Stmt)
    (scope : ScopeId) :
    (s.relocate f).newClosure name parameters (Stmt.relocateAll f body) scope =
      ((s.newClosure name parameters body scope).1.relocate f,
        (s.newClosure name parameters body scope).2.relocate f) := rfl

theorem declareAll_relocate (scope : ScopeId) (items : List (String × Value × Bool)) :
    (s.relocate f).declareAll scope (items.map (relocateItem f)) =
      (s.declareAll scope items).relocate f := by
  induction items generalizing s with
  | nil => rfl
  | cons item items ih =>
    have hfirst : ((s.relocate f).declare scope item.1 (item.2.1.relocate f) item.2.2).2 =
        (s.declare scope item.1 item.2.1 item.2.2).2.relocate f :=
      congrArg Prod.snd (declare_relocate f s scope item.1 item.2.1 item.2.2)
    change declareAll ((s.relocate f).declare scope item.1 (item.2.1.relocate f) item.2.2).2 scope
      (items.map (relocateItem f)) = (declareAll _ scope items).relocate f
    rw [hfirst, ih]

/-- **The next iteration.** -/
theorem nextIteration_relocate (enclosing current : ScopeId) :
    (s.relocate f).nextIteration enclosing current =
      ((s.nextIteration enclosing current).1, (s.nextIteration enclosing current).2.relocate f) := by
  simp only [nextIteration, contents_relocate, newScope_relocate, declareAll_relocate]

/-- **Activations.** -/
theorem activate_relocate (c : Closure) (arguments : List Value) :
    (s.relocate f).activate (c.relocate f) (arguments.map (Value.relocate f)) =
      ((s.activate c arguments).1, (s.activate c arguments).2.relocate f) := by
  have hitems : (c.parameters.zip (arguments.map (Value.relocate f))).map
        (fun item => (item.1, item.2, false)) =
      ((c.parameters.zip arguments).map fun item => (item.1, item.2, false)).map (relocateItem f) := by
    rw [List.zip_map_right, List.map_map, List.map_map]
    rfl
  let opened := (s.newScope (some c.scope)).2
  change ((⟨s.scopes.size⟩ : ScopeId), (opened.relocate f).declareAll ⟨s.scopes.size⟩
    ((c.parameters.zip (arguments.map (Value.relocate f))).map fun item => (item.1, item.2, false))) =
      _
  rw [hitems, declareAll_relocate]
  rfl

end Store

end Lox
