import Lox.Operator
import Lox.Proofs.Renaming.Tree
import Lox.Proofs.Store.Growth

/-!
# Renamed stores

A store in which the names of all scopes are renamed, and so are the bodies and parameters of all
closures. A name is bound in a renamed scope exactly where it was bound before, because no two names
became one; hence every operation does the same to a renamed store.

* `Value.rename`, `Store.rename` — values and stores with their names renamed;
* `Value.display_rename`, `applyBinary_rename` — what is seen of values does not change;
* `bindName_rename`, `lookup_renameBindings` — one scope's bindings;
* `Store.get_rename`, `Store.declare_rename`, `Store.nextIteration_rename`,
  `Store.activate_rename` — the operations of a store.
-/

namespace Lox

variable (ρ : Renaming)

/-! ### Values -/

/-- **A renamed closure.** Its own name is one that is printed, and stays. -/
def Closure.rename (c : Closure) : Closure :=
  { c with parameters := c.parameters.map ρ.name, body := Stmt.renameAll ρ c.body }

/-- **A renamed value.** -/
def Value.rename : Value → Value
  | .literal l => .literal l
  | .closure c => .closure (c.rename ρ)
  | .native n => .native n

@[simp] theorem Closure.arity_rename (c : Closure) : (c.rename ρ).arity = c.arity :=
  List.length_map _

@[simp] theorem Value.isTruthy_rename (v : Value) : (v.rename ρ).isTruthy = v.isTruthy := by
  cases v <;> rfl

@[simp] theorem Value.display_rename (v : Value) : (v.rename ρ).display = v.display := by
  cases v <;> rfl

theorem Value.rename_of_literal {v : Value} (h : ∃ l, v = .literal l) : v.rename ρ = v := by
  obtain ⟨l, rfl⟩ := h
  rfl

/-- **No operator sees a name.** -/
theorem applyUnary_rename (kind : TokenKind) (v : Value) :
    applyUnary kind (v.rename ρ) = applyUnary kind v := by
  cases v with
  | literal l | native n => rfl
  | closure c => cases kind <;> rfl

theorem applyBinary_rename (kind : TokenKind) (v w : Value) :
    applyBinary kind (v.rename ρ) (w.rename ρ) = applyBinary kind v w := by
  cases v with
  | literal l =>
    cases w with
    | literal l' | native n => rfl
    | closure c => cases l <;> cases kind <;> rfl
  | native n | closure c => cases w <;> cases kind <;> rfl

/-! ### Bindings -/

/-- The bindings of a scope under their new names. -/
def renameBindings (bindings : List (String × CellId)) : List (String × CellId) :=
  bindings.map (Prod.map ρ.name id)

/-- **A renamed name is bound** where the name itself was. -/
theorem lookup_renameBindings (name : String) (bindings : List (String × CellId)) :
    (renameBindings ρ bindings).lookup (ρ.name name) = bindings.lookup name := by
  induction bindings with
  | nil => rfl
  | cons head rest ih =>
    obtain ⟨first, c⟩ := head
    have hbeq : (ρ.name name == ρ.name first) = (name == first) := by
      rw [Bool.eq_iff_iff, beq_iff_eq, beq_iff_eq, ρ.injective.eq_iff]
    change ((ρ.name first, c) :: renameBindings ρ rest).lookup (ρ.name name) = _
    rw [List.lookup_cons, List.lookup_cons, hbeq, ih]

/-- **Binding a name** puts it in the same place. -/
theorem bindName_rename (name : String) (c : CellId) (bindings : List (String × CellId)) :
    bindName (ρ.name name) c (renameBindings ρ bindings) =
      renameBindings ρ (bindName name c bindings) := by
  induction bindings with
  | nil => rfl
  | cons head rest ih =>
    obtain ⟨first, old⟩ := head
    change bindName (ρ.name name) c ((ρ.name first, old) :: renameBindings ρ rest) = _
    rw [bindName, bindName, ih]
    by_cases h : first = name
    · rw [if_pos h, if_pos (congrArg ρ.name h)]
      rfl
    · rw [if_neg h, if_neg (ρ.injective.ne h)]
      rfl

/-! ### Stores -/

/-- A renamed cell. -/
def Cell.rename (c : Cell) : Cell := { c with value := c.value.rename ρ }

/-- A renamed scope. -/
def Scope.rename (s : Scope) : Scope := { s with bindings := renameBindings ρ s.bindings }

/-- What is declared, renamed. -/
def renameItem (item : String × Value × Bool) : String × Value × Bool :=
  (ρ.name item.1, item.2.1.rename ρ, item.2.2)

namespace Store

/-- **A renamed store.** -/
def rename (s : Store) : Store :=
  { s with scopes := s.scopes.map (Scope.rename ρ), cells := s.cells.map (Cell.rename ρ) }

variable (s : Store)

/-! ### Looking up -/

theorem cell_rename (c : CellId) : (s.rename ρ).cell c = (s.cell c).rename ρ := by
  simp only [cell, rename, Array.getElem?_map]
  cases s.cells[c.index]? <;> rfl

theorem bindings_rename (scope : ScopeId) :
    (s.rename ρ).bindings scope = renameBindings ρ (s.bindings scope) := by
  simp only [bindings, rename, Array.getElem?_map]
  cases s.scopes[scope.index]? <;> rfl

theorem parent?_rename (scope : ScopeId) : (s.rename ρ).parent? scope = s.parent? scope := by
  simp only [parent?, rename, Array.getElem?_map]
  cases s.scopes[scope.index]? <;> rfl

theorem resolve_rename (scope : ScopeId) (name : String) :
    (s.rename ρ).resolve scope (ρ.name name) = s.resolve scope name := by
  rw [resolve, resolve, chain_congr (parent?_rename ρ s)]
  simp only [bindings_rename, lookup_renameBindings]

theorem lookup_rename (scope : ScopeId) (name : String) :
    (s.rename ρ).lookup scope (ρ.name name) = (s.lookup scope name).mapError (Cause.rename ρ) := by
  rw [lookup, lookup, resolve_rename]
  cases s.resolve scope name <;> rfl

theorem contents_rename (scope : ScopeId) :
    (s.rename ρ).contents scope = (s.contents scope).map (renameItem ρ) := by
  rw [contents, contents, bindings_rename, renameBindings, List.map_map, List.map_map]
  refine List.map_congr_left fun b _ => ?_
  simp only [Function.comp, Prod.map, cell_rename]
  rfl

/-! ### Operations -/

theorem newScope_rename (parent : Option ScopeId) :
    (s.rename ρ).newScope parent = ((s.newScope parent).1, (s.newScope parent).2.rename ρ) := by
  simp only [newScope, rename, Array.size_map, Array.map_push]
  rfl

theorem declare_rename (scope : ScopeId) (name : String) (v : Value) (const : Bool) :
    (s.rename ρ).declare scope (ρ.name name) (v.rename ρ) const =
      ((s.declare scope name v const).1, (s.declare scope name v const).2.rename ρ) := by
  let c : CellId := ⟨s.cells.size⟩
  have hscopes : (s.scopes.map (Scope.rename ρ)).modify scope.index
        (fun sc => { sc with bindings := bindName (ρ.name name) c sc.bindings }) =
      (s.scopes.modify scope.index fun sc =>
        { sc with bindings := bindName name c sc.bindings }).map (Scope.rename ρ) :=
    map_modify (fun sc => congrArg (Scope.mk sc.parent) (bindName_rename ρ name c sc.bindings)) _ _
  simp only [declare, rename, Array.size_map, Array.map_push, hscopes, c]
  rfl

theorem setCell_rename (c : CellId) (v : Value) :
    (s.rename ρ).setCell c (v.rename ρ) = (s.setCell c v).rename ρ := by
  have hcells : (s.cells.map (Cell.rename ρ)).modify c.index
        (fun cell => { cell with value := v.rename ρ }) =
      (s.cells.modify c.index fun cell => { cell with value := v }).map (Cell.rename ρ) := by
    refine map_modify (fun cell => ?_) _ _
    rfl
  simp only [setCell, rename, hcells]

theorem declareAll_rename (scope : ScopeId) (items : List (String × Value × Bool)) :
    (s.rename ρ).declareAll scope (items.map (renameItem ρ)) =
      (s.declareAll scope items).rename ρ := by
  induction items generalizing s with
  | nil => rfl
  | cons item items ih =>
    have hfirst := congrArg Prod.snd (declare_rename ρ s scope item.1 item.2.1 item.2.2)
    change declareAll ((s.rename ρ).declare scope (ρ.name item.1) (item.2.1.rename ρ) item.2.2).2
      scope (items.map (renameItem ρ)) = (declareAll _ scope items).rename ρ
    rw [hfirst, ih]

/-- **The next iteration.** -/
theorem nextIteration_rename (enclosing current : ScopeId) :
    (s.rename ρ).nextIteration enclosing current =
      ((s.nextIteration enclosing current).1, (s.nextIteration enclosing current).2.rename ρ) := by
  simp only [nextIteration, contents_rename, newScope_rename, declareAll_rename]

/-- **Activations.** A parameter is declared under its new name, and again if it was twice there. -/
theorem activate_rename (c : Closure) (arguments : List Value) :
    (s.rename ρ).activate (c.rename ρ) (arguments.map (Value.rename ρ)) =
      ((s.activate c arguments).1, (s.activate c arguments).2.rename ρ) := by
  have hitems : (c.rename ρ).items (arguments.map (Value.rename ρ)) =
      (c.items arguments).map (renameItem ρ) := by
    simp only [Closure.items, Closure.rename]
    rw [List.zip_map, List.map_map, List.map_map]
    rfl
  simp only [activate, hitems]
  simp only [Closure.rename, newScope_rename, declareAll_rename]

end Store

/-! ### What a renaming leaves alone -/

namespace Renaming

/-- **Values in which functions keep their names:** those declared in the body of a closure. -/
def FixesValue : Value → Prop
  | .closure c => ρ.FixesAll c.body
  | .literal _ | .native _ => True

variable {ρ}

theorem fixesValue_of_literal {v : Value} (h : ∃ l, v = .literal l) : ρ.FixesValue v := by
  obtain ⟨l, rfl⟩ := h
  exact trivial

end Renaming

end Lox
