import Lox.Store

/-!
# What the operations of a store do

Three views describe a store: the parent of a scope, the bindings of a scope, and the contents of a
cell. For every operation and every view there is one equation; the chain of a scope, and with it
the depth and what a name refers to, follow from the first two views.

* `map_modify` — one entry changed among others;
* `lookup_bindName`, `names_bindName` — one scope's bindings as a map, and as a list in order;
* `bindings_declare`, `cell_declare`, `parent?_declare` — a declaration touches one scope and adds a
  cell;
* `bindings_newScope`, `parent?_newScope` — a new scope is empty and disturbs no other;
* `bindings_setCell`, `cell_setCell` — a write touches one cell;
* `chain_congr` — stores that agree on parents have the same chains.
-/

namespace Lox

/-! ### Entries -/

/-- A change of one entry, and a change of all entries with which it agrees. -/
theorem map_modify {α β : Type} {g : α → β} {change : α → α} {change' : β → β}
    (h : ∀ a, change' (g a) = g (change a)) (entries : Array α) (i : Nat) :
    (entries.map g).modify i change' = (entries.modify i change).map g := by
  refine Array.ext_getElem? fun j => ?_
  simp only [Array.getElem?_modify, Array.getElem?_map]
  by_cases hj : i = j
  · simp only [hj, if_true]
    cases entries[j]? with
    | none => rfl
    | some a => exact congrArg some (h a)
  · simp only [hj, if_false]

/-! ### Bindings -/

/-- **Binding a name** changes what this name refers to, and nothing else. -/
theorem lookup_bindName (name other : String) (c : CellId) (bindings : List (String × CellId)) :
    (bindName name c bindings).lookup other =
      if other = name then some c else bindings.lookup other := by
  induction bindings with
  | nil =>
    by_cases h : other = name
    · simp [bindName, h]
    · simp [bindName, List.lookup_cons, h, beq_false_of_ne h]
  | cons head rest ih =>
    obtain ⟨first, old⟩ := head
    by_cases hfirst : first = name
    · -- the name is bound here, so that the old cell is replaced in its place
      subst hfirst
      by_cases h : other = first
      · simp [bindName, h]
      · simp [bindName, List.lookup_cons, h, beq_false_of_ne h]
    · -- the search goes on behind the first name on both sides
      by_cases h : other = first
      · subst h
        simp [bindName, hfirst]
      · simp [bindName, hfirst, List.lookup_cons, beq_false_of_ne h, ih]

/-- **The order of names.** A name that is bound already keeps its place, a new one comes last. -/
theorem names_bindName (name : String) (c : CellId) (bindings : List (String × CellId)) :
    (bindName name c bindings).map Prod.fst =
      if name ∈ bindings.map Prod.fst then bindings.map Prod.fst
      else bindings.map Prod.fst ++ [name] := by
  induction bindings with
  | nil => simp [bindName]
  | cons head rest ih =>
    obtain ⟨first, old⟩ := head
    by_cases hfirst : first = name
    · simp [bindName, hfirst]
    · have hname : ¬ name = first := fun h => hfirst h.symm
      rw [bindName, if_neg hfirst]
      by_cases hmem : name ∈ rest.map Prod.fst
      · simp only [List.map_cons, ih, List.mem_cons, hmem, or_true, if_true]
      · simp only [List.map_cons, ih, List.mem_cons, hname, hmem, or_self, if_false,
          List.cons_append]

namespace Store

variable (s : Store)

/-! ### New scopes -/

/-- A new scope is behind all others. -/
@[simp] theorem newScope_fst (parent : Option ScopeId) :
    (s.newScope parent).1 = ⟨s.scopes.size⟩ := rfl

/-- A new scope binds nothing, and no other scope changes. -/
@[simp] theorem bindings_newScope (parent : Option ScopeId) (t : ScopeId) :
    (s.newScope parent).2.bindings t = s.bindings t := by
  simp only [newScope, bindings, Array.getElem?_push]
  by_cases h : t.index = s.scopes.size <;> simp [h]

/-- A new scope has the given parent, and no other scope changes. -/
theorem parent?_newScope (parent : Option ScopeId) (t : ScopeId) :
    (s.newScope parent).2.parent? t =
      if t.index = s.scopes.size then parent else s.parent? t := by
  simp only [newScope, parent?, Array.getElem?_push]
  by_cases h : t.index = s.scopes.size <;> simp [h]

/-- No cell changes with a new scope. -/
@[simp] theorem cell_newScope (parent : Option ScopeId) (c : CellId) :
    (s.newScope parent).2.cell c = s.cell c := rfl

/-! ### Declarations -/

/-- A declaration gives a cell behind all others. -/
@[simp] theorem declare_fst (scope : ScopeId) (name : String) (value : Value) (const : Bool) :
    (s.declare scope name value const).1 = ⟨s.cells.size⟩ := rfl

/-- A declaration binds its name in its scope, and no other scope changes. -/
theorem bindings_declare (scope t : ScopeId) (name : String) (value : Value) (const : Bool)
    (live : scope.index < s.scopes.size) :
    (s.declare scope name value const).2.bindings t =
      if t = scope then bindName name ⟨s.cells.size⟩ (s.bindings t) else s.bindings t := by
  simp only [declare, bindings, Array.getElem?_modify]
  by_cases h : t = scope
  · subst h
    simp [live]
  · have hindex : ¬ scope.index = t.index := fun e => h (by cases t; cases scope; simp_all)
    simp [h, hindex]

/-- A declaration moves no scope. -/
@[simp] theorem parent?_declare (scope t : ScopeId) (name : String) (value : Value) (const : Bool) :
    (s.declare scope name value const).2.parent? t = s.parent? t := by
  simp only [declare, parent?, Array.getElem?_modify]
  by_cases h : scope.index = t.index
  · simp only [h, if_true]
    cases s.scopes[t.index]? <;> rfl
  · simp [h]

/-- The new cell has the declared contents, and no other cell changes. -/
theorem cell_declare (scope : ScopeId) (name : String) (value : Value) (const : Bool) (c : CellId) :
    (s.declare scope name value const).2.cell c =
      if c.index = s.cells.size then ⟨value, const⟩ else s.cell c := by
  simp only [declare, cell, Array.getElem?_push]
  by_cases h : c.index = s.cells.size <;> simp [h]

/-! ### Writes -/

/-- A write moves no scope. -/
@[simp] theorem parent?_setCell (c : CellId) (value : Value) (t : ScopeId) :
    (s.setCell c value).parent? t = s.parent? t := rfl

/-- A write changes no binding. -/
@[simp] theorem bindings_setCell (c : CellId) (value : Value) (t : ScopeId) :
    (s.setCell c value).bindings t = s.bindings t := rfl

/-- A write changes the value of one cell, and not whether it is constant. -/
theorem cell_setCell (c d : CellId) (value : Value) (live : c.index < s.cells.size) :
    (s.setCell c value).cell d = if d = c then ⟨value, (s.cell d).const⟩ else s.cell d := by
  simp only [setCell, cell, Array.getElem?_modify]
  by_cases h : d = c
  · subst h
    simp [live]
  · have hindex : ¬ c.index = d.index := fun e => h (by cases c; cases d; simp_all)
    simp [h, hindex]

/-! ### Chains -/

/-- The ancestors of a scope depend on the parents alone. -/
theorem ancestors_congr {s t : Store} (parents : ∀ scope, s.parent? scope = t.parent? scope)
    (length : Nat) (scope : ScopeId) : s.ancestors length scope = t.ancestors length scope := by
  induction length generalizing scope with
  | zero => rfl
  | succ length ih =>
    rw [ancestors, ancestors, parents scope]
    cases t.parent? scope with
    | none => rfl
    | some parent => simp only [ih]

/-- **Chains** depend on the parents alone. -/
theorem chain_congr {s t : Store} (parents : ∀ scope, s.parent? scope = t.parent? scope)
    (scope : ScopeId) : s.chain scope = t.chain scope := ancestors_congr parents _ scope

/-- A declaration keeps every chain. -/
@[simp] theorem chain_declare (scope t : ScopeId) (name : String) (value : Value) (const : Bool) :
    (s.declare scope name value const).2.chain t = s.chain t :=
  chain_congr (fun _ => parent?_declare ..) t

/-- A write keeps every chain. -/
@[simp] theorem chain_setCell (c : CellId) (value : Value) (t : ScopeId) :
    (s.setCell c value).chain t = s.chain t :=
  chain_congr (parent?_setCell s c value) t

/-- A write keeps what every name refers to. -/
@[simp] theorem resolve_setCell (c : CellId) (value : Value) (t : ScopeId) (name : String) :
    (s.setCell c value).resolve t name = s.resolve t name := by
  simp [resolve]

end Store

end Lox
