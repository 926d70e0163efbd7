import Lox.Store.Lemmas
import Mathlib.Data.Nat.Basic

/-!
# How stores grow

A store is never cleared: scopes are added behind the others and keep their parents. In a store whose
parents are older than their children, the chain of a scope is the scope followed by the chain of its
parent, and no later scope disturbs it.

* `Store.Ordered` — parents are older than their children;
* `Store.Grown` — what all operations of a store have in common;
* `Store.Ordered.chain_eq` — the chain of a scope, from that of its parent;
* `Store.Grown.chain_eq` — the chains of old scopes are kept for good;
* `Store.Ordered.chain_newScope` — the chain of a new scope;
* `Store.Keeps` — what holds of the values in all cells.
-/

namespace Lox

namespace Store

/-- **Ordered stores.** A parent is older than its child. -/
def Ordered (s : Store) : Prop := ∀ t p, s.parent? t = some p → p.index < t.index

/-- **Grown stores.** `t` has the scopes of `s` with the same parents, and possibly more. -/
structure Grown (s t : Store) : Prop where
  /-- No scope is given up. -/
  scopes_le : s.scopes.size ≤ t.scopes.size
  /-- No cell is given up. -/
  cells_le : s.cells.size ≤ t.cells.size
  /-- No identity is given out twice. -/
  functions_le : s.functions ≤ t.functions
  /-- No scope moves. -/
  parent_eq : ∀ scope : ScopeId, scope.index < s.scopes.size →
    t.parent? scope = s.parent? scope

theorem Grown.refl (s : Store) : Grown s s := ⟨le_rfl, le_rfl, le_rfl, fun _ _ => rfl⟩

theorem Grown.trans {s t u : Store} (h : Grown s t) (h' : Grown t u) : Grown s u where
  scopes_le := le_trans h.scopes_le h'.scopes_le
  cells_le := le_trans h.cells_le h'.cells_le
  functions_le := le_trans h.functions_le h'.functions_le
  parent_eq scope hscope := by
    rw [h'.parent_eq scope (lt_of_lt_of_le hscope h.scopes_le), h.parent_eq scope hscope]

/-! ### Chains of ordered stores -/

variable {s t : Store}

/-- In an ordered store any length beyond the number of the scope gives the whole chain. -/
theorem Ordered.ancestors_eq_chain (h : s.Ordered) {length : Nat} {scope : ScopeId}
    (hlength : scope.index < length) : s.ancestors length scope = s.chain scope := by
  induction length using Nat.strong_induction_on generalizing scope with
  | h length ih =>
    obtain ⟨length, rfl⟩ := Nat.exists_eq_succ_of_ne_zero (Nat.ne_of_gt (Nat.zero_lt_of_lt hlength))
    rw [chain, ancestors, ancestors]
    cases hparent : s.parent? scope with
    | none => rfl
    | some parent =>
      have hlt := h scope parent hparent
      -- both sides cut the chain of the parent at a length that it does not reach
      have hleft : s.ancestors length parent = s.chain parent :=
        ih length (Nat.lt_succ_self length) (by omega)
      have hright : s.ancestors scope.index parent = s.chain parent :=
        ih scope.index hlength hlt
      simp only [hleft, hright]

/-- **The chain of a scope** is the scope and the chain of its parent. -/
theorem Ordered.chain_eq (h : s.Ordered) (scope : ScopeId) :
    s.chain scope = scope :: match s.parent? scope with
      | none => []
      | some parent => s.chain parent := by
  rw [chain, ancestors]
  cases hparent : s.parent? scope with
  | none => rfl
  | some parent => simp only [h.ancestors_eq_chain (h scope parent hparent)]

/-- **What a name refers to** in a scope: what the scope binds, or else what it refers to in the
parent. -/
theorem Ordered.resolve_eq (h : s.Ordered) (scope : ScopeId) (name : String) :
    s.resolve scope name = ((s.bindings scope).lookup name).or (match s.parent? scope with
      | none => none
      | some parent => s.resolve parent name) := by
  rw [resolve, h.chain_eq, List.findSome?_cons]
  cases (s.bindings scope).lookup name with
  | some c => rfl
  | none => cases s.parent? scope <;> rfl

/-- A chain leads to older scopes only. -/
theorem Ordered.index_le_of_mem_chain (h : s.Ordered) {scope other : ScopeId}
    (hmem : other ∈ s.chain scope) : other.index ≤ scope.index := by
  induction hn : scope.index using Nat.strong_induction_on generalizing scope with
  | h n ih =>
    rw [h.chain_eq, List.mem_cons] at hmem
    rcases hmem with rfl | hmem
    · omega
    · cases hparent : s.parent? scope with
      | none => rw [hparent] at hmem; simp at hmem
      | some parent =>
        rw [hparent] at hmem
        have hlt := h scope parent hparent
        have := ih parent.index (by omega) hmem rfl
        omega

/-- **The chains of old scopes are kept for good.** -/
theorem Grown.chain_eq (hgrown : Grown s t) (hs : s.Ordered) (ht : t.Ordered) {scope : ScopeId}
    (hscope : scope.index < s.scopes.size) : t.chain scope = s.chain scope := by
  induction hn : scope.index using Nat.strong_induction_on generalizing scope with
  | h n ih =>
    rw [ht.chain_eq, hs.chain_eq, hgrown.parent_eq scope hscope]
    cases hparent : s.parent? scope with
    | none => rfl
    | some parent =>
      have hlt := hs scope parent hparent
      simp only [ih parent.index (by omega) (by omega) rfl]

/-! ### The operations -/

section Operations

variable (s)

@[simp] theorem scopes_size_newScope (parent : Option ScopeId) :
    (s.newScope parent).2.scopes.size = s.scopes.size + 1 := by
  simp [newScope]

@[simp] theorem scopes_size_declare (scope : ScopeId) (name : String) (value : Value)
    (const : Bool) : (s.declare scope name value const).2.scopes.size = s.scopes.size := by
  simp [declare]

@[simp] theorem cells_size_declare (scope : ScopeId) (name : String) (value : Value)
    (const : Bool) : (s.declare scope name value const).2.cells.size = s.cells.size + 1 := by
  simp [declare]

/-- A new scope binds nothing. -/
theorem bindings_newScope_self (parent : Option ScopeId) :
    (s.newScope parent).2.bindings ⟨s.scopes.size⟩ = [] := by
  rw [bindings_newScope, bindings, Array.getElem?_eq_none le_rfl]
  rfl

/-- A new scope leaves everything else as it is. -/
theorem grown_newScope (parent : Option ScopeId) : Grown s (s.newScope parent).2 where
  scopes_le := by simp
  cells_le := le_rfl
  functions_le := le_rfl
  parent_eq scope hscope := by rw [parent?_newScope, if_neg (by omega)]

/-- A declaration adds a cell. -/
theorem grown_declare (scope : ScopeId) (name : String) (value : Value) (const : Bool) :
    Grown s (s.declare scope name value const).2 where
  scopes_le := by simp
  cells_le := by simp [declare]
  functions_le := le_rfl
  parent_eq t _ := parent?_declare s scope t name value const

/-- Declarations add cells. -/
theorem grown_declareAll (scope : ScopeId) (items : List (String × Value × Bool)) :
    Grown s (s.declareAll scope items) := by
  induction items generalizing s with
  | nil => exact Grown.refl s
  | cons item items ih => exact (grown_declare s scope _ _ _).trans (ih _)

/-- A write changes the shape of nothing. -/
theorem grown_setCell (c : CellId) (value : Value) : Grown s (s.setCell c value) where
  scopes_le := le_rfl
  cells_le := by simp [setCell]
  functions_le := le_rfl
  parent_eq t _ := parent?_setCell s c value t

/-- A new closure takes an identity. -/
theorem grown_newClosure (name : String) (parameters : List String) (body : List Stmt)
    (scope : ScopeId) : Grown s (s.newClosure name parameters body scope).2 where
  scopes_le := le_rfl
  cells_le := le_rfl
  functions_le := Nat.le_succ _
  parent_eq _ _ := rfl

@[simp] theorem scopes_size_declareAll (scope : ScopeId) (items : List (String × Value × Bool)) :
    (s.declareAll scope items).scopes.size = s.scopes.size := by
  induction items generalizing s with
  | nil => rfl
  | cons item items ih => exact (ih _).trans (scopes_size_declare s scope _ _ _)

@[simp] theorem parent?_declareAll (scope t : ScopeId) (items : List (String × Value × Bool)) :
    (s.declareAll scope items).parent? t = s.parent? t := by
  induction items generalizing s with
  | nil => rfl
  | cons item items ih => exact (ih _).trans (parent?_declare s scope t _ _ _)

end Operations

/-! ### Order is kept -/

/-- A new scope below an existing one keeps the order. -/
theorem Ordered.newScope (h : s.Ordered) {parent : ScopeId}
    (hparent : parent.index < s.scopes.size) : (s.newScope (some parent)).2.Ordered := by
  intro t p htp
  rw [parent?_newScope] at htp
  split at htp
  · cases htp; omega
  · exact h t p htp

theorem Ordered.declare (h : s.Ordered) (scope : ScopeId) (name : String) (value : Value)
    (const : Bool) : (s.declare scope name value const).2.Ordered :=
  fun t p htp => h t p (by rwa [parent?_declare] at htp)

theorem Ordered.declareAll (h : s.Ordered) (scope : ScopeId)
    (items : List (String × Value × Bool)) : (s.declareAll scope items).Ordered :=
  fun t p htp => h t p (by rwa [parent?_declareAll] at htp)

theorem Ordered.setCell (h : s.Ordered) (c : CellId) (value : Value) :
    (s.setCell c value).Ordered := h

/-- **The chain of a new scope** is the scope and the chain of its parent. -/
theorem Ordered.chain_newScope (h : s.Ordered) {parent : ScopeId}
    (hparent : parent.index < s.scopes.size) :
    (s.newScope (some parent)).2.chain ⟨s.scopes.size⟩ =
      ⟨s.scopes.size⟩ :: s.chain parent := by
  have hnew := h.newScope hparent
  rw [hnew.chain_eq, parent?_newScope, if_pos rfl]
  simp only [(grown_newScope s (some parent)).chain_eq h hnew hparent]

/-! ### The values in cells -/

/-- **What holds of the values in all cells.** -/
def Keeps (s : Store) (P : Value → Prop) : Prop := ∀ c ∈ s.cells, P c.value

variable {P : Value → Prop}

/-- The value of any cell, one that does not exist holding nothing. -/
theorem Keeps.cell (h : s.Keeps P) (hnil : P .nil) (c : CellId) : P (s.cell c).value := by
  unfold Store.cell
  cases hc : s.cells[c.index]? with
  | none => exact hnil
  | some cell => exact h cell (Array.mem_of_getElem? hc)

theorem Keeps.mono {Q : Value → Prop} (h : s.Keeps P) (hPQ : ∀ v, P v → Q v) : s.Keeps Q :=
  fun c hc => hPQ _ (h c hc)

theorem Keeps.declare (h : s.Keeps P) {value : Value} (hv : P value) (scope : ScopeId)
    (name : String) (const : Bool) : (s.declare scope name value const).2.Keeps P := by
  intro c hc
  simp only [Store.declare, Array.mem_push] at hc
  rcases hc with hc | rfl
  · exact h c hc
  · exact hv

theorem Keeps.declareAll (h : s.Keeps P) {items : List (String × Value × Bool)}
    (hitems : ∀ item ∈ items, P item.2.1) (scope : ScopeId) :
    (s.declareAll scope items).Keeps P := by
  induction items generalizing s with
  | nil => exact h
  | cons item items ih =>
    exact ih (h.declare (hitems item List.mem_cons_self) scope _ _)
      fun other hother => hitems other (List.mem_cons_of_mem _ hother)

theorem Keeps.setCell (h : s.Keeps P) {value : Value} (hv : P value) (c : CellId) :
    (s.setCell c value).Keeps P := by
  intro cell hcell
  obtain ⟨i, hi, rfl⟩ := Array.mem_iff_getElem.mp hcell
  simp only [Store.setCell, Array.getElem_modify]
  split
  · exact hv
  · exact h _ (Array.getElem_mem _)

/-- What a scope holds is what its cells hold. -/
theorem Keeps.contents (h : s.Keeps P) (hnil : P .nil) (scope : ScopeId) :
    ∀ item ∈ s.contents scope, P item.2.1 := by
  intro item hitem
  obtain ⟨⟨name, c⟩, -, rfl⟩ := List.mem_map.mp hitem
  exact h.cell hnil c

/-- What is read of a name is the value of a cell. -/
theorem Keeps.get (h : s.Keeps P) (hnil : P .nil) {scope : ScopeId} {name : String} {v : Value}
    (hget : s.get scope name = .ok v) : P v := by
  rw [Store.get] at hget
  split at hget
  next c _ =>
    obtain rfl := Except.ok.inj hget
    exact h.cell hnil c
  next => contradiction

/-- The next pass of a loop copies what cells hold. -/
theorem Keeps.nextIteration (h : s.Keeps P) (hnil : P .nil) (enclosing current : ScopeId) :
    (s.nextIteration enclosing current).2.Keeps P :=
  Keeps.declareAll (s := (s.newScope (some enclosing)).2) h (h.contents hnil current) _

/-- A call stores its arguments. -/
theorem Keeps.activate (h : s.Keeps P) (c : Closure) {arguments : List Value}
    (harguments : ∀ v ∈ arguments, P v) : (s.activate c arguments).2.Keeps P := by
  refine Keeps.declareAll (s := (s.newScope (some c.scope)).2) h (fun item hitem => ?_) _
  obtain ⟨⟨name, v⟩, hmem, rfl⟩ := List.mem_map.1 hitem
  exact harguments v (List.of_mem_zip hmem).2

end Store

end Lox
