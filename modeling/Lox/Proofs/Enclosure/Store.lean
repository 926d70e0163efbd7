import Lox.Proofs.Observation
import Lox.Proofs.Store.Growth

/-!
# Stores without the block around a program

A program that stands in a block declares its names in the scope of the block, below the global scope
with its clock. Without the block it would declare them in the global scope, over the clock or behind
it. Both stores have the same cells; their scopes are the same as well, but that the global scope and
that of the block are one without the block. What is inside the block refers by every name to the same
cell in both.

* `Scope.unwrap`, `Store.unwrap` — scopes and stores without the block;
* `Store.Enclosed` — stores in which all functions and all later scopes are inside the block;
* `lookup_withClock`, `bindName_withClock` — the bindings of the one scope that comes of two;
* `Store.Enclosed.resolve_unwrap` — what names refer to;
* `Store.Enclosed.declare_unwrap`, `Store.Enclosed.nextIteration_unwrap`,
  `Store.Enclosed.activate_unwrap` — the operations of a store, which keep it enclosed.
-/

namespace Lox

/-! ### What is inside -/

/-- **Scopes inside the block,** the one of the block included, among so many scopes. -/
def ScopeId.Inside (scopes : Nat) (scope : ScopeId) : Prop :=
  1 ≤ scope.index ∧ scope.index < scopes

/-- **Scopes below that of the block.** -/
def ScopeId.Below (scopes : Nat) (scope : ScopeId) : Prop :=
  2 ≤ scope.index ∧ scope.index < scopes

/-- **Values inside the block:** functions have captured scopes of it. -/
def Value.Inside (scopes : Nat) : Value → Prop
  | .closure c => c.scope.Inside scopes
  | .literal _ | .native _ => True

section Mono

variable {scopes scopes' : Nat} (h : scopes ≤ scopes')

include h

theorem ScopeId.Inside.mono {scope : ScopeId} (hscope : scope.Inside scopes) :
    scope.Inside scopes' := ⟨hscope.1, Nat.lt_of_lt_of_le hscope.2 h⟩

theorem ScopeId.Below.mono {scope : ScopeId} (hscope : scope.Below scopes) :
    scope.Below scopes' := ⟨hscope.1, Nat.lt_of_lt_of_le hscope.2 h⟩

theorem Value.Inside.mono {v : Value} (hv : v.Inside scopes) : v.Inside scopes' := by
  cases v with
  | literal l | native f => trivial
  | closure c => exact ScopeId.Inside.mono h hv

end Mono

theorem ScopeId.Below.inside {scopes : Nat} {scope : ScopeId} (h : scope.Below scopes) :
    scope.Inside scopes := ⟨Nat.le_of_succ_le h.1, h.2⟩

/-! ### Without the block -/

/-- **A scope without the block.** The global scope and that of the block are the same. -/
def ScopeId.unwrap (scope : ScopeId) : ScopeId := ⟨scope.index - 1⟩

/-- A closure without the block. -/
def Closure.unwrap (c : Closure) : Closure := { c with scope := c.scope.unwrap }

/-- **A value without the block.** -/
def Value.unwrap : Value → Value
  | .literal l => .literal l
  | .closure c => .closure c.unwrap
  | .native f => .native f

/-- A cell without the block. -/
def Cell.unwrap (c : Cell) : Cell := { c with value := c.value.unwrap }

/-- What is declared, without the block. -/
def unwrapItem (item : String × Value × Bool) : String × Value × Bool :=
  (item.1, item.2.1.unwrap, item.2.2)

/-- **The names of a block and the clock** in one scope. The clock comes first. If the block has
declared its name, the name refers to what it refers to in the block. -/
def withClock (bindings : List (String × CellId)) : List (String × CellId) :=
  ("clock", (bindings.lookup "clock").getD ⟨0⟩) :: bindings.filter fun item => item.1 ≠ "clock"

/-- The contents of a scope without the block. The scope of the block is the one below the global
scope. -/
def Scope.unwrap (s : Scope) : Scope :=
  if s.parent = some ⟨0⟩ then ⟨none, withClock s.bindings⟩
  else ⟨s.parent.map ScopeId.unwrap, s.bindings⟩

/-- **A store without the block.** -/
def Store.unwrap (s : Store) : Store :=
  { s with scopes := (s.scopes.extract 1).map Scope.unwrap, cells := s.cells.map Cell.unwrap }

/-- A value looks the same without the block. -/
theorem Value.resembles_unwrap (v : Value) : v.Resembles v.unwrap := by
  cases v with
  | literal l => exact .literal l
  | native f => exact .native f
  | closure c => exact .closure rfl rfl rfl

/-! ### Bindings -/

theorem lookup_filter_ne {name other : String} (h : name ≠ other)
    (bindings : List (String × CellId)) :
    (bindings.filter fun item => item.1 ≠ other).lookup name = bindings.lookup name := by
  induction bindings with
  | nil => rfl
  | cons head rest ih =>
    obtain ⟨first, c⟩ := head
    by_cases hfirst : first = other
    · -- what is left out is not what is looked for
      have hne : (name == first) = false := beq_false_of_ne fun e => h (e.trans hfirst)
      rw [List.filter_cons_of_neg (by simpa using hfirst), ih, List.lookup_cons, hne]
    · rw [List.filter_cons_of_pos (by simpa using hfirst), List.lookup_cons, List.lookup_cons, ih]

/-- **One scope for two.** A name refers to what it refers to in the block, or else in the scope of
the clock. -/
theorem lookup_withClock (name : String) (bindings : List (String × CellId)) :
    (withClock bindings).lookup name =
      (bindings.lookup name).or ([("clock", ⟨0⟩)].lookup name) := by
  rw [withClock]
  by_cases h : name = "clock"
  · subst h
    rw [List.lookup_cons_self, List.lookup_cons_self]
    cases bindings.lookup "clock" <;> rfl
  · rw [List.lookup_cons, List.lookup_cons, beq_false_of_ne h, lookup_filter_ne h]
    cases bindings.lookup name <;> rfl

theorem filter_bindName_self (name : String) (c : CellId) (bindings : List (String × CellId)) :
    (bindName name c bindings).filter (fun item => item.1 ≠ name) =
      bindings.filter fun item => item.1 ≠ name := by
  induction bindings with
  | nil => simp [bindName]
  | cons head rest ih =>
    obtain ⟨first, old⟩ := head
    by_cases hfirst : first = name
    · simp [bindName, hfirst]
    · simp only [bindName, if_neg hfirst, List.filter_cons, ih]

theorem filter_bindName_ne {name other : String} (h : name ≠ other) (c : CellId)
    (bindings : List (String × CellId)) :
    (bindName name c bindings).filter (fun item => item.1 ≠ other) =
      bindName name c (bindings.filter fun item => item.1 ≠ other) := by
  induction bindings with
  | nil => simp [bindName, h]
  | cons head rest ih =>
    obtain ⟨first, old⟩ := head
    by_cases hfirst : first = name
    · subst hfirst
      simp [bindName, h]
    · by_cases hother : first = other
      · subst hother
        simp only [bindName, if_neg hfirst]
        rw [List.filter_cons_of_neg (by simp), List.filter_cons_of_neg (by simp), ih]
      · simp only [bindName, if_neg hfirst]
        rw [List.filter_cons_of_pos (by simpa using hother),
          List.filter_cons_of_pos (by simpa using hother), bindName, if_neg hfirst, ih]

/-- **A declaration in the one scope** is what a declaration in the block comes to. -/
theorem bindName_withClock (name : String) (c : CellId) (bindings : List (String × CellId)) :
    bindName name c (withClock bindings) = withClock (bindName name c bindings) := by
  by_cases h : name = "clock"
  · subst h
    rw [withClock, withClock, bindName, if_pos rfl, lookup_bindName, if_pos rfl,
      filter_bindName_self]
    rfl
  · have hclock : ¬ "clock" = name := fun e => h e.symm
    rw [withClock, withClock, bindName, if_neg hclock, lookup_bindName, if_neg hclock,
      filter_bindName_ne h]

/-- A declaration in a scope without the block. -/
theorem Scope.unwrap_bindName (s : Scope) (name : String) (c : CellId) :
    { s.unwrap with bindings := bindName name c s.unwrap.bindings } =
      Scope.unwrap { s with bindings := bindName name c s.bindings } := by
  unfold Scope.unwrap
  by_cases h : s.parent = some ⟨0⟩
  · rw [if_pos h, if_pos h, bindName_withClock]
  · rw [if_neg h, if_neg h]

namespace Store

/-! ### Views -/

section Views

variable (s : Store) {t : ScopeId}

theorem getElem?_unwrap (i : Nat) : s.unwrap.scopes[i]? = s.scopes[i + 1]?.map Scope.unwrap := by
  simp only [unwrap, Array.getElem?_map, Array.getElem?_extract]
  by_cases h : i < s.scopes.size - 1
  · rw [if_pos (by omega), Nat.add_comm]
  · rw [if_neg (by omega), Array.getElem?_eq_none (by omega)]

@[simp] theorem scopes_size_unwrap : s.unwrap.scopes.size = s.scopes.size - 1 := by
  simp [unwrap]

theorem cell_unwrap (c : CellId) : s.unwrap.cell c = (s.cell c).unwrap := by
  simp only [cell, unwrap, Array.getElem?_map]
  cases s.cells[c.index]? <;> rfl

variable (ht : 1 ≤ t.index)

include ht

theorem getElem?_unwrap_scope :
    s.unwrap.scopes[t.unwrap.index]? = s.scopes[t.index]?.map Scope.unwrap := by
  rw [getElem?_unwrap]
  exact congrArg (fun i => s.scopes[i]?.map Scope.unwrap) (Nat.sub_add_cancel ht)

theorem parent?_unwrap : s.unwrap.parent? t.unwrap =
    if s.parent? t = some ⟨0⟩ then none else (s.parent? t).map ScopeId.unwrap := by
  rw [parent?, parent?, getElem?_unwrap_scope s ht]
  cases s.scopes[t.index]? with
  | none => rfl
  | some sc =>
    simp only [Option.map_some, Option.bind_some, Scope.unwrap]
    split <;> rfl

theorem bindings_unwrap : s.unwrap.bindings t.unwrap =
    if s.parent? t = some ⟨0⟩ then withClock (s.bindings t) else s.bindings t := by
  rw [parent?, bindings, bindings, getElem?_unwrap_scope s ht]
  cases s.scopes[t.index]? with
  | none => rfl
  | some sc =>
    simp only [Option.map_some, Option.bind_some, Scope.unwrap, Option.getD_some]
    split <;> rfl

end Views

/-! ### Enclosed stores -/

/-- **Enclosed stores.** The first scope is the global one, in which nothing but the clock has been
declared, and the second that of the block. Every later scope and every function is inside it. -/
structure Enclosed (s : Store) : Prop where
  outer_parent : s.parent? ⟨0⟩ = none
  outer_bindings : s.bindings ⟨0⟩ = [("clock", ⟨0⟩)]
  inner_parent : s.parent? ⟨1⟩ = some ⟨0⟩
  below_parent : ∀ t : ScopeId, t.Below s.scopes.size → ∃ p, s.parent? t = some p ∧ p.Inside t.index
  values : s.Keeps (Value.Inside s.scopes.size)

namespace Enclosed

variable {s : Store} (h : s.Enclosed) {t : ScopeId}

include h

theorem two_le_size : 2 ≤ s.scopes.size := by
  by_contra hlt
  have hnone : s.parent? ⟨1⟩ = none := by
    rw [parent?, Array.getElem?_eq_none (by change s.scopes.size ≤ 1; omega)]
    rfl
  rw [h.inner_parent] at hnone
  contradiction

/-- **No scope but that of the block** is directly below the global one. -/
theorem parent?_ne_of_below (ht : 2 ≤ t.index) : s.parent? t ≠ some ⟨0⟩ := by
  intro hparent
  by_cases hlt : t.index < s.scopes.size
  · obtain ⟨p, hp, hinside⟩ := h.below_parent t ⟨ht, hlt⟩
    obtain rfl : p = ⟨0⟩ := Option.some.inj (hp.symm.trans hparent)
    exact absurd hinside.1 (Nat.not_succ_le_zero 0)
  · rw [parent?, Array.getElem?_eq_none (by omega)] at hparent
    contradiction

theorem ordered : s.Ordered := by
  intro t p hparent
  obtain hzero | hone | htwo : t.index = 0 ∨ t.index = 1 ∨ 2 ≤ t.index := by omega
  · obtain rfl : t = ⟨0⟩ := by cases t; simp_all
    rw [h.outer_parent] at hparent
    contradiction
  · obtain rfl : t = ⟨1⟩ := by cases t; simp_all
    rw [h.inner_parent] at hparent
    obtain rfl := Option.some.inj hparent
    exact Nat.zero_lt_one
  · by_cases hlt : t.index < s.scopes.size
    · obtain ⟨q, hq, hinside⟩ := h.below_parent t ⟨htwo, hlt⟩
      obtain rfl : q = p := Option.some.inj (hq.symm.trans hparent)
      exact hinside.2
    · rw [parent?, Array.getElem?_eq_none (by omega)] at hparent
      contradiction

theorem ordered_unwrap : s.unwrap.Ordered := by
  intro t p hparent
  -- the scope that this one was in the block
  let u : ScopeId := ⟨t.index + 1⟩
  have hu : 1 ≤ u.index := Nat.le_add_left ..
  change s.unwrap.parent? u.unwrap = some p at hparent
  rw [parent?_unwrap s hu] at hparent
  split at hparent
  · contradiction
  next hne =>
    obtain ⟨q, hq, rfl⟩ := Option.map_eq_some_iff.1 hparent
    have hlt := h.ordered u q hq
    have hpos : q.index ≠ 0 := fun hzero => hne (by cases q; simp_all)
    change q.index - 1 < t.index
    change q.index < t.index + 1 at hlt
    omega

/-- **What names refer to** inside the block, they refer to without it. -/
theorem resolve_unwrap (ht : 1 ≤ t.index) (name : String) :
    s.unwrap.resolve t.unwrap name = s.resolve t name := by
  -- induction on the scope, as every scope lies behind the one around it
  induction hn : t.index using Nat.strong_induction_on generalizing t with
  | h n ih =>
    rw [h.ordered_unwrap.resolve_eq, h.ordered.resolve_eq, parent?_unwrap s ht,
      bindings_unwrap s ht]
    by_cases hinner : s.parent? t = some ⟨0⟩
    · -- the scope of the block, and the clock behind it
      have houter : s.resolve ⟨0⟩ name = [("clock", ⟨0⟩)].lookup name := by
        rw [h.ordered.resolve_eq, h.outer_parent, h.outer_bindings, Option.or_none]
      rw [if_pos hinner, if_pos hinner, hinner, lookup_withClock, Option.or_none]
      simp only [houter]
    · rw [if_neg hinner, if_neg hinner]
      cases hparent : s.parent? t with
      | none => rfl
      | some p =>
        -- a scope around it that is not the outermost one is inside the block as well
        have hlt := h.ordered t p hparent
        have hpos : 1 ≤ p.index := by
          refine Nat.one_le_iff_ne_zero.2 fun hzero => hinner ?_
          rw [hparent]
          cases p
          simp_all
        simp only [Option.map_some, ih p.index (by omega) hpos rfl]

theorem lookup_unwrap (ht : 1 ≤ t.index) (name : String) :
    s.unwrap.lookup t.unwrap name = s.lookup t name := by
  rw [lookup, lookup, h.resolve_unwrap ht]

theorem get_unwrap (ht : 1 ≤ t.index) (name : String) :
    s.unwrap.get t.unwrap name = (s.get t name).map Value.unwrap := by
  rw [get, get, h.lookup_unwrap ht]
  cases s.lookup t name with
  | error cause => rfl
  | ok c => exact congrArg (fun cell => Except.ok cell.value) (s.cell_unwrap c)

/-- Below the scope of the block the bindings are the same. -/
theorem bindings_unwrap_of_below (ht : 2 ≤ t.index) : s.unwrap.bindings t.unwrap = s.bindings t := by
  rw [bindings_unwrap s (Nat.le_of_succ_le ht), if_neg (h.parent?_ne_of_below ht)]

theorem contents_unwrap (ht : 2 ≤ t.index) :
    s.unwrap.contents t.unwrap = (s.contents t).map unwrapItem := by
  rw [contents, contents, h.bindings_unwrap_of_below ht, List.map_map]
  refine List.map_congr_left fun b _ => ?_
  simp only [Function.comp, cell_unwrap]
  rfl

end Enclosed

/-! ### Operations without the block -/

section Operations

variable (s : Store) {t : ScopeId}

theorem newScope_unwrap (hs : 1 ≤ s.scopes.size) (ht : 1 ≤ t.index) :
    s.unwrap.newScope (some t.unwrap) =
      ((s.newScope (some t)).1.unwrap, (s.newScope (some t)).2.unwrap) := by
  have hne : (some t : Option ScopeId) ≠ some ⟨0⟩ := by
    rintro ⟨⟩
    exact absurd ht (Nat.not_succ_le_zero 0)
  have hnew : Scope.unwrap ⟨some t, []⟩ = ⟨some t.unwrap, []⟩ := if_neg hne
  have hscopes : ((s.scopes.extract 1).map Scope.unwrap).push ⟨some t.unwrap, []⟩ =
      ((s.scopes.push ⟨some t, []⟩).extract 1).map Scope.unwrap := by
    rw [Array.extract_push, if_neg (by simp), if_pos hs, Array.map_push, hnew]
  have hsize : s.unwrap.scopes.size = s.scopes.size - 1 := scopes_size_unwrap s
  rw [newScope, hsize]
  exact congrArg (fun scopes => (_, Store.mk scopes s.unwrap.cells s.functions)) hscopes

theorem declare_unwrap (ht : 1 ≤ t.index) (name : String) (v : Value) (const : Bool) :
    s.unwrap.declare t.unwrap name v.unwrap const =
      ((s.declare t name v const).1, (s.declare t name v const).2.unwrap) := by
  let c : CellId := ⟨s.cells.size⟩
  -- every scope but the global one has moved by one, also the one in which the name is declared
  have hscopes : s.unwrap.scopes.modify t.unwrap.index
        (fun sc => { sc with bindings := bindName name c sc.bindings }) =
      (s.declare t name v const).2.unwrap.scopes := by
    refine Array.ext_getElem? fun i => ?_
    have hindex : t.unwrap.index = i ↔ t.index = i + 1 := by
      change t.index - 1 = i ↔ _
      omega
    rw [Array.getElem?_modify, getElem?_unwrap, getElem?_unwrap, declare, Array.getElem?_modify]
    simp only [hindex]
    split
    · cases s.scopes[i + 1]? with
      | none => rfl
      | some sc => exact congrArg some (sc.unwrap_bindName name c)
    · rfl
  have hcells : s.unwrap.cells.push ⟨v.unwrap, const⟩ =
      (s.declare t name v const).2.unwrap.cells := by
    simp only [declare, unwrap, Array.map_push]
    rfl
  have hsize : s.unwrap.cells.size = s.cells.size := Array.size_map
  rw [declare, hsize]
  exact Prod.ext rfl (congrArg₂ (fun scopes cells => Store.mk scopes cells s.functions) hscopes
    hcells)

theorem setCell_unwrap (c : CellId) (v : Value) :
    s.unwrap.setCell c v.unwrap = (s.setCell c v).unwrap := by
  have hcells : (s.cells.map Cell.unwrap).modify c.index
        (fun cell => { cell with value := v.unwrap }) =
      (s.cells.modify c.index fun cell => { cell with value := v }).map Cell.unwrap := by
    refine map_modify (fun cell => ?_) _ _
    rfl
  simp only [setCell, unwrap, hcells]

theorem declareAll_unwrap (ht : 1 ≤ t.index) (items : List (String × Value × Bool)) :
    s.unwrap.declareAll t.unwrap (items.map unwrapItem) = (s.declareAll t items).unwrap := by
  induction items generalizing s with
  | nil => rfl
  | cons item items ih =>
    have hfirst := congrArg Prod.snd (declare_unwrap s ht item.1 item.2.1 item.2.2)
    change declareAll (s.unwrap.declare t.unwrap item.1 item.2.1.unwrap item.2.2).2 t.unwrap
      (items.map unwrapItem) = (declareAll _ t items).unwrap
    rw [hfirst, ih]

end Operations

namespace Enclosed

variable {s : Store} (h : s.Enclosed) {t : ScopeId}

include h

/-- **The next iteration** of a loop inside the block. -/
theorem nextIteration_unwrap (ht : 1 ≤ t.index) {current : ScopeId} (hcurrent : 2 ≤ current.index) :
    s.unwrap.nextIteration t.unwrap current.unwrap =
      ((s.nextIteration t current).1.unwrap, (s.nextIteration t current).2.unwrap) := by
  have hlive : 1 ≤ (⟨s.scopes.size⟩ : ScopeId).index := Nat.le_of_succ_le h.two_le_size
  simp only [nextIteration, h.contents_unwrap hcurrent, newScope_unwrap s hlive ht, newScope_fst]
  rw [declareAll_unwrap _ hlive]

/-- **Activations** of functions inside the block. -/
theorem activate_unwrap {c : Closure} (hc : 1 ≤ c.scope.index) (arguments : List Value) :
    s.unwrap.activate c.unwrap (arguments.map Value.unwrap) =
      ((s.activate c arguments).1.unwrap, (s.activate c arguments).2.unwrap) := by
  have hlive : 1 ≤ (⟨s.scopes.size⟩ : ScopeId).index := Nat.le_of_succ_le h.two_le_size
  have hitems : c.unwrap.items (arguments.map Value.unwrap) =
      (c.items arguments).map unwrapItem := by
    simp only [Closure.items, Closure.unwrap]
    rw [List.zip_map_right, List.map_map, List.map_map]
    rfl
  simp only [activate, hitems]
  simp only [Closure.unwrap, newScope_unwrap s hlive hc, newScope_fst]
  rw [declareAll_unwrap _ hlive]

/-! ### Enclosed stores stay so -/

theorem newScope (ht : t.Inside s.scopes.size) : (s.newScope (some t)).2.Enclosed where
  outer_parent := by
    have hne : ¬ (0 : Nat) = s.scopes.size := fun e => absurd h.two_le_size (by omega)
    rw [parent?_newScope, if_neg hne, h.outer_parent]
  outer_bindings := by rw [bindings_newScope, h.outer_bindings]
  inner_parent := by
    have hne : ¬ (1 : Nat) = s.scopes.size := fun e => absurd h.two_le_size (by omega)
    rw [parent?_newScope, if_neg hne, h.inner_parent]
  below_parent u hu := by
    rw [scopes_size_newScope] at hu
    rw [parent?_newScope]
    by_cases hnew : u.index = s.scopes.size
    · rw [if_pos hnew, hnew]
      exact ⟨t, rfl, ht⟩
    · rw [if_neg hnew]
      exact h.below_parent u ⟨hu.1, Nat.lt_of_le_of_ne (Nat.le_of_lt_succ hu.2) hnew⟩
  values := by
    rw [scopes_size_newScope]
    exact Keeps.mono h.values fun v hv => hv.mono (Nat.le_succ _)

theorem declare (ht : t.Inside s.scopes.size) {v : Value} (hv : v.Inside s.scopes.size)
    (name : String) (const : Bool) : (s.declare t name v const).2.Enclosed where
  outer_parent := by rw [parent?_declare, h.outer_parent]
  outer_bindings := by
    have hne : (⟨0⟩ : ScopeId) ≠ t := by
      rintro rfl
      exact absurd ht.1 (Nat.not_succ_le_zero 0)
    rw [bindings_declare s t _ name v const ht.2, if_neg hne, h.outer_bindings]
  inner_parent := by rw [parent?_declare, h.inner_parent]
  below_parent u hu := by
    rw [scopes_size_declare] at hu
    rw [parent?_declare]
    exact h.below_parent u hu
  values := by
    rw [scopes_size_declare]
    exact h.values.declare hv t name const

theorem setCell {v : Value} (hv : v.Inside s.scopes.size) (c : CellId) : (s.setCell c v).Enclosed where
  outer_parent := h.outer_parent
  outer_bindings := h.outer_bindings
  inner_parent := h.inner_parent
  below_parent := h.below_parent
  values := h.values.setCell hv c

theorem newClosure (name : String) (parameters : List String) (body : List Stmt) (t : ScopeId) :
    (s.newClosure name parameters body t).2.Enclosed where
  outer_parent := h.outer_parent
  outer_bindings := h.outer_bindings
  inner_parent := h.inner_parent
  below_parent := h.below_parent
  values := h.values

theorem declareAll (ht : t.Inside s.scopes.size) {items : List (String × Value × Bool)}
    (hitems : ∀ item ∈ items, item.2.1.Inside s.scopes.size) : (s.declareAll t items).Enclosed := by
  induction items generalizing s with
  | nil => exact h
  | cons item items ih =>
    obtain ⟨hitem, hitems⟩ := List.forall_mem_cons.1 hitems
    have hsize := scopes_size_declare s t item.1 item.2.1 item.2.2
    exact ih (h.declare ht hitem _ _) (by rwa [hsize]) (by rwa [hsize])

/-- A new scope in which something is declared at once. -/
theorem newScope_declareAll (ht : t.Inside s.scopes.size) {items : List (String × Value × Bool)}
    (hitems : ∀ item ∈ items, item.2.1.Inside s.scopes.size) :
    ((s.newScope (some t)).2.declareAll (s.newScope (some t)).1 items).Enclosed := by
  have hsize := scopes_size_newScope s (some t)
  refine (h.newScope ht).declareAll ?_ fun item hitem => ?_
  · rw [hsize]
    exact ⟨Nat.le_of_succ_le h.two_le_size, Nat.lt_succ_self _⟩
  · rw [hsize]
    exact (hitems item hitem).mono (Nat.le_succ _)

theorem nextIteration (ht : t.Inside s.scopes.size) (current : ScopeId) :
    (s.nextIteration t current).2.Enclosed :=
  h.newScope_declareAll ht (h.values.contents trivial current)

theorem activate {c : Closure} (hc : c.scope.Inside s.scopes.size) {arguments : List Value}
    (harguments : ∀ v ∈ arguments, v.Inside s.scopes.size) : (s.activate c arguments).2.Enclosed := by
  refine h.newScope_declareAll hc fun item hitem => ?_
  obtain ⟨⟨name, v⟩, hmem, rfl⟩ := List.mem_map.1 hitem
  exact harguments v (List.of_mem_zip hmem).2

end Enclosed

end Store

end Lox
