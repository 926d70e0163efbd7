import Lox.Proofs.SmallSteps
import Lox.Proofs.Store.Integrity

/-!
# The laws of a store

What a declaration and an assignment change, seen from every scope. A declaration is seen from the
scopes whose chain comes to it before it comes to another binding of the name; an assignment is seen
by all names that refer to its cell, and is refused if there is no such cell or a constant one. Seen
from anywhere else nothing has changed.

* `Store.ComesTo` — chains that come to a scope before they come to a binding of a name;
* `Store.resolve_declare_of_comesTo`, `Store.resolve_declare_of_not` — what names refer to after a
  declaration;
* `Store.DeclarationLaws`, `Store.AssignmentLaws` — the laws, `Store.laws_hold` of every store whose
  parents are older than their children and in which no cell is bound twice.
-/

namespace Lox

namespace Store

variable {s s' : Store} {scope t : ScopeId} {name : String} {value : Value}

/-! ### Declarations -/

/-- **The chain of `t` comes to `scope`** without coming to a binding of the name before. The way
begins at `t` itself. -/
def ComesTo (s : Store) (t scope : ScopeId) (name : String) : Prop :=
  ∃ nearer farther, s.chain t = nearer ++ scope :: farther ∧
    ∀ u ∈ nearer, (s.bindings u).lookup name = none

/-- What is found depends on what each element offers. -/
theorem findSome?_congr {α β : Type} {f g : α → Option β} {l : List α} (h : ∀ a ∈ l, f a = g a) :
    l.findSome? f = l.findSome? g := by
  induction l with
  | nil => rfl
  | cons a l ih =>
    obtain ⟨ha, hl⟩ := List.forall_mem_cons.1 h
    rw [List.findSome?_cons, List.findSome?_cons, ha, ih hl]

/-- **What a scope binds a name to** after a declaration. -/
theorem lookup_declare (live : scope.index < s.scopes.size) (value : Value) (const : Bool)
    (u : ScopeId) (other : String) :
    ((s.declare scope name value const).2.bindings u).lookup other =
      if u = scope ∧ other = name then some ⟨s.cells.size⟩ else (s.bindings u).lookup other := by
  rw [bindings_declare s scope u name value const live]
  by_cases hu : u = scope
  · simp only [hu, if_true, lookup_bindName, true_and]
  · simp only [hu, if_false, false_and]

/-- **Where the declaration is nearest,** the name refers to the new cell. -/
theorem resolve_declare_of_comesTo (hordered : s.Ordered) (live : scope.index < s.scopes.size)
    (value : Value) (const : Bool) (h : s.ComesTo t scope name) :
    (s.declare scope name value const).2.resolve t name = some ⟨s.cells.size⟩ := by
  obtain ⟨nearer, farther, hchain, hnone⟩ := h
  -- a chain comes to a scope once, so that the nearer scopes bind what they bound before
  have hne : ∀ u ∈ nearer, u ≠ scope := by
    rintro u hu rfl
    have hpairwise := hchain ▸ hordered.pairwise_chain t
    have := (List.pairwise_append.1 hpairwise).2.2 u hu u List.mem_cons_self
    exact Nat.lt_irrefl _ this
  refine resolve_eq_some_iff.2 ⟨nearer, scope, farther, ?_, fun u hu => ?_, ?_⟩
  · rw [chain_declare, hchain]
  · rw [lookup_declare live, if_neg fun h => hne u hu h.1]
    exact hnone u hu
  · rw [lookup_declare live, if_pos ⟨rfl, rfl⟩]

/-- **Everywhere else,** and for all other names, the declaration is not seen. -/
theorem resolve_declare_of_not (live : scope.index < s.scopes.size) (value : Value) (const : Bool)
    {other : String} (h : ¬ (other = name ∧ s.ComesTo t scope name)) :
    (s.declare scope name value const).2.resolve t other = s.resolve t other := by
  have hlookup : ∀ u other, ((s.declare scope name value const).2.bindings u).lookup other =
      if u = scope ∧ other = name then some ⟨s.cells.size⟩ else (s.bindings u).lookup other :=
    lookup_declare live value const
  unfold resolve
  rw [chain_declare]
  by_cases hmem : scope ∈ s.chain t ∧ other = name
  · obtain ⟨hmem, rfl⟩ := hmem
    obtain ⟨nearer, farther, hchain, hnotMem⟩ := List.eq_append_cons_of_mem hmem
    have hsame : ∀ u ∈ nearer,
        ((s.declare scope other value const).2.bindings u).lookup other =
          (s.bindings u).lookup other := by
      rintro u hu
      rw [hlookup, if_neg]
      rintro ⟨rfl, -⟩
      exact hnotMem hu
    -- a nearer scope binds the name, so that nobody looks as far as the declaration
    obtain ⟨c, hfound⟩ : ∃ c, nearer.findSome? (fun u => (s.bindings u).lookup other) = some c := by
      refine Option.ne_none_iff_exists'.1 fun hnone => ?_
      exact h ⟨rfl, nearer, farther, hchain, List.findSome?_eq_none_iff.1 hnone⟩
    rw [hchain, List.findSome?_append, List.findSome?_append, findSome?_congr hsame, hfound]
    rfl
  · refine findSome?_congr fun u hu => ?_
    rw [hlookup, if_neg]
    rintro ⟨rfl, rfl⟩
    exact hmem ⟨hu, rfl⟩

/-- **The laws of a declaration.** `c` is the cell that it gives and `s'` the store behind it. -/
structure DeclarationLaws (s : Store) (scope : ScopeId) (name : String) (value : Value)
    (const : Bool) (c : CellId) (s' : Store) : Prop where
  /-- No name has referred to the cell before. -/
  fresh : ∀ t other, s.resolve t other ≠ some c
  /-- It holds the value. -/
  cell_eq : s'.cell c = ⟨value, const⟩
  /-- The name refers to it from where the declaration is nearest, and nothing else does. -/
  resolve_iff : ∀ t other,
    s'.resolve t other = some c ↔ other = name ∧ s.ComesTo t scope name
  /-- All else refers to what it has referred to. -/
  resolve_eq : ∀ t other, ¬ (other = name ∧ s.ComesTo t scope name) →
    s'.resolve t other = s.resolve t other
  /-- Old cells are not touched, -/
  old_eq : ∀ d : CellId, d.index < s.cells.size → s'.cell d = s.cell d
  /-- nor is the one that is replaced. -/
  replaced_eq : ∀ d, (s.bindings scope).lookup name = some d → d ≠ c ∧ s'.cell d = s.cell d

theorem declarationLaws (hordered : s.Ordered) (htidy : s.Tidy 0)
    (live : scope.index < s.scopes.size) (name : String) (value : Value) (const : Bool) :
    s.DeclarationLaws scope name value const (s.declare scope name value const).1
      (s.declare scope name value const).2 := by
  -- every name leads to an old cell, so that the next one is new
  have hfresh : ∀ t other, s.resolve t other ≠ some ⟨s.cells.size⟩ := fun t other hresolve =>
    Nat.lt_irrefl _ (htidy.lt_of_resolve hresolve)
  have hold : ∀ d : CellId, d.index < s.cells.size →
      (s.declare scope name value const).2.cell d = s.cell d := fun d hd =>
    cell_declare_of_lt s hd scope name value const
  constructor
  case fresh => exact hfresh
  case cell_eq => rw [declare_fst, cell_declare, if_pos rfl]
  case resolve_iff =>
    intro t other
    constructor
    · intro hresolve
      -- a name that does not come to the new binding leads where it led before
      by_contra h
      rw [resolve_declare_of_not live value const h] at hresolve
      exact hfresh t other hresolve
    · rintro ⟨rfl, h⟩
      exact resolve_declare_of_comesTo hordered live value const h
  case resolve_eq => exact fun t other h => resolve_declare_of_not live value const h
  case old_eq => exact hold
  case replaced_eq =>
    intro d hd
    -- a cell that was bound is an old one
    have hlt := htidy.cells_lt scope (Nat.zero_le _) _ (mem_of_lookup hd)
    refine ⟨?_, hold d hlt⟩
    rintro rfl
    exact Nat.lt_irrefl _ hlt

/-! ### Assignments -/

/-- **The laws of an assignment.** -/
structure AssignmentLaws (s : Store) (scope : ScopeId) (name : String) (value : Value) : Prop where
  /-- It is refused exactly if no scope on the chain binds the name, -/
  undefined_iff : s.assign scope name value = .error (.undefinedVariable name) ↔
    ∀ u ∈ s.chain scope, (s.bindings u).lookup name = none
  /-- or if the innermost binding is constant, -/
  const_iff : s.assign scope name value = .error (.constAssignment name) ↔
    ∃ c, s.Innermost scope name c ∧ (s.cell c).const = true
  /-- and it is carried out if that is not constant. -/
  done_iff : (∃ s', s.assign scope name value = .ok s') ↔
    ∃ c, s.Innermost scope name c ∧ (s.cell c).const = false
  /-- There is no other reason to refuse it, and nothing changes if it is refused. -/
  refused : ∀ cause, s.assign scope name value = .error cause →
    (cause = .undefinedVariable name ∨ cause = .constAssignment name) ∧
      ∀ (t : Token) (rest : Console), t.lexeme = name →
        Exec.write scope t value ⟨s, rest⟩ = .error (.failed ⟨cause, some t.line⟩) ⟨s, rest⟩
  /-- No name refers to another cell if it is carried out. -/
  resolve_eq : ∀ s', s.assign scope name value = .ok s' → ∀ t other,
    s'.resolve t other = s.resolve t other
  /-- It is seen by all names that refer to the same cell, and by no others. -/
  get_eq : ∀ s', s.assign scope name value = .ok s' → ∀ t other, s'.get t other =
    if s.resolve t other = s.resolve scope name then .ok value else s.get t other

/-- The innermost binding of a name is constant or not. -/
theorem Innermost.const_eq {c c' : CellId} (h : s.Innermost scope name c)
    (h' : s.Innermost scope name c') : (s.cell c').const = (s.cell c).const := by
  rw [h.unique h']

theorem assignmentLaws (htidy : s.Tidy 0) (scope : ScopeId) (name : String) (value : Value) :
    s.AssignmentLaws scope name value := by
  -- what happens is told by the innermost binding, of which there is one at most
  have hcases := assign_cases s scope name value
  constructor
  -- three answers with one condition each, which exclude each other
  case undefined_iff =>
    obtain ⟨hnone, hassign⟩ | ⟨c, hc, -, hassign⟩ | ⟨c, hc, -, hassign⟩ := hcases
    · exact ⟨fun _ => hnone, fun _ => hassign⟩
    all_goals
      rw [hassign]
      exact ⟨nofun, fun hnone => absurd hnone hc.not_unbound⟩
  case const_iff =>
    obtain ⟨hnone, hassign⟩ | ⟨c, hc, hconst, hassign⟩ | ⟨c, hc, hconst, hassign⟩ := hcases
    · rw [hassign]
      exact ⟨nofun, fun ⟨c, hc, _⟩ => absurd hnone hc.not_unbound⟩
    · exact ⟨fun _ => ⟨c, hc, hconst⟩, fun _ => hassign⟩
    · rw [hassign]
      refine ⟨nofun, fun ⟨c', hc', hconst'⟩ => ?_⟩
      rw [hc.const_eq hc', hconst] at hconst'
      contradiction
  case done_iff =>
    obtain ⟨hnone, hassign⟩ | ⟨c, hc, hconst, hassign⟩ | ⟨c, hc, hconst, hassign⟩ := hcases
    · rw [hassign]
      exact ⟨nofun, fun ⟨c, hc, _⟩ => absurd hnone hc.not_unbound⟩
    · rw [hassign]
      refine ⟨nofun, fun ⟨c', hc', hconst'⟩ => ?_⟩
      rw [hc.const_eq hc', hconst] at hconst'
      contradiction
    · exact ⟨fun _ => ⟨c, hc, hconst⟩, fun _ => ⟨_, hassign⟩⟩
  case refused =>
    intro cause hrefused
    refine ⟨?_, ?_⟩
    · obtain ⟨-, hassign⟩ | ⟨c, -, -, hassign⟩ | ⟨c, -, -, hassign⟩ := hcases
      · exact .inl (Except.error.inj (hrefused.symm.trans hassign))
      · exact .inr (Except.error.inj (hrefused.symm.trans hassign))
      · rw [hassign] at hrefused
        contradiction
    · rintro t rest rfl
      rw [Exec.write_eq_assign, hrefused]
  case resolve_eq =>
    intro s' hdone t other
    obtain ⟨-, hassign⟩ | ⟨c, -, -, hassign⟩ | ⟨c, -, -, hassign⟩ := hcases
    · rw [hassign] at hdone; contradiction
    · rw [hassign] at hdone; contradiction
    · obtain rfl := Except.ok.inj (hdone.symm.trans hassign)
      -- a write changes no binding
      exact resolve_setCell s c value t other
  case get_eq =>
    intro s' hdone t other
    obtain ⟨-, hassign⟩ | ⟨c, -, -, hassign⟩ | ⟨c, hc, -, hassign⟩ := hcases
    · rw [hassign] at hdone; contradiction
    · rw [hassign] at hdone; contradiction
    · obtain rfl := Except.ok.inj (hdone.symm.trans hassign)
      -- no cell is bound twice, so that names with other cells see nothing
      exact get_setCell htidy (resolve_eq_some_iff.2 hc) value t other

/-! ### All laws -/

/-- **The laws of a store** whose parents are older than their children and in which no cell is bound
twice. The chain of a scope goes on from parent to parent; a declaration in any scope that exists is
seen from where it is nearest; and an assignment is seen by all names that refer to its cell. -/
theorem laws_hold (hordered : s.Ordered) (htidy : s.Tidy 0) :
    (∀ t, s.chain t = t :: match s.parent? t with
      | none => []
      | some p => s.chain p) ∧
    (∀ scope : ScopeId, scope.index < s.scopes.size → ∀ name value const,
      s.DeclarationLaws scope name value const (s.declare scope name value const).1
        (s.declare scope name value const).2) ∧
    ∀ scope name value, s.AssignmentLaws scope name value :=
  ⟨hordered.chain_eq, fun _ live => declarationLaws hordered htidy live, assignmentLaws htidy⟩

/-- A name that is bound on both ends of a chain of three scopes, to a constant in the middle one. It
is declared again there, and assigned to from the innermost scope. -/
theorem laws_hold_shadowed :
    let scopes := (((empty.newScope none).2.newScope (some ⟨0⟩)).2.newScope (some ⟨1⟩)).2
    let s := ((scopes.declare ⟨0⟩ "a" .nil false).2.declare ⟨1⟩ "a" .nil true).2
    (s.Ordered ∧ s.Tidy 0) ∧ (s.ComesTo ⟨2⟩ ⟨1⟩ "a" ∧ ¬ s.ComesTo ⟨2⟩ ⟨0⟩ "a") ∧
      s.DeclarationLaws ⟨1⟩ "a" .nil false (s.declare ⟨1⟩ "a" .nil false).1
        (s.declare ⟨1⟩ "a" .nil false).2 ∧ s.AssignmentLaws ⟨2⟩ "a" .nil := by
  intro scopes s
  have hroot : (empty.newScope none).2.Ordered := by
    intro t p h
    rw [parent?_newScope] at h
    split at h <;> contradiction
  have hordered : s.Ordered :=
    ((((hroot.newScope (by decide)).newScope (by decide)).declare _ _ _ _).declare _ _ _ _)
  have htidy : s.Tidy 0 :=
    (((((tidy_of_size_le (Nat.le_refl 0)).newScope _).newScope _).newScope _).declare
      _ _ _ _).declare _ _ _ _
  have hchain : s.chain ⟨2⟩ = [⟨2⟩, ⟨1⟩, ⟨0⟩] := by decide
  obtain ⟨-, hdeclaration, hassignment⟩ := laws_hold hordered htidy
  refine ⟨⟨hordered, htidy⟩, ⟨⟨[⟨2⟩], [⟨0⟩], hchain, by decide⟩, ?_⟩,
    hdeclaration ⟨1⟩ (by decide) "a" .nil false, hassignment ⟨2⟩ "a" .nil⟩
  rintro ⟨nearer, farther, hsplit, hnone⟩
  -- the middle scope is nearer than the outermost one, and it binds the name
  rw [hchain] at hsplit
  have hmiddle : (⟨1⟩ : ScopeId) ∈ nearer := by
    match nearer with
    | [] => cases hsplit
    | [u] => cases hsplit
    | _ :: _ :: nearer =>
      obtain ⟨rfl, -⟩ := List.cons.inj (List.cons.inj hsplit).2
      exact List.mem_cons_of_mem _ List.mem_cons_self
  exact absurd (hnone ⟨1⟩ hmiddle) (by decide)

end Store

end Lox
