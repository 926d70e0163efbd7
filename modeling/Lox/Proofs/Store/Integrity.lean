import Lox.Proofs.Lexical.Place
import Lox.Proofs.Store.Operation
import Mathlib.Data.List.Induction

/-!
# The integrity of a store

In a store of integrity every scope is younger than its parent and descends from the one global
scope, every function captures a scope that exists, and no cell is bound twice. Operations that touch
nothing but scopes and functions of the store keep it so.

* `Store.Integral` — the invariant, `Store.Integral.perform` one operation, `Store.Integral.replay`
  a lawful history of them;
* `Store.Integral.getLast?_chain` — every chain ends at the global scope;
* `Store.Innermost` — the innermost binding of a name, which it refers to;
* `Store.assign_cases` — the three ends of an assignment, `Store.get_setCell` what is read behind it;
* `Store.Integral.get_assign` — an assignment is seen through one binding only;
* `Store.Integral.exists_assigned` — what changes a cell that is bound in a scope;
* `Store.Intact` — what integrity amounts to.
-/

namespace Lox

namespace Store

/-! ### Values, stores and operations in order -/

/-- **Values in order.** A function captures a scope of the store, and its statements fit. -/
def Accepts (fits : Node → Prop) (s : Store) : Value → Prop
  | .closure f => f.scope.index < s.scopes.size ∧ ∀ st ∈ f.body, fits (.stmt st)
  | _ => True

/-- **Integrity.** -/
structure Integral (fits : Node → Prop) (globals : ScopeId) (s : Store) : Prop where
  /-- Parents are older than their children. -/
  ordered : s.Ordered
  /-- The global scope exists. -/
  globals_lt : globals.index < s.scopes.size
  /-- It is the only one without a parent. -/
  parent?_eq_none_iff : ∀ t : ScopeId, t.index < s.scopes.size →
    (s.parent? t = none ↔ t = globals)
  /-- No cell is bound twice. -/
  tidy : s.Tidy 0
  /-- All values in cells are in order. -/
  values : s.Keeps (s.Accepts fits)

/-- **Lawful operations** touch scopes that exist and values in order, and assign where they can. -/
def Operation.Lawful (fits : Node → Prop) (s : Store) : Operation → Prop
  | .opened parent items =>
    parent.index < s.scopes.size ∧ ∀ item ∈ items, s.Accepts fits item.2.1
  | .declared scope _ value _ => scope.index < s.scopes.size ∧ s.Accepts fits value
  | .assigned scope name value =>
    scope.index < s.scopes.size ∧ (s.assign scope name value).isOk = true ∧ s.Accepts fits value
  | .closed scope body => scope.index < s.scopes.size ∧ ∀ st ∈ body, fits (.stmt st)

/-- **A lawful history.** Every operation was lawful when it was performed. -/
def Lawful (fits : Node → Prop) (s : Store) (ops : List Operation) : Prop :=
  ∀ before op after, ops = before ++ op :: after → op.Lawful fits (s.replay before)

variable {fits : Node → Prop} {globals : ScopeId} {s s' : Store}

theorem Accepts.grown {v : Value} (hv : s.Accepts fits v) (h : s.Grown s') : s'.Accepts fits v := by
  cases v with
  | closure f => exact ⟨Nat.lt_of_lt_of_le hv.1 h.scopes_le, hv.2⟩
  | literal value => trivial
  | native f => trivial

theorem lawful_nil : Lawful fits s [] := fun before op after h => by simp at h

/-- A history that leads up to an operation of a longer one. -/
theorem Lawful.of_append {ops ops' : List Operation} (h : Lawful fits s (ops ++ ops')) :
    Lawful fits s ops := by
  rintro before op after rfl
  exact h before op (after ++ ops') (by simp)

theorem Lawful.concat {ops : List Operation} {op : Operation} (h : Lawful fits s ops)
    (hop : op.Lawful fits (s.replay ops)) : Lawful fits s (ops ++ [op]) := by
  intro before op' after heq
  obtain rfl | ⟨after, last, rfl⟩ := List.eq_nil_or_concat after
  · -- this is the operation that was added
    obtain ⟨rfl, hlast⟩ := List.append_inj' heq rfl
    obtain rfl := List.singleton_inj.1 hlast
    exact hop
  · have hsplit : ops ++ [op] = (before ++ op' :: after) ++ [last] := by simpa using heq
    exact h before op' after (List.append_inj' hsplit rfl).1

/-! ### Integrity is kept -/

theorem Integral.of_values (h : s.Integral fits globals) (hgrown : s.Grown s')
    (hscopes : s'.scopes.size = s.scopes.size) (htidy : s'.Tidy 0)
    (hvalues : s'.Keeps (s.Accepts fits)) : s'.Integral fits globals where
  ordered t p htp := by
    by_cases ht : t.index < s.scopes.size
    · exact h.ordered t p (hgrown.parent_eq t ht ▸ htp)
    · rw [parent?, Array.getElem?_eq_none (by omega)] at htp
      contradiction
  globals_lt := hscopes ▸ h.globals_lt
  parent?_eq_none_iff t ht := by
    rw [hscopes] at ht
    rw [hgrown.parent_eq t ht]
    exact h.parent?_eq_none_iff t ht
  tidy := htidy
  values := hvalues.mono fun _ hv => hv.grown hgrown

theorem Integral.newScope (h : s.Integral fits globals) {parent : ScopeId}
    (hparent : parent.index < s.scopes.size) :
    (s.newScope (some parent)).2.Integral fits globals where
  ordered := h.ordered.newScope hparent
  globals_lt := by
    rw [scopes_size_newScope]
    exact Nat.lt_succ_of_lt h.globals_lt
  parent?_eq_none_iff t ht := by
    rw [scopes_size_newScope] at ht
    rw [parent?_newScope]
    split
    · -- the new scope has a parent and is younger than the global one
      next hnew =>
        have hne : t ≠ globals := by
          rintro rfl
          exact absurd h.globals_lt (by omega)
        simp [hne]
    · exact h.parent?_eq_none_iff t (by omega)
  tidy := h.tidy.newScope _
  values := h.values.mono fun _ hv => hv.grown (grown_newScope s _)

theorem Integral.declare (h : s.Integral fits globals) {value : Value}
    (hvalue : s.Accepts fits value) (scope : ScopeId) (name : String) (const : Bool) :
    (s.declare scope name value const).2.Integral fits globals :=
  h.of_values (grown_declare s scope name value const) (scopes_size_declare s scope name value const)
    (h.tidy.declare scope name value const) (h.values.declare hvalue scope name const)

theorem Integral.declareAll (h : s.Integral fits globals) {items : List (String × Value × Bool)}
    (hitems : ∀ item ∈ items, s.Accepts fits item.2.1) (scope : ScopeId) :
    (s.declareAll scope items).Integral fits globals := by
  induction items generalizing s with
  | nil => exact h
  | cons item items ih =>
    refine ih (h.declare (hitems item List.mem_cons_self) scope _ _) fun other hother => ?_
    exact (hitems other (List.mem_cons_of_mem _ hother)).grown (grown_declare s scope _ _ _)

theorem Integral.setCell (h : s.Integral fits globals) {value : Value}
    (hvalue : s.Accepts fits value) (c : CellId) : (s.setCell c value).Integral fits globals :=
  h.of_values (grown_setCell s c value) rfl
    (h.tidy.of_bindings_eq (bindings_setCell s c value) (by simp [Store.setCell]))
    (h.values.setCell hvalue c)

/-- **A lawful operation keeps integrity.** -/
theorem Integral.perform (h : s.Integral fits globals) {op : Operation} (hop : op.Lawful fits s) :
    (s.perform op).Integral fits globals := by
  cases op with
  | opened parent items =>
    refine (h.newScope hop.1).declareAll (fun item hitem => ?_) _
    exact (hop.2 item hitem).grown (grown_newScope s _)
  | declared scope name value const => exact h.declare hop.2 scope name const
  | closed scope body =>
    exact h.of_values (grown_perform s (.closed scope body)) rfl
      (h.tidy.of_bindings_eq (fun _ => rfl) (Nat.le_refl _)) h.values
  | assigned scope name value =>
    obtain hsame | ⟨c, -, -, hset⟩ := perform_assigned s scope name value
    · rw [hsame]
      exact h
    · rw [hset]
      exact h.setCell hop.2.2 c

/-- **A lawful history keeps integrity.** -/
theorem Integral.replay (h : s.Integral fits globals) {ops : List Operation}
    (hops : Lawful fits s ops) : (s.replay ops).Integral fits globals := by
  induction ops using List.reverseRecOn with
  | nil => exact h
  | append_singleton ops op ih =>
    rw [replay_concat]
    exact (ih hops.of_append).perform (hops ops op [] rfl)

/-! ### Chains -/

/-- **Every chain ends at the global scope.** -/
theorem Integral.getLast?_chain (h : s.Integral fits globals) {t : ScopeId}
    (ht : t.index < s.scopes.size) : (s.chain t).getLast? = some globals := by
  induction hn : t.index using Nat.strong_induction_on generalizing t with
  | h n ih =>
    rw [h.ordered.chain_eq]
    cases hparent : s.parent? t with
    | none => rw [(h.parent?_eq_none_iff t ht).1 hparent, List.getLast?_singleton]
    | some p =>
      have hlt := h.ordered t p hparent
      rw [List.getLast?_cons, ih p.index (by omega) (by omega) rfl, Option.getD_some]

/-- A chain leads from scope to older scope, so that it never comes back. -/
theorem Ordered.pairwise_chain (h : s.Ordered) (t : ScopeId) :
    (s.chain t).Pairwise fun u v => v.index < u.index := by
  induction hn : t.index using Nat.strong_induction_on generalizing t with
  | h n ih =>
    rw [h.chain_eq]
    cases hparent : s.parent? t with
    | none => exact List.pairwise_singleton _ _
    | some p =>
      have hlt := h t p hparent
      refine List.pairwise_cons.2 ⟨fun u hu => ?_, ih p.index (by omega) p rfl⟩
      exact Nat.lt_of_le_of_lt (h.index_le_of_mem_chain hu) hlt

/-- **The depth** counts the way to the end of the chain. -/
theorem Ordered.depth_eq (h : s.Ordered) (t : ScopeId) :
    s.depth t = match s.parent? t with
      | none => 0
      | some p => s.depth p + 1 := by
  have hpos : ∀ u, 0 < (s.chain u).length := by
    intro u
    rw [h.chain_eq]
    exact Nat.succ_pos _
  unfold depth
  rw [h.chain_eq]
  cases s.parent? t with
  | none => rfl
  | some p => exact (Nat.sub_add_cancel (hpos p)).symm

/-! ### Bindings -/

/-- **The scope that a name leads to:** the nearest one on the chain that binds it. -/
def holder (s : Store) (scope : ScopeId) (name : String) : Option ScopeId :=
  (s.chain scope).find? fun t => ((s.bindings t).lookup name).isSome

/-- A name refers to what the scope that it leads to binds it to. -/
theorem resolve_eq_holder (s : Store) (scope : ScopeId) (name : String) :
    s.resolve scope name = (s.holder scope name).bind fun t => (s.bindings t).lookup name := by
  unfold resolve holder
  induction s.chain scope with
  | nil => rfl
  | cons t chain ih =>
    rw [List.findSome?_cons, List.find?_cons]
    cases hlookup : (s.bindings t).lookup name with
    | none => simpa [hlookup] using ih
    | some c => simp [hlookup]

/-- **The innermost binding of a name** on the chain of a scope is one to this cell. -/
def Innermost (s : Store) (scope : ScopeId) (name : String) (c : CellId) : Prop :=
  ∃ before t after, s.chain scope = before ++ t :: after ∧
    (∀ u ∈ before, (s.bindings u).lookup name = none) ∧ (s.bindings t).lookup name = some c

theorem resolve_eq_some_iff {scope : ScopeId} {name : String} {c : CellId} :
    s.resolve scope name = some c ↔ s.Innermost scope name c := by
  unfold resolve Innermost
  rw [List.findSome?_eq_some_iff]
  constructor
  · rintro ⟨before, t, after, hchain, hlookup, hnone⟩
    exact ⟨before, t, after, hchain, hnone, hlookup⟩
  · rintro ⟨before, t, after, hchain, hnone, hlookup⟩
    exact ⟨before, t, after, hchain, hlookup, hnone⟩

/-- A name has one innermost binding. -/
theorem Innermost.unique {scope : ScopeId} {name : String} {c c' : CellId}
    (h : s.Innermost scope name c) (h' : s.Innermost scope name c') : c = c' := by
  rw [← resolve_eq_some_iff] at h h'
  exact Option.some.inj (h.symm.trans h')

/-- A name that has an innermost binding is not unbound on the whole chain. -/
theorem Innermost.not_unbound {scope : ScopeId} {name : String} {c : CellId}
    (h : s.Innermost scope name c) : ¬ ∀ u ∈ s.chain scope, (s.bindings u).lookup name = none := by
  obtain ⟨before, u, after, hchain, -, hlookup⟩ := h
  intro hnone
  have hmem : u ∈ s.chain scope := hchain ▸ List.mem_append_right _ List.mem_cons_self
  exact Option.some_ne_none c (hlookup.symm.trans (hnone u hmem))

/-- What a name is looked up as is bound under it. -/
theorem mem_of_lookup {name : String} {c : CellId} {bs : List (String × CellId)}
    (h : bs.lookup name = some c) : (name, c) ∈ bs := by
  induction bs with
  | nil => contradiction
  | cons head rest ih =>
    obtain ⟨first, old⟩ := head
    rw [List.lookup_cons] at h
    split at h
    · next heq =>
        obtain rfl := Option.some.inj h
        obtain rfl := eq_of_beq heq
        exact List.mem_cons_self
    · exact List.mem_cons_of_mem _ (ih h)

/-- A name that refers to a cell leads to a scope on the chain which binds it. -/
theorem exists_holder {scope : ScopeId} {name : String} {c : CellId}
    (h : s.resolve scope name = some c) :
    ∃ t ∈ s.chain scope, s.holder scope name = some t ∧ (name, c) ∈ s.bindings t := by
  rw [resolve_eq_holder] at h
  obtain ⟨t, ht, hlookup⟩ := Option.bind_eq_some_iff.1 h
  exact ⟨t, List.mem_of_find?_eq_some ht, ht, mem_of_lookup hlookup⟩

/-- **Two names refer to one cell** only if they are the same name and lead to the same scope. -/
theorem Tidy.resolve_inj (h : s.Tidy 0) {scope scope' : ScopeId} {name name' : String} {c : CellId}
    (hresolve : s.resolve scope name = some c) :
    s.resolve scope' name' = some c ↔
      name' = name ∧ s.holder scope' name' = s.holder scope name := by
  obtain ⟨t, -, ht, hmem⟩ := exists_holder hresolve
  constructor
  · intro hresolve'
    obtain ⟨t', -, ht', hmem'⟩ := exists_holder hresolve'
    obtain ⟨rfl, rfl⟩ := h.owner t' t (Nat.zero_le _) (Nat.zero_le _) _ hmem' _ hmem rfl
    exact ⟨rfl, ht'.trans ht.symm⟩
  · rintro ⟨rfl, hholder⟩
    rw [resolve_eq_holder, hholder, ← resolve_eq_holder, hresolve]

theorem get_eq (s : Store) (scope : ScopeId) (name : String) :
    s.get scope name = match s.resolve scope name with
      | some c => .ok (s.cell c).value
      | none => .error (.undefinedVariable name) := by
  unfold get lookup
  cases s.resolve scope name <;> rfl

theorem assign_eq (s : Store) (scope : ScopeId) (name : String) (value : Value) :
    s.assign scope name value = match s.lookup scope name with
      | .error cause => .error cause
      | .ok c =>
        if (s.cell c).const then .error (.constAssignment name) else .ok (s.setCell c value) := rfl

/-- What a name refers to is a cell that exists. -/
theorem Tidy.lt_of_resolve (h : s.Tidy 0) {c : CellId} {t : ScopeId} {name : String}
    (hresolve : s.resolve t name = some c) :
    c.index < s.cells.size := by
  obtain ⟨u, -, -, hmem⟩ := exists_holder hresolve
  exact h.cells_lt u (Nat.zero_le _) _ hmem

/-- **The three ends of an assignment,** by the innermost binding of its name. -/
theorem assign_cases (s : Store) (scope : ScopeId) (name : String) (value : Value) :
    ((∀ u ∈ s.chain scope, (s.bindings u).lookup name = none) ∧
      s.assign scope name value = .error (.undefinedVariable name)) ∨
    (∃ c, s.Innermost scope name c ∧ (s.cell c).const = true ∧
      s.assign scope name value = .error (.constAssignment name)) ∨
    ∃ c, s.Innermost scope name c ∧ (s.cell c).const = false ∧
      s.assign scope name value = .ok (s.setCell c value) := by
  simp only [← resolve_eq_some_iff, assign_eq, lookup]
  cases hresolve : s.resolve scope name with
  | none => exact .inl ⟨List.findSome?_eq_none_iff.1 hresolve, rfl⟩
  | some c =>
    right
    cases hconst : (s.cell c).const with
    | true => exact .inl ⟨c, rfl, hconst, by simp only [hconst]; rfl⟩
    | false => exact .inr ⟨c, rfl, hconst, by simp only [hconst]; rfl⟩

/-- **What is read after a cell is overwritten:** the new value by all names that refer to the cell,
and what they have read before by all others. -/
theorem get_setCell (htidy : s.Tidy 0) {scope : ScopeId} {name : String} {c : CellId}
    (hc : s.resolve scope name = some c)
    (value : Value) (t : ScopeId) (other : String) :
    (s.setCell c value).get t other =
      if s.resolve t other = s.resolve scope name then .ok value else s.get t other := by
  have live := htidy.lt_of_resolve hc
  rw [get_eq, get_eq, resolve_setCell, hc]
  cases s.resolve t other with
  | none => rfl
  | some d =>
    simp only [cell_setCell s c d value live, Option.some.injEq]
    split <;> rfl

/-- **An assignment is seen through one binding only:** by those who use the same name and are led to
the same scope by it. -/
theorem Integral.get_assign (h : s.Integral fits globals) {scope : ScopeId} {name : String}
    {value : Value} (hassign : s.assign scope name value = .ok s') (scope' : ScopeId)
    (name' : String) :
    s'.get scope' name' =
      if name' = name ∧ s.holder scope' name' = s.holder scope name then .ok value
      else s.get scope' name' := by
  obtain ⟨-, herror⟩ | ⟨c, -, -, herror⟩ | ⟨c, hc, -, hdone⟩ := assign_cases s scope name value
  · rw [herror] at hassign
    contradiction
  · rw [herror] at hassign
    contradiction
  · obtain rfl := Except.ok.inj (hassign.symm.trans hdone)
    have hresolve := resolve_eq_some_iff.2 hc
    rw [get_setCell h.tidy hresolve]
    simp only [hresolve, h.tidy.resolve_inj hresolve]

/-! ### What changes a cell -/

/-- **A cell that is bound in a scope changes only through an assignment** from a scope that has this
one on its chain. -/
theorem Integral.exists_assigned (h : s.Integral fits globals) {ops : List Operation}
    {t : ScopeId} {b : String × CellId} (hb : b ∈ s.bindings t)
    (hchanged : (s.replay ops).cell b.2 ≠ s.cell b.2) :
    ∃ before scope name value after, ops = before ++ .assigned scope name value :: after ∧
      (s.replay before).resolve scope name = some b.2 ∧ t ∈ (s.replay before).chain scope := by
  have hlt := h.tidy.cells_lt t (Nat.zero_le _) b hb
  induction ops using List.reverseRecOn with
  | nil => exact absurd rfl hchanged
  | append_singleton ops op ih =>
    by_cases hearlier : (s.replay ops).cell b.2 = s.cell b.2
    · -- the last operation has changed it
      rw [replay_concat, ← hearlier] at hchanged
      have hlt' := Nat.lt_of_lt_of_le hlt (grown_replay s ops).cells_le
      obtain ⟨scope, name, value, rfl, hresolve, -⟩ := cell_perform _ hlt' hchanged
      refine ⟨ops, scope, name, value, [], rfl, hresolve, ?_⟩
      obtain ⟨t', hchain, -, hmem⟩ := exists_holder hresolve
      -- who binds the cell now has bound it all the time, and only one scope has
      obtain hold | hnew := mem_bindings_replay s hmem
      · obtain ⟨rfl, -⟩ := h.tidy.owner t' t (Nat.zero_le _) (Nat.zero_le _) _ hold b hb rfl
        exact hchain
      · exact absurd hlt (Nat.not_lt.2 hnew)
    · obtain ⟨before, scope, name, value, after, rfl, hresolve, hchain⟩ := ih hearlier
      exact ⟨before, scope, name, value, after ++ [op], by simp, hresolve, hchain⟩

/-! ### What integrity amounts to -/

/-- **Intact stores.** -/
structure Intact (globals : ScopeId) (s : Store) : Prop where
  /-- Every scope was created after its parent. -/
  parent_lt : ∀ t p, s.parent? t = some p → p.index < t.index
  /-- A chain goes on from parent to parent, as long as there is one. -/
  chain_eq : ∀ t, s.chain t = t :: match s.parent? t with
    | none => []
    | some p => s.chain p
  /-- So does looking up a name, -/
  resolve_eq : ∀ t name, s.resolve t name = ((s.bindings t).lookup name).or
    (match s.parent? t with
      | none => none
      | some p => s.resolve p name)
  /-- and counting the depth. -/
  depth_eq : ∀ t, s.depth t = match s.parent? t with
    | none => 0
    | some p => s.depth p + 1
  /-- No scope comes twice on a chain. -/
  acyclic : ∀ t, (s.chain t).Pairwise fun u v => v.index < u.index
  /-- Every chain ends at the global scope. -/
  getLast?_chain : ∀ t : ScopeId, t.index < s.scopes.size → (s.chain t).getLast? = some globals
  /-- There is no other scope at which a chain could end. -/
  parent?_eq_none_iff : ∀ t : ScopeId, t.index < s.scopes.size →
    (s.parent? t = none ↔ t = globals)
  /-- Every function in a cell captures a scope that exists. -/
  scope_lt : ∀ c ∈ s.cells, ∀ f, c.value = .closure f → f.scope.index < s.scopes.size
  /-- No cell is bound under two names or in two scopes. -/
  owner : ∀ t t', ∀ b ∈ s.bindings t, ∀ b' ∈ s.bindings t', b.2 = b'.2 → t = t' ∧ b.1 = b'.1
  /-- An assignment is seen by those who are led to the same scope by the same name. -/
  get_assign : ∀ scope name value s', s.assign scope name value = .ok s' → ∀ scope' name',
    s'.get scope' name' =
      if name' = name ∧ s.holder scope' name' = s.holder scope name then .ok value
      else s.get scope' name'

theorem Integral.intact (h : s.Integral fits globals) : s.Intact globals where
  parent_lt := h.ordered
  chain_eq := h.ordered.chain_eq
  resolve_eq := h.ordered.resolve_eq
  depth_eq := h.ordered.depth_eq
  acyclic := h.ordered.pairwise_chain
  getLast?_chain t ht := h.getLast?_chain ht
  parent?_eq_none_iff := h.parent?_eq_none_iff
  scope_lt c hc f hf := by
    have hvalue := h.values c hc
    rw [hf] at hvalue
    exact hvalue.1
  owner t t' b hb b' hb' := h.tidy.owner t t' (Nat.zero_le _) (Nat.zero_le _) b hb b' hb'
  get_assign _ _ _ _ hassign scope' name' := h.get_assign hassign scope' name'

end Store

end Lox
