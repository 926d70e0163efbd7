import Lox.Proofs.Store.Growth
import Mathlib.Data.List.Infix
import Mathlib.Data.List.Nodup

/-!
# Operations on a store

Everything that a program does to the store is one of four operations: a scope is opened, a name is
declared, a name is assigned to, or a function is made. A list of operations can be replayed, so that
what one operation keeps is kept by all of them, in whatever order and on whatever scopes they are
performed.

* `Store.Operation`, `Store.perform`, `Store.replay` — operations, and what they do;
* `Store.grown_replay` — no scope, cell or parent is ever given up;
* `Store.Tidy` — no cell is bound twice, `Store.Tidy.replay` why it never will be;
* `Store.cell_perform` — only an assignment changes an old cell;
* `Store.contents_openScope` — what a new scope holds;
* `Store.bindings_replay` — scopes in which nothing is declared keep their bindings;
* `Store.names_replay` — names are never lost or reordered.
-/

namespace Lox

namespace Store

/-- A scope is opened below `parent` and declares some names. -/
def openScope (s : Store) (parent : ScopeId) (items : List (String × Value × Bool)) : Store :=
  (s.newScope (some parent)).2.declareAll ⟨s.scopes.size⟩ items

/-- **Operations.** A scope is opened below another, with some names in it; a name is declared; a name
is assigned to; a function is made that captures a scope. -/
inductive Operation
  | opened (parent : ScopeId) (items : List (String × Value × Bool))
  | declared (scope : ScopeId) (name : String) (value : Value) (const : Bool)
  | assigned (scope : ScopeId) (name : String) (value : Value)
  | closed (scope : ScopeId) (body : List Stmt)

/-- **What an operation does.** An assignment that fails does nothing. -/
def perform (s : Store) : Operation → Store
  | .opened parent items => s.openScope parent items
  | .declared scope name value const => (s.declare scope name value const).2
  | .assigned scope name value =>
    match s.assign scope name value with
    | .ok s' => s'
    | .error _ => s
  | .closed _ _ => { s with functions := s.functions + 1 }

/-- **Several operations,** one after the other. -/
def replay (s : Store) (operations : List Operation) : Store := operations.foldl perform s

variable (s : Store)

theorem replay_append (ops ops' : List Operation) :
    s.replay (ops ++ ops') = (s.replay ops).replay ops' := List.foldl_append

theorem replay_concat (ops : List Operation) (op : Operation) :
    s.replay (ops ++ [op]) = (s.replay ops).perform op := replay_append s ops [op]

/-- An assignment overwrites a cell or does nothing. -/
theorem perform_assigned (scope : ScopeId) (name : String) (value : Value) :
    s.perform (.assigned scope name value) = s ∨
      ∃ c, s.resolve scope name = some c ∧ (s.cell c).const = false ∧
        s.perform (.assigned scope name value) = s.setCell c value := by
  simp only [perform, assign, lookup]
  cases hresolve : s.resolve scope name with
  | none => exact .inl rfl
  | some c =>
    simp only [Option.some.injEq, exists_eq_left']
    cases hconst : (s.cell c).const with
    | true => exact .inl rfl
    | false => exact .inr ⟨rfl, rfl⟩

/-! ### Growth -/

theorem grown_openScope (parent : ScopeId) (items : List (String × Value × Bool)) :
    Grown s (s.openScope parent items) :=
  (grown_newScope s (some parent)).trans (grown_declareAll _ _ items)

/-- **Every operation lets the store grow.** -/
theorem grown_perform (op : Operation) : Grown s (s.perform op) := by
  cases op with
  | opened parent items => exact grown_openScope s parent items
  | declared scope name value const => exact grown_declare s scope name value const
  | assigned scope name value =>
    obtain h | ⟨c, -, -, h⟩ := perform_assigned s scope name value
    · rw [h]
      exact .refl s
    · rw [h]
      exact grown_setCell s c value
  | closed scope body => exact grown_newClosure s "" [] body scope

theorem grown_replay (ops : List Operation) : Grown s (s.replay ops) := by
  induction ops generalizing s with
  | nil => exact .refl s
  | cons op ops ih => exact (grown_perform s op).trans (ih (s.perform op))

/-! ### Bindings -/

/-- A declaration binds its name in its scope, if that exists, and changes no other binding. -/
theorem bindings_declare_cases (scope t : ScopeId) (name : String) (value : Value) (const : Bool) :
    (s.declare scope name value const).2.bindings t = s.bindings t ∨
      t = scope ∧ (s.declare scope name value const).2.bindings t =
        bindName name ⟨s.cells.size⟩ (s.bindings t) := by
  by_cases hlive : scope.index < s.scopes.size
  · rw [bindings_declare s scope t name value const hlive]
    by_cases h : t = scope
    · exact .inr ⟨h, if_pos h⟩
    · exact .inl (if_neg h)
  · -- a scope that does not exist binds nothing, now as before
    left
    have hmodify : s.scopes.modify scope.index
        (fun sc => { sc with bindings := bindName name ⟨s.cells.size⟩ sc.bindings }) = s.scopes := by
      ext1
      · simp
      · rename_i i hi _
        have hne : ¬ scope.index = i := by simp at hi; omega
        simp [Array.getElem_modify, hne]
    simp only [declare, bindings, hmodify]

theorem bindings_declare_of_ne {scope t : ScopeId} (h : t ≠ scope) (name : String) (value : Value)
    (const : Bool) : (s.declare scope name value const).2.bindings t = s.bindings t := by
  obtain hsame | ⟨heq, -⟩ := bindings_declare_cases s scope t name value const
  · exact hsame
  · exact absurd heq h

theorem bindings_declareAll_of_ne {scope t : ScopeId} (h : t ≠ scope)
    (items : List (String × Value × Bool)) :
    (s.declareAll scope items).bindings t = s.bindings t := by
  induction items generalizing s with
  | nil => rfl
  | cons item items ih => exact (ih _).trans (bindings_declare_of_ne s h _ _ _)

/-- What a name is bound to in a scope after a declaration. -/
theorem mem_bindName {name : String} {c : CellId} {bs : List (String × CellId)}
    {b : String × CellId} (h : b ∈ bindName name c bs) : b = (name, c) ∨ b ∈ bs := by
  induction bs with
  | nil => exact .inl (List.mem_singleton.1 h)
  | cons head rest ih =>
    obtain ⟨first, old⟩ := head
    unfold bindName at h
    split at h
    · exact (List.mem_cons.1 h).imp_right (List.mem_cons_of_mem _)
    · obtain rfl | h := List.mem_cons.1 h
      · exact .inr List.mem_cons_self
      · exact (ih h).imp_right (List.mem_cons_of_mem _)

/-- A name that is not bound yet is bound behind all others. -/
theorem bindName_of_notMem {name : String} (c : CellId) {bs : List (String × CellId)}
    (h : name ∉ bs.map Prod.fst) : bindName name c bs = bs ++ [(name, c)] := by
  induction bs with
  | nil => rfl
  | cons head rest ih =>
    obtain ⟨first, old⟩ := head
    rw [List.map_cons, List.mem_cons, not_or] at h
    rw [bindName, if_neg (Ne.symm h.1), ih h.2, List.cons_append]

theorem nodup_bindName {name : String} (c : CellId) {bs : List (String × CellId)}
    (h : (bs.map Prod.fst).Nodup) : ((bindName name c bs).map Prod.fst).Nodup := by
  rw [names_bindName]
  split
  · exact h
  · next hname => exact h.append (List.nodup_singleton name) (List.disjoint_singleton.2 hname)

/-! ### Cells -/

/-- A declaration changes no old cell. -/
theorem cell_declare_of_lt {c : CellId} (h : c.index < s.cells.size) (scope : ScopeId)
    (name : String) (value : Value) (const : Bool) :
    (s.declare scope name value const).2.cell c = s.cell c := by
  rw [cell_declare, if_neg (Nat.ne_of_lt h)]

theorem cell_declareAll_of_lt {c : CellId} (h : c.index < s.cells.size) (scope : ScopeId)
    (items : List (String × Value × Bool)) : (s.declareAll scope items).cell c = s.cell c := by
  induction items generalizing s with
  | nil => rfl
  | cons item items ih =>
    refine (ih _ ?_).trans (cell_declare_of_lt s h scope _ _ _)
    rw [cells_size_declare]
    exact Nat.lt_succ_of_lt h

/-- **Only an assignment changes an old cell,** and it changes the one that the name refers to. -/
theorem cell_perform {c : CellId} (h : c.index < s.cells.size) {op : Operation}
    (hchanged : (s.perform op).cell c ≠ s.cell c) :
    ∃ scope name value, op = .assigned scope name value ∧ s.resolve scope name = some c ∧
      (s.perform op).cell c = ⟨value, (s.cell c).const⟩ ∧ (s.cell c).const = false := by
  cases op with
  | opened parent items =>
    exact absurd (cell_declareAll_of_lt (s.newScope (some parent)).2 h _ items) hchanged
  | declared scope name value const =>
    exact absurd (cell_declare_of_lt s h scope name value const) hchanged
  | closed scope body => exact absurd rfl hchanged
  | assigned scope name value =>
    obtain hsame | ⟨d, hresolve, hconst, hset⟩ := perform_assigned s scope name value
    · exact absurd (congrArg (cell · c) hsame) hchanged
    · by_cases hd : c = d
      · subst hd
        refine ⟨scope, name, value, rfl, hresolve, ?_, hconst⟩
        rw [hset, cell_setCell s c c value h, if_pos rfl]
      · -- another cell is overwritten, or one that does not exist
        refine absurd ?_ hchanged
        rw [hset]
        simp only [setCell, cell, Array.getElem?_modify]
        rw [if_neg]
        intro hindex
        exact hd (by cases c; cases d; simp_all)

/-! ### Tidy stores -/

/-- **Tidy stores.** In the scopes from number `n` on no name is bound twice, only cells that exist
are bound, and no cell is bound under two names or in two scopes. -/
structure Tidy (n : Nat) (s : Store) : Prop where
  /-- A scope binds a name once. -/
  names_nodup : ∀ t : ScopeId, n ≤ t.index → ((s.bindings t).map Prod.fst).Nodup
  /-- Only cells that exist are bound. -/
  cells_lt : ∀ t : ScopeId, n ≤ t.index → ∀ b ∈ s.bindings t, b.2.index < s.cells.size
  /-- A cell is bound once. -/
  owner : ∀ t t' : ScopeId, n ≤ t.index → n ≤ t'.index → ∀ b ∈ s.bindings t,
    ∀ b' ∈ s.bindings t', b.2 = b'.2 → t = t' ∧ b.1 = b'.1

variable {s} {n : Nat}

/-- Scopes that do not exist yet are tidy. -/
theorem tidy_of_size_le (h : s.scopes.size ≤ n) : s.Tidy n := by
  have hempty : ∀ t : ScopeId, n ≤ t.index → s.bindings t = [] := by
    intro t ht
    rw [bindings, Array.getElem?_eq_none (by omega)]
    rfl
  constructor
  case names_nodup => exact fun t ht => by simp [hempty t ht]
  case cells_lt => exact fun t ht b hb => by simp [hempty t ht] at hb
  case owner => exact fun t _ ht _ b hb => by simp [hempty t ht] at hb

/-- Tidiness depends on the bindings alone, as long as no cell is given up. -/
theorem Tidy.of_bindings_eq {s' : Store} (h : s.Tidy n)
    (hbindings : ∀ t, s'.bindings t = s.bindings t) (hcells : s.cells.size ≤ s'.cells.size) :
    s'.Tidy n := by
  constructor
  case names_nodup => exact fun t ht => by rw [hbindings]; exact h.names_nodup t ht
  case cells_lt =>
    intro t ht b hb
    rw [hbindings] at hb
    exact Nat.lt_of_lt_of_le (h.cells_lt t ht b hb) hcells
  case owner =>
    intro t t' ht ht' b hb b' hb'
    rw [hbindings] at hb hb'
    exact h.owner t t' ht ht' b hb b' hb'

theorem Tidy.newScope (h : s.Tidy n) (parent : Option ScopeId) :
    (s.newScope parent).2.Tidy n :=
  h.of_bindings_eq (bindings_newScope s parent) (Nat.le_refl _)

/-- **A declaration** binds a cell that nobody has bound before. -/
theorem Tidy.declare (h : s.Tidy n) (scope : ScopeId) (name : String) (value : Value)
    (const : Bool) : (s.declare scope name value const).2.Tidy n := by
  -- a binding is the new one or an old one, and the cells of old ones are older
  have hmem : ∀ t : ScopeId, ∀ b ∈ (s.declare scope name value const).2.bindings t,
      (t = scope ∧ b = (name, ⟨s.cells.size⟩)) ∨ b ∈ s.bindings t := by
    intro t b hb
    obtain hsame | ⟨rfl, hbind⟩ := bindings_declare_cases s scope t name value const
    · exact .inr (hsame ▸ hb)
    · rw [hbind] at hb
      exact (mem_bindName hb).imp_left fun hb => ⟨rfl, hb⟩
  constructor
  case names_nodup =>
    intro t ht
    obtain hsame | ⟨-, hbind⟩ := bindings_declare_cases s scope t name value const
    · rw [hsame]
      exact h.names_nodup t ht
    · rw [hbind]
      exact nodup_bindName _ (h.names_nodup t ht)
  case cells_lt =>
    intro t ht b hb
    rw [cells_size_declare]
    obtain ⟨-, rfl⟩ | hb := hmem t b hb
    · exact Nat.lt_succ_self _
    · exact Nat.lt_succ_of_lt (h.cells_lt t ht b hb)
  case owner =>
    intro t t' ht ht' b hb b' hb' heq
    -- two bindings of one cell are both new or both old
    obtain ⟨rfl, rfl⟩ | hold := hmem t b hb <;> obtain ⟨rfl, rfl⟩ | hold' := hmem t' b' hb'
    · exact ⟨rfl, rfl⟩
    · have hlt := h.cells_lt t' ht' b' hold'
      rw [← heq] at hlt
      exact absurd hlt (Nat.lt_irrefl _)
    · have hlt := h.cells_lt t ht b hold
      rw [heq] at hlt
      exact absurd hlt (Nat.lt_irrefl _)
    · exact h.owner t t' ht ht' b hold b' hold' heq

theorem Tidy.declareAll (h : s.Tidy n) (scope : ScopeId) (items : List (String × Value × Bool)) :
    (s.declareAll scope items).Tidy n := by
  induction items generalizing s with
  | nil => exact h
  | cons item items ih => exact ih (h.declare scope _ _ _)

/-- **Every operation keeps a store tidy.** -/
theorem Tidy.perform (h : s.Tidy n) (op : Operation) : (s.perform op).Tidy n := by
  cases op with
  | opened parent items => exact (h.newScope _).declareAll _ items
  | declared scope name value const => exact h.declare scope name value const
  | closed scope body => exact h.of_bindings_eq (fun _ => rfl) (Nat.le_refl _)
  | assigned scope name value =>
    obtain hsame | ⟨c, -, -, hset⟩ := perform_assigned s scope name value
    · rw [hsame]
      exact h
    · rw [hset]
      exact h.of_bindings_eq (bindings_setCell s c value) (by simp [setCell])

theorem Tidy.replay (h : s.Tidy n) (ops : List Operation) : (s.replay ops).Tidy n := by
  induction ops generalizing s with
  | nil => exact h
  | cons op ops ih => exact ih (h.perform op)

/-! ### What a new scope holds -/

variable (s)

/-- A cell that a name is declared with did not exist before. -/
theorem mem_bindings_declareAll {scope t : ScopeId} {items : List (String × Value × Bool)}
    {b : String × CellId} (h : b ∈ (s.declareAll scope items).bindings t) :
    b ∈ s.bindings t ∨ s.cells.size ≤ b.2.index := by
  induction items generalizing s with
  | nil => exact .inl h
  | cons item items ih =>
    obtain ⟨name, value, const⟩ := item
    obtain hb | hb := ih (s.declare scope name value const).2 h
    · obtain hsame | ⟨-, hbind⟩ := bindings_declare_cases s scope t name value const
      · exact .inl (hsame ▸ hb)
      · rw [hbind] at hb
        obtain rfl | hb := mem_bindName hb
        · exact .inr (Nat.le_refl _)
        · exact .inl hb
    · rw [cells_size_declare] at hb
      exact .inr (Nat.le_of_succ_le hb)

/-- **A binding after an operation** is an old one, or its cell is new. -/
theorem mem_bindings_perform {op : Operation} {t : ScopeId} {b : String × CellId}
    (h : b ∈ (s.perform op).bindings t) : b ∈ s.bindings t ∨ s.cells.size ≤ b.2.index := by
  cases op with
  | opened parent items =>
    obtain hb | hb := mem_bindings_declareAll (s.newScope (some parent)).2 h
    · rw [bindings_newScope] at hb
      exact .inl hb
    · exact .inr hb
  | declared scope name value const =>
    exact @mem_bindings_declareAll s scope t [(name, value, const)] b h
  | closed scope body => exact .inl h
  | assigned scope name value =>
    obtain hsame | ⟨c, -, -, hset⟩ := perform_assigned s scope name value
    · exact .inl (hsame ▸ h)
    · rw [hset, bindings_setCell] at h
      exact .inl h

theorem mem_bindings_replay {ops : List Operation} {t : ScopeId} {b : String × CellId}
    (h : b ∈ (s.replay ops).bindings t) : b ∈ s.bindings t ∨ s.cells.size ≤ b.2.index := by
  induction ops generalizing s with
  | nil => exact .inl h
  | cons op ops ih =>
    obtain hb | hb := ih (s.perform op) h
    · exact mem_bindings_perform s hb
    · exact .inr (Nat.le_trans (grown_perform s op).cells_le hb)

/-- All cells of a new scope are new. -/
theorem cells_openScope (parent : ScopeId) (items : List (String × Value × Bool))
    {b : String × CellId} (h : b ∈ (s.openScope parent items).bindings ⟨s.scopes.size⟩) :
    s.cells.size ≤ b.2.index := by
  obtain hb | hb := mem_bindings_declareAll _ h
  · rw [bindings_newScope_self] at hb
    exact absurd hb List.not_mem_nil
  · exact hb

/-- A new name comes last, and what the other names hold stays. -/
theorem contents_declare {scope : ScopeId} {name : String} (value : Value) (const : Bool)
    (hlive : scope.index < s.scopes.size) (hname : name ∉ (s.bindings scope).map Prod.fst)
    (hcells : ∀ b ∈ s.bindings scope, b.2.index < s.cells.size) :
    (s.declare scope name value const).2.contents scope =
      s.contents scope ++ [(name, value, const)] := by
  rw [contents, bindings_declare s scope scope name value const hlive, if_pos rfl,
    bindName_of_notMem _ hname, List.map_append, contents]
  congr 1
  · exact List.map_congr_left fun b hb => by
      simp only [cell_declare_of_lt s (hcells b hb) scope name value const]
  · simp only [List.map_cons, List.map_nil, cell_declare, if_true]

theorem contents_declareAll {scope : ScopeId} {items : List (String × Value × Bool)}
    (hlive : scope.index < s.scopes.size)
    (hnames : ((s.bindings scope).map Prod.fst ++ items.map Prod.fst).Nodup)
    (hcells : ∀ b ∈ s.bindings scope, b.2.index < s.cells.size) :
    (s.declareAll scope items).contents scope = s.contents scope ++ items := by
  induction items generalizing s with
  | nil => exact (List.append_nil _).symm
  | cons item items ih =>
    obtain ⟨name, value, const⟩ := item
    have hname : name ∉ (s.bindings scope).map Prod.fst := by
      intro hmem
      exact (List.disjoint_of_nodup_append hnames) hmem List.mem_cons_self
    have hbindings := bindings_declare s scope scope name value const hlive
    rw [if_pos rfl, bindName_of_notMem _ hname] at hbindings
    refine (ih (s.declare scope name value const).2 ?_ ?_ ?_).trans ?_
    · rwa [scopes_size_declare]
    · rw [hbindings, List.map_append, List.append_assoc]
      exact hnames
    · intro b hb
      rw [cells_size_declare]
      rw [hbindings, List.mem_append, List.mem_singleton] at hb
      obtain hb | rfl := hb
      · exact Nat.lt_succ_of_lt (hcells b hb)
      · exact Nat.lt_succ_self _
    · rw [contents_declare s value const hlive hname hcells, List.append_assoc,
        List.singleton_append]

/-- **A new scope holds what it was given,** in the same order. -/
theorem contents_openScope (parent : ScopeId) {items : List (String × Value × Bool)}
    (hnames : (items.map Prod.fst).Nodup) :
    (s.openScope parent items).contents ⟨s.scopes.size⟩ = items := by
  have hempty := bindings_newScope_self s (some parent)
  rw [openScope, contents_declareAll _ (by simp) (by rwa [hempty]) (by simp [hempty]), contents,
    hempty]
  rfl

/-! ### Where names are declared -/

/-- **An operation that declares in some scopes only.** A scope that it opens is a new one. -/
def Operation.DeclaresIn (opens : ScopeId → Prop) : Operation → Prop
  | .declared scope _ _ _ => opens scope
  | _ => True

/-- An operation leaves the bindings of old scopes in which it declares nothing. -/
theorem bindings_perform {opens : ScopeId → Prop} {op : Operation} (h : op.DeclaresIn opens)
    {t : ScopeId} (ht : t.index < s.scopes.size) (hclosed : ¬ opens t) :
    (s.perform op).bindings t = s.bindings t := by
  cases op with
  | opened parent items =>
    have hne : t ≠ ⟨s.scopes.size⟩ := by
      rintro rfl
      exact absurd ht (Nat.lt_irrefl _)
    exact (bindings_declareAll_of_ne _ hne items).trans (bindings_newScope s _ t)
  | declared scope name value const =>
    have hne : t ≠ scope := by
      rintro rfl
      exact hclosed h
    exact bindings_declare_of_ne s hne name value const
  | assigned scope name value =>
    obtain hsame | ⟨c, -, -, hset⟩ := perform_assigned s scope name value
    · rw [hsame]
    · rw [hset, bindings_setCell]
  | closed scope body => rfl

/-- **A history leaves the bindings of old scopes** in which it declares nothing. -/
theorem bindings_replay {opens : ScopeId → Prop} {ops : List Operation}
    (h : ∀ op ∈ ops, op.DeclaresIn opens) {t : ScopeId} (ht : t.index < s.scopes.size)
    (hclosed : ¬ opens t) : (s.replay ops).bindings t = s.bindings t := by
  induction ops generalizing s with
  | nil => rfl
  | cons op ops ih =>
    have hop := h op List.mem_cons_self
    refine (ih (s.perform op) (fun op' h' => h op' (List.mem_cons_of_mem _ h')) ?_).trans
      (bindings_perform s hop ht hclosed)
    exact Nat.lt_of_lt_of_le ht (grown_perform s op).scopes_le

/-! ### Names -/

/-- The names that a scope binds, in their order. -/
def names (s : Store) (scope : ScopeId) : List String := (s.bindings scope).map Prod.fst

theorem names_declare (scope t : ScopeId) (name : String) (value : Value) (const : Bool) :
    s.names t <+: (s.declare scope name value const).2.names t := by
  unfold names
  obtain hsame | ⟨-, hbind⟩ := bindings_declare_cases s scope t name value const
  · rw [hsame]
  · rw [hbind, names_bindName]
    split
    · exact List.prefix_rfl
    · exact List.prefix_append _ _

theorem names_declareAll (scope t : ScopeId) (items : List (String × Value × Bool)) :
    s.names t <+: (s.declareAll scope items).names t := by
  induction items generalizing s with
  | nil => exact List.prefix_rfl
  | cons item items ih => exact (names_declare s scope t _ _ _).trans (ih _)

/-- **No operation loses or reorders a name.** -/
theorem names_perform (op : Operation) (t : ScopeId) : s.names t <+: (s.perform op).names t := by
  cases op with
  | opened parent items =>
    have hnew : (s.newScope (some parent)).2.names t = s.names t := by
      rw [names, bindings_newScope, names]
    exact hnew ▸ names_declareAll _ _ t items
  | declared scope name value const => exact names_declare s scope t name value const
  | assigned scope name value =>
    obtain hsame | ⟨c, -, -, hset⟩ := perform_assigned s scope name value
    · rw [hsame]
    · rw [hset, names, names, bindings_setCell]
  | closed scope body => exact List.prefix_rfl

theorem names_replay (ops : List Operation) (t : ScopeId) :
    s.names t <+: (s.replay ops).names t := by
  induction ops generalizing s with
  | nil => exact List.prefix_rfl
  | cons op ops ih => exact (names_perform s op t).trans (ih _)

theorem names_contents (scope : ScopeId) :
    (s.contents scope).map Prod.fst = (s.bindings scope).map Prod.fst := by
  rw [contents, List.map_map]
  rfl

end Store

end Lox
