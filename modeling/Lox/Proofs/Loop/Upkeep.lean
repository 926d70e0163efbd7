import Lox.Proofs.Loop.Pairing
import Mathlib.Logic.Function.Basic

/-!
# The upkeep of a pairing

What the operations of a store do to a pairing. A store may grow in places that the pairing does not
know, a scope that it does not know may be given a role, and a declaration or a write happens on both
sides at once.

* `Pairing.Valid.change` — growth in unknown places;
* `Pairing.Valid.sealLeft`, `Pairing.Valid.sealRight` — scopes that stay empty;
* `Pairing.Fitting`, `Pairing.Valid.join` — scopes that become counterparts;
* `Pairing.Valid.part` — the end of a pass;
* `Pairing.Valid.joinCells` — cells that correspond from now on;
* `Pairing.Valid.declare`, `Pairing.Valid.write` — declarations and writes.
-/

namespace Lox

namespace Pairing

variable {p q : Pairing} {inner : Bool}

/-! ### Growth in unknown places -/

/-- **A store that grows** where nothing is known of it. -/
structure Undisturbed (role : ScopeId → Option Role) (cell : CellId → Option (ScopeId × CellId))
    (s t : Store) : Prop where
  ordered : t.Ordered
  grown : Store.Grown s t
  bindings : ∀ {scope r}, role scope = some r → t.bindings scope = s.bindings scope
  contents : ∀ {c x}, cell c = some x → t.cell c = s.cell c

theorem Valid.undisturbed_left (hp : p.Valid) :
    Undisturbed p.leftRole p.leftCell p.left.store p.left.store :=
  ⟨hp.leftOrdered, Store.Grown.refl _, fun _ => rfl, fun _ => rfl⟩

theorem Valid.undisturbed_right (hp : p.Valid) :
    Undisturbed p.rightRole p.rightCell p.right.store p.right.store :=
  ⟨hp.rightOrdered, Store.Grown.refl _, fun _ => rfl, fun _ => rfl⟩

theorem Undisturbed.newScope {role : ScopeId → Option Role}
    {cell : CellId → Option (ScopeId × CellId)} {s t : Store} (h : Undisturbed role cell s t)
    {parent : ScopeId} (hparent : parent.index < t.scopes.size) :
    Undisturbed role cell s (t.newScope (some parent)).2 where
  ordered := h.ordered.newScope hparent
  grown := h.grown.trans (Store.grown_newScope t _)
  bindings hrole := (Store.bindings_newScope t _ _).trans (h.bindings hrole)
  contents hcell := h.contents hcell

/-- The same sessions otherwise. -/
def change (p : Pairing) (left right : Session) : Pairing := { p with left := left, right := right }

theorem extends_change {m m' : Session} (hleft : Store.Grown p.left.store m.store)
    (hright : Store.Grown p.right.store m'.store) : p.Extends inner (p.change m m') :=
  ⟨hleft, hright, fun h _ => h, fun h _ => h⟩

/-- **Growth in unknown places** keeps the invariant. -/
theorem Valid.change (hp : p.Valid) {m m' : Session}
    (hleft : Undisturbed p.leftRole p.leftCell p.left.store m.store)
    (hright : Undisturbed p.rightRole p.rightCell p.right.store m'.store)
    (hfunctions : m'.store.functions = m.store.functions)
    (hconsoles : p.Consoles m.rest m'.rest) : (p.change m m').Valid := by
  -- nothing that has a role or a counterpart is disturbed
  have hextends : p.Extends false (p.change m m') := extends_change hleft.grown hright.grown
  constructor
  case leftOrdered => exact hleft.ordered
  case rightOrdered => exact hright.ordered
  case leftLive => exact fun h => Nat.lt_of_lt_of_le (hp.leftLive h) hleft.grown.scopes_le
  case rightLive => exact fun h => Nat.lt_of_lt_of_le (hp.rightLive h) hright.grown.scopes_le
  case twin_iff => exact hp.twin_iff
  case leftPass =>
    intro s s' bs h
    exact ⟨(hleft.bindings h).trans (hp.leftPass h).1, (hp.leftPass h).2⟩
  case rightPass =>
    intro s s' bs h
    exact ⟨(hright.bindings h).trans (hp.rightPass h).1, (hp.rightPass h).2⟩
  case leftSealed => exact fun h => (hleft.bindings h).trans (hp.leftSealed h)
  case rightSealed => exact fun h => (hright.bindings h).trans (hp.rightSealed h)
  case bindings =>
    -- the counterpart has a role as well, so that neither scope has new bindings
    intro s s' role h hfacing
    obtain ⟨role', h'⟩ := hp.exists_rightRole h hfacing
    change List.Forall₂ _ (m.store.bindings s) (m'.store.bindings s')
    rw [hleft.bindings h, hright.bindings h']
    exact hp.bindings h hfacing
  case cell_iff => exact hp.cell_iff
  case leftCellLive => exact fun h => Nat.lt_of_lt_of_le (hp.leftCellLive h) hleft.grown.cells_le
  case rightCellLive =>
    exact fun h => Nat.lt_of_lt_of_le (hp.rightCellLive h) hright.grown.cells_le
  case const_eq =>
    -- cells with counterparts hold what they held
    intro c c' owner h
    change (m'.store.cell c').const = (m.store.cell c).const
    rw [hleft.contents h, hright.contents (hp.cell_iff.1 h)]
    exact hp.const_eq h
  case values =>
    intro c c' owner h
    change Values _ (m.store.cell c).value (m'.store.cell c').value
    rw [hleft.contents h, hright.contents (hp.cell_iff.1 h)]
    exact (hp.values h).mono hextends
  case aligned => exact fun h => (hp.aligned h).mono hp hextends
  case functions_eq => exact hfunctions
  case consoles => exact { hconsoles with }

/-! ### Roles -/

/-- A scope on the left is sealed. -/
def sealLeft (p : Pairing) (s : ScopeId) : Pairing :=
  { p with leftRole := Function.update p.leftRole s (some .sealed) }

/-- A scope on the right is sealed. -/
def sealRight (p : Pairing) (s' : ScopeId) : Pairing :=
  { p with rightRole := Function.update p.rightRole s' (some .sealed) }

/-- Two scopes are given roles. -/
def join (p : Pairing) (s s' : ScopeId) (role role' : Role) : Pairing :=
  { p with
    leftRole := Function.update p.leftRole s (some role)
    rightRole := Function.update p.rightRole s' (some role') }

/-- What is given to somebody who had nothing takes nothing away. -/
theorem update_eq_some_iff {ι κ : Type} [DecidableEq ι] {f : ι → Option κ} {i j : ι} {a b : κ}
    (h : f i = none) : Function.update f i (some a) j = some b ↔ j = i ∧ b = a ∨ f j = some b := by
  by_cases hj : j = i
  · subst hj
    simp [h, eq_comm]
  · simp [hj]

theorem extends_sealLeft {s : ScopeId} (hs : p.leftRole s = none) :
    p.Extends inner (p.sealLeft s) :=
  ⟨Store.Grown.refl _, Store.Grown.refl _, fun h _ => (update_eq_some_iff hs).2 (.inr h),
    fun h _ => h⟩

theorem extends_sealRight {s' : ScopeId} (hs' : p.rightRole s' = none) :
    p.Extends inner (p.sealRight s') :=
  ⟨Store.Grown.refl _, Store.Grown.refl _, fun h _ => h,
    fun h _ => (update_eq_some_iff hs').2 (.inr h)⟩

theorem extends_join {s s' : ScopeId} {role role' : Role} (hs : p.leftRole s = none)
    (hs' : p.rightRole s' = none) : p.Extends inner (p.join s s' role role') :=
  ⟨Store.Grown.refl _, Store.Grown.refl _, fun h _ => (update_eq_some_iff hs).2 (.inr h),
    fun h _ => (update_eq_some_iff hs').2 (.inr h)⟩

/-- **An empty scope on the left is sealed.** -/
theorem Valid.sealLeft (hp : p.Valid) {s : ScopeId} (hs : p.leftRole s = none)
    (hlive : s.index < p.left.store.scopes.size) (hempty : p.left.store.bindings s = []) :
    (p.sealLeft s).Valid := by
  have hextends : p.Extends false (p.sealLeft s) := extends_sealLeft hs
  -- whoever has a role now had it before, but for the sealed scope
  have hrole : ∀ {t role}, (p.sealLeft s).leftRole t = some role →
      t = s ∧ role = .sealed ∨ p.leftRole t = some role := (update_eq_some_iff hs).1
  have hkeep : ∀ {t role}, p.leftRole t = some role → (p.sealLeft s).leftRole t = some role :=
    fun h => (update_eq_some_iff hs).2 (.inr h)
  refine { hp with
    leftLive := ?leftLive, twin_iff := ?twin_iff, leftPass := ?leftPass, rightPass := ?rightPass,
    leftSealed := ?leftSealed, bindings := ?bindings, values := ?values, aligned := ?aligned,
    consoles := ?consoles }
  case leftLive =>
    intro t role h
    obtain ⟨rfl, -⟩ | h := hrole h
    · exact hlive
    · exact hp.leftLive h
  case twin_iff =>
    -- a sealed scope is no twin
    intro inner t t'
    refine ⟨fun h => ?_, fun h => hkeep (hp.twin_iff.2 h)⟩
    obtain ⟨-, h⟩ | h := hrole h
    · contradiction
    · exact hp.twin_iff.1 h
  case leftPass =>
    intro t t' bs h
    obtain ⟨-, h⟩ | h := hrole h
    · contradiction
    · exact hp.leftPass h
  case rightPass =>
    intro t t' bs h
    obtain ⟨hbindings, bs', h⟩ := hp.rightPass h
    exact ⟨hbindings, bs', hkeep h⟩
  case leftSealed =>
    intro t h
    obtain ⟨rfl, -⟩ | h := hrole h
    · exact hempty
    · exact hp.leftSealed h
  case bindings =>
    -- and it faces no other scope
    intro t t' role h hfacing
    obtain ⟨-, rfl⟩ | h := hrole h
    · contradiction
    · exact hp.bindings h hfacing
  case values => exact fun h => (hp.values h).mono hextends
  case aligned =>
    intro t t' h
    obtain ⟨-, h⟩ | h := hrole h
    · contradiction
    · exact (hp.aligned h).mono hp hextends
  case consoles => exact { hp.consoles with globals := hkeep hp.consoles.globals }

/-- **An empty scope on the right is sealed.** -/
theorem Valid.sealRight (hp : p.Valid) {s' : ScopeId} (hs' : p.rightRole s' = none)
    (hlive : s'.index < p.right.store.scopes.size) (hempty : p.right.store.bindings s' = []) :
    (p.sealRight s').Valid := by
  have hextends : p.Extends false (p.sealRight s') := extends_sealRight hs'
  -- the roles on the right are what they were, but for that of the sealed scope
  have hrole : ∀ {t role}, (p.sealRight s').rightRole t = some role →
      t = s' ∧ role = .sealed ∨ p.rightRole t = some role := (update_eq_some_iff hs').1
  have hkeep : ∀ {t role}, p.rightRole t = some role → (p.sealRight s').rightRole t = some role :=
    fun h => (update_eq_some_iff hs').2 (.inr h)
  refine { hp with
    rightLive := ?rightLive, twin_iff := ?twin_iff, leftPass := ?leftPass, rightPass := ?rightPass,
    rightSealed := ?rightSealed, values := ?values, aligned := ?aligned, consoles := ?consoles }
  case rightLive =>
    intro t role h
    obtain ⟨rfl, -⟩ | h := hrole h
    · exact hlive
    · exact hp.rightLive h
  case twin_iff =>
    -- a sealed scope is no twin, on this side either
    intro inner t t'
    refine ⟨fun h => hkeep (hp.twin_iff.1 h), fun h => ?_⟩
    obtain ⟨-, h⟩ | h := hrole h
    · contradiction
    · exact hp.twin_iff.2 h
  case leftPass =>
    intro t t' bs h
    obtain ⟨hbindings, bs', h⟩ := hp.leftPass h
    exact ⟨hbindings, bs', hkeep h⟩
  case rightPass =>
    intro t t' bs h
    obtain ⟨-, h⟩ | h := hrole h
    · contradiction
    · exact hp.rightPass h
  case rightSealed =>
    intro t h
    obtain ⟨rfl, -⟩ | h := hrole h
    · exact hempty
    · exact hp.rightSealed h
  case values => exact fun h => (hp.values h).mono hextends
  case aligned => exact fun h => (hp.aligned h).mono hp hextends
  case consoles => exact { hp.consoles with }

/-! ### Counterparts -/

/-- **Roles that fit each other:** those of twins, or those of the scopes of a pass. -/
inductive Fitting (p : Pairing) (s s' : ScopeId) : Role → Role → Prop
  | twins (inner : Bool) : Fitting p s s' (.twin inner s') (.twin inner s)
  | pass {bs bs' : List (String × CellId)} (hleft : p.left.store.bindings s = bs)
    (hright : p.right.store.bindings s' = bs') : Fitting p s s' (.pass s' bs) (.pass s bs')

section Join

variable {s s' : ScopeId} {role role' : Role}

theorem Fitting.facing (h : p.Fitting s s' role role') : role.facing true = some s' := by
  cases h with
  | twins inner => exact Role.facing_true_twin inner s'
  | pass => rfl

/-- The roles on the left: one of them is new. -/
theorem leftRole_join_iff (hs : p.leftRole s = none) {t : ScopeId} {r : Role} :
    (p.join s s' role role').leftRole t = some r ↔ t = s ∧ r = role ∨ p.leftRole t = some r :=
  update_eq_some_iff hs

/-- The roles on the right: one of them is new. -/
theorem rightRole_join_iff (hs' : p.rightRole s' = none) {t : ScopeId} {r : Role} :
    (p.join s s' role role').rightRole t = some r ↔ t = s' ∧ r = role' ∨ p.rightRole t = some r :=
  update_eq_some_iff hs'

/-- **Twins name each other,** the new ones like those from before. -/
theorem Fitting.twin_iff_join (h : p.Fitting s s' role role') (hp : p.Valid)
    (hs : p.leftRole s = none) (hs' : p.rightRole s' = none) {inner : Bool} {t t' : ScopeId} :
    (p.join s s' role role').leftRole t = some (.twin inner t') ↔
      (p.join s s' role role').rightRole t' = some (.twin inner t) := by
  rw [leftRole_join_iff hs, rightRole_join_iff hs', hp.twin_iff]
  refine or_congr_left ?_
  cases h with
  | twins inner' =>
    constructor <;>
    · rintro ⟨rfl, ⟨⟩⟩
      exact ⟨rfl, rfl⟩
  | pass => simp

/-- **The left scope of a pass** has a counterpart, and its bindings are those of its role. -/
theorem Fitting.leftPass_join (h : p.Fitting s s' role role') (hp : p.Valid)
    (hs : p.leftRole s = none) (hs' : p.rightRole s' = none) {t t' : ScopeId}
    {bs : List (String × CellId)}
    (ht : (p.join s s' role role').leftRole t = some (.pass t' bs)) :
    p.left.store.bindings t = bs ∧
      ∃ bs', (p.join s s' role role').rightRole t' = some (.pass t bs') := by
  obtain ⟨rfl, hnew⟩ | hold := (leftRole_join_iff hs).1 ht
  · -- the pass is the one that begins
    cases h with
    | twins => contradiction
    | pass hleft =>
      cases hnew
      exact ⟨hleft, _, Function.update_self ..⟩
  · obtain ⟨hbs, bs', ht'⟩ := hp.leftPass hold
    exact ⟨hbs, bs', (rightRole_join_iff hs').2 (.inr ht')⟩

/-- **The right scope of a pass,** likewise. -/
theorem Fitting.rightPass_join (h : p.Fitting s s' role role') (hp : p.Valid)
    (hs : p.leftRole s = none) (hs' : p.rightRole s' = none) {t t' : ScopeId}
    {bs' : List (String × CellId)}
    (ht' : (p.join s s' role role').rightRole t' = some (.pass t bs')) :
    p.right.store.bindings t' = bs' ∧
      ∃ bs, (p.join s s' role role').leftRole t = some (.pass t' bs) := by
  obtain ⟨rfl, hnew⟩ | hold := (rightRole_join_iff hs').1 ht'
  · cases h with
    | twins => contradiction
    | pass _ hright =>
      cases hnew
      exact ⟨hright, _, Function.update_self ..⟩
  · obtain ⟨hbs', bs, ht⟩ := hp.rightPass hold
    exact ⟨hbs', bs, (leftRole_join_iff hs).2 (.inr ht)⟩

/-- **Two scopes become counterparts,** either twins or the scopes of a pass. -/
theorem Valid.join (hp : p.Valid) (hs : p.leftRole s = none) (hs' : p.rightRole s' = none)
    (hlive : s.index < p.left.store.scopes.size) (hlive' : s'.index < p.right.store.scopes.size)
    (hbindings : List.Forall₂ (p.Binds s') (p.left.store.bindings s) (p.right.store.bindings s'))
    (hroles : p.Fitting s s' role role')
    (haligned : role = .twin false s' → (p.join s s' role role').Aligned false s s') :
    (p.join s s' role role').Valid := by
  -- no scope loses its role, so that values and aligned scopes stay what they are
  have hextends : p.Extends false (p.join s s' role role') := extends_join hs hs'
  -- in every clause about roles, the role is the new one or it was there before
  refine { hp with
    leftLive := ?leftLive, rightLive := ?rightLive, twin_iff := hroles.twin_iff_join hp hs hs',
    leftPass := hroles.leftPass_join hp hs hs', rightPass := hroles.rightPass_join hp hs hs',
    leftSealed := ?leftSealed, rightSealed := ?rightSealed, bindings := ?bindings,
    values := ?values, aligned := ?aligned, consoles := ?consoles }
  case leftLive =>
    intro t r h
    obtain ⟨rfl, -⟩ | hold := (leftRole_join_iff hs).1 h
    · exact hlive
    · exact hp.leftLive hold
  case rightLive =>
    intro t r h
    obtain ⟨rfl, -⟩ | hold := (rightRole_join_iff hs').1 h
    · exact hlive'
    · exact hp.rightLive hold
  case leftSealed =>
    -- neither twins nor the scopes of a pass are sealed
    intro t h
    obtain ⟨-, rfl⟩ | hold := (leftRole_join_iff hs).1 h
    · cases hroles
    · exact hp.leftSealed hold
  case rightSealed =>
    intro t h
    obtain ⟨-, rfl⟩ | hold := (rightRole_join_iff hs').1 h
    · cases hroles
    · exact hp.rightSealed hold
  case bindings =>
    intro t t' r h hfacing
    obtain ⟨rfl, rfl⟩ | hold := (leftRole_join_iff hs).1 h
    · -- the scope with the new role faces the other one with a new role
      obtain rfl : s' = t' := Option.some_inj.1 (hroles.facing.symm.trans hfacing)
      exact hbindings
    · exact hp.bindings hold hfacing
  case values => exact fun h => (hp.values h).mono hextends
  case aligned =>
    intro t t' h
    obtain ⟨rfl, rfl⟩ | hold := (leftRole_join_iff hs).1 h
    · -- of the new counterparts only outer twins have to be aligned
      obtain ⟨⟩ := hroles
      exact haligned rfl
    · exact (hp.aligned hold).mono hp hextends
  case consoles =>
    exact { hp.consoles with globals := (leftRole_join_iff hs).2 (.inr hp.consoles.globals) }

end Join

/-! ### The end of a pass -/

/-- Two scopes lose their roles, and the cells that the one on the right binds their counterparts. -/
def part (p : Pairing) (s s' : ScopeId) : Pairing :=
  { p with
    leftRole := Function.update p.leftRole s none
    rightRole := Function.update p.rightRole s' none
    leftCell := fun c => (p.leftCell c).filter fun x => x.1 ≠ s'
    rightCell := fun c' => (p.rightCell c').filter fun x => x.1 ≠ s' }

/-- A scope has one counterpart at most. -/
theorem Valid.eq_of_facing (hp : p.Valid) {s t s' : ScopeId} {role role' : Role}
    (hs : p.leftRole s = some role) (ht : p.leftRole t = some role')
    (hfacing : role.facing true = some s') (hfacing' : role'.facing true = some s') : s = t := by
  -- the role of the counterpart names the scope, whichever kind of role it is
  have hback : ∀ {u r}, p.leftRole u = some r → r.facing true = some s' →
      (∃ inner, p.rightRole s' = some (.twin inner u)) ∨
        ∃ bs, p.rightRole s' = some (.pass u bs) := by
    intro u r hu hr
    cases r with
    | twin inner other =>
      obtain rfl : other = s' := by simpa using hr
      exact .inl ⟨inner, hp.twin_iff.1 hu⟩
    | pass other bs =>
      obtain rfl : other = s' := by simpa using hr
      exact .inr (hp.leftPass hu).2
    | sealed => contradiction
  obtain ⟨_, h⟩ | ⟨_, h⟩ := hback hs hfacing <;> obtain ⟨_, h'⟩ | ⟨_, h'⟩ := hback ht hfacing'
  all_goals simp_all

theorem extends_part {s s' : ScopeId} {bs bs' : List (String × CellId)}
    (hs : p.leftRole s = some (.pass s' bs)) (hs' : p.rightRole s' = some (.pass s bs')) :
    p.Extends false (p.part s s') := by
  refine ⟨Store.Grown.refl _, Store.Grown.refl _, ?_, ?_⟩
  · intro t role h hseen
    have hne : t ≠ s := by
      rintro rfl
      rw [hs] at h
      cases h
      simp [Role.isOuter] at hseen
    exact (Function.update_of_ne hne _ _).trans h
  · intro t role h hseen
    have hne : t ≠ s' := by
      rintro rfl
      rw [hs'] at h
      cases h
      simp [Role.isOuter] at hseen
    exact (Function.update_of_ne hne _ _).trans h

/-- Whoever did not know the scopes of the pass misses nothing. -/
theorem Extends.part (h : p.Extends true q) {s s' : ScopeId} (hs : p.leftRole s = none)
    (hs' : p.rightRole s' = none) : p.Extends true (q.part s s') := by
  refine ⟨h.left, h.right, ?_, ?_⟩
  · intro t role ht hseen
    have hne : t ≠ s := by
      rintro rfl
      rw [hs] at ht
      contradiction
    exact (Function.update_of_ne hne _ _).trans (h.leftRole ht hseen)
  · intro t role ht hseen
    have hne : t ≠ s' := by
      rintro rfl
      rw [hs'] at ht
      contradiction
    exact (Function.update_of_ne hne _ _).trans (h.rightRole ht hseen)

section Part

variable {s s' : ScopeId}

/-- The roles on the left: one of them is forgotten. -/
theorem leftRole_part_iff {t : ScopeId} {r : Role} :
    (p.part s s').leftRole t = some r ↔ t ≠ s ∧ p.leftRole t = some r := by
  by_cases ht : t = s <;> simp [Pairing.part, ht]

/-- The roles on the right: one of them is forgotten. -/
theorem rightRole_part_iff {t : ScopeId} {r : Role} :
    (p.part s s').rightRole t = some r ↔ t ≠ s' ∧ p.rightRole t = some r := by
  by_cases ht : t = s' <;> simp [Pairing.part, ht]

/-- The cells on the left: those of the pass are forgotten, and no others. -/
theorem leftCell_part_iff {c : CellId} {x : ScopeId × CellId} :
    (p.part s s').leftCell c = some x ↔ p.leftCell c = some x ∧ x.1 ≠ s' := by
  simp [Pairing.part, Option.filter_eq_some_iff]

/-- The cells on the right: those of the pass are forgotten, and no others. -/
theorem rightCell_part_iff {c' : CellId} {x : ScopeId × CellId} :
    (p.part s s').rightCell c' = some x ↔ p.rightCell c' = some x ∧ x.1 ≠ s' := by
  simp [Pairing.part, Option.filter_eq_some_iff]

/-- **The end of a pass.** Nothing leads to its scopes but the loop itself, so that they can be
forgotten. -/
theorem Valid.part (hp : p.Valid) {bs bs' : List (String × CellId)}
    (hs : p.leftRole s = some (.pass s' bs)) (hs' : p.rightRole s' = some (.pass s bs')) :
    (p.part s s').Valid := by
  -- the scopes of a pass are not met from outside, so that values and aligned scopes stay
  have hextends : p.Extends false (p.part s s') := extends_part hs hs'
  constructor
  case leftOrdered => exact hp.leftOrdered
  case rightOrdered => exact hp.rightOrdered
  case leftLive => exact fun h => hp.leftLive (leftRole_part_iff.1 h).2
  case rightLive => exact fun h => hp.rightLive (rightRole_part_iff.1 h).2
  case twin_iff =>
    -- neither scope of the pass is a twin
    intro inner t t'
    rw [leftRole_part_iff, rightRole_part_iff, hp.twin_iff]
    refine and_congr_left fun ht' => ⟨fun _ => ?_, fun _ => ?_⟩
    · rintro rfl
      rw [hs'] at ht'
      cases ht'
    · rintro rfl
      have ht := hp.twin_iff.2 ht'
      rw [hs] at ht
      cases ht
  case leftPass =>
    -- another pass has another counterpart, which keeps its role
    intro t t' cs h
    obtain ⟨hne, hold⟩ := leftRole_part_iff.1 h
    obtain ⟨hcs, cs', h'⟩ := hp.leftPass hold
    refine ⟨hcs, cs', rightRole_part_iff.2 ⟨?_, h'⟩⟩
    rintro rfl
    rw [hs'] at h'
    cases h'
    exact hne rfl
  case rightPass =>
    intro t t' cs h
    obtain ⟨hne, hold⟩ := rightRole_part_iff.1 h
    obtain ⟨hcs, cs', h'⟩ := hp.rightPass hold
    refine ⟨hcs, cs', leftRole_part_iff.2 ⟨?_, h'⟩⟩
    rintro rfl
    rw [hs] at h'
    cases h'
    exact hne rfl
  case leftSealed => exact fun h => hp.leftSealed (leftRole_part_iff.1 h).2
  case rightSealed => exact fun h => hp.rightSealed (rightRole_part_iff.1 h).2
  case bindings =>
    intro t t' role h hfacing
    obtain ⟨hne, hold⟩ := leftRole_part_iff.1 h
    -- the counterpart of another scope binds cells of its own, which keep their counterparts
    have hne' : t' ≠ s' := by
      rintro rfl
      exact hne (hp.eq_of_facing hold hs hfacing rfl)
    exact (hp.bindings hold hfacing).imp fun _ _ hxy =>
      ⟨hxy.1, leftCell_part_iff.2 ⟨hxy.2, hne'⟩⟩
  case cell_iff =>
    intro c c' owner
    rw [leftCell_part_iff, rightCell_part_iff, hp.cell_iff]
  case leftCellLive => exact fun h => hp.leftCellLive (leftCell_part_iff.1 h).1
  case rightCellLive => exact fun h => hp.rightCellLive (rightCell_part_iff.1 h).1
  case const_eq => exact fun h => hp.const_eq (leftCell_part_iff.1 h).1
  case values => exact fun h => (hp.values (leftCell_part_iff.1 h).1).mono hextends
  case aligned => exact fun h => (hp.aligned (leftRole_part_iff.1 h).2).mono hp hextends
  case functions_eq => exact hp.functions_eq
  case consoles =>
    -- the global scopes are outer twins
    exact { hp.consoles with globals := hextends.leftRole hp.consoles.globals (.inr rfl) }

end Part

/-! ### Cells -/

/-- Two cells correspond from now on, the one on the right being bound by `owner`. -/
def joinCells (p : Pairing) (owner : ScopeId) (c c' : CellId) : Pairing :=
  { p with
    leftCell := Function.update p.leftCell c (some (owner, c'))
    rightCell := Function.update p.rightCell c' (some (owner, c)) }

theorem extends_joinCells {owner : ScopeId} {c c' : CellId} :
    p.Extends inner (p.joinCells owner c c') :=
  ⟨Store.Grown.refl _, Store.Grown.refl _, fun h _ => h, fun h _ => h⟩

/-- Bindings of cells that had counterparts already. -/
theorem Binds.joinCells {owner owner' : ScopeId} {c c' : CellId} {x y : String × CellId}
    (hc : p.leftCell c = none) (h : p.Binds owner x y) :
    (p.joinCells owner' c c').Binds owner x y :=
  ⟨h.1, (update_eq_some_iff hc).2 (.inr h.2)⟩

/-- **Which cells correspond** after two more do: one way round as the other. -/
theorem joinCells_cell_iff (hp : p.Valid) {owner : ScopeId} {c c' : CellId}
    (hc : p.leftCell c = none) (hc' : p.rightCell c' = none) {d d' : CellId} {o : ScopeId} :
    (p.joinCells owner c c').leftCell d = some (o, d') ↔
      (p.joinCells owner c c').rightCell d' = some (o, d) := by
  refine (update_eq_some_iff hc).trans (Iff.trans ?_ (update_eq_some_iff hc').symm)
  rw [hp.cell_iff, Prod.mk.injEq, Prod.mk.injEq]
  constructor
  · rintro (⟨rfl, rfl, rfl⟩ | h)
    · exact .inl ⟨rfl, rfl, rfl⟩
    · exact .inr h
  · rintro (⟨rfl, rfl, rfl⟩ | h)
    · exact .inl ⟨rfl, rfl, rfl⟩
    · exact .inr h

/-- **Two cells with the same contents become counterparts.** -/
theorem Valid.joinCells (hp : p.Valid) {owner : ScopeId} {c c' : CellId}
    (hc : p.leftCell c = none) (hc' : p.rightCell c' = none)
    (hlive : c.index < p.left.store.cells.size) (hlive' : c'.index < p.right.store.cells.size)
    (hconst : (p.right.store.cell c').const = (p.left.store.cell c).const)
    (hvalue : p.Values (p.left.store.cell c).value (p.right.store.cell c').value) :
    (p.joinCells owner c c').Valid := by
  have hextends : p.Extends false (p.joinCells owner c c') := extends_joinCells
  -- a cell with a counterpart is one of the two, or it had its counterpart before
  have hcell : ∀ {d x}, (p.joinCells owner c c').leftCell d = some x →
      d = c ∧ x = (owner, c') ∨ p.leftCell d = some x := (update_eq_some_iff hc).1
  have hcell' : ∀ {d' x}, (p.joinCells owner c c').rightCell d' = some x →
      d' = c' ∧ x = (owner, c) ∨ p.rightCell d' = some x := (update_eq_some_iff hc').1
  refine { hp with
    bindings := ?bindings, cell_iff := ?cell_iff, leftCellLive := ?leftCellLive,
    rightCellLive := ?rightCellLive, const_eq := ?const_eq, values := ?values, aligned := ?aligned,
    consoles := ?consoles }
  case bindings => exact fun h hfacing => (hp.bindings h hfacing).imp fun _ _ => Binds.joinCells hc
  case cell_iff => exact joinCells_cell_iff hp hc hc'
  case leftCellLive =>
    intro d x h
    obtain ⟨rfl, -⟩ | h := hcell h
    · exact hlive
    · exact hp.leftCellLive h
  case rightCellLive =>
    intro d' x h
    obtain ⟨rfl, -⟩ | h := hcell' h
    · exact hlive'
    · exact hp.rightCellLive h
  case const_eq =>
    intro d d' o h
    obtain ⟨rfl, ⟨⟩⟩ | h := hcell h
    · exact hconst
    · exact hp.const_eq h
  case values =>
    intro d d' o h
    obtain ⟨rfl, ⟨⟩⟩ | h := hcell h
    · exact hvalue.mono hextends
    · exact (hp.values h).mono hextends
  case aligned => exact fun h => (hp.aligned h).mono hp hextends
  case consoles => exact { hp.consoles with }

/-! ### Declarations -/

/-- **The same name is declared on both sides,** so that the new cells are counterparts. -/
def declare (p : Pairing) (s s' : ScopeId) (name : String) (v v' : Value) (const : Bool) :
    Pairing :=
  (p.joinCells s' ⟨p.left.store.cells.size⟩ ⟨p.right.store.cells.size⟩).change
    { p.left with store := (p.left.store.declare s name v const).2 }
    { p.right with store := (p.right.store.declare s' name v' const).2 }

theorem extends_declare {s s' : ScopeId} {name : String} {v v' : Value} {const : Bool} :
    p.Extends inner (p.declare s s' name v v' const) :=
  ⟨Store.grown_declare .., Store.grown_declare .., fun h _ => h, fun h _ => h⟩

/-- Bindings that correspond do so after one more. -/
theorem forall₂_bindName {owner : ScopeId} {name : String} {c c' : CellId}
    {xs ys : List (String × CellId)} (h : List.Forall₂ (p.Binds owner) xs ys)
    (hcell : p.leftCell c = some (owner, c')) :
    List.Forall₂ (p.Binds owner) (bindName name c xs) (bindName name c' ys) := by
  induction h with
  | nil => exact .cons ⟨rfl, hcell⟩ .nil
  | @cons x y xs ys hxy hrest ih =>
    obtain ⟨other, old⟩ := x
    obtain ⟨other', old'⟩ := y
    obtain ⟨rfl, hold⟩ := hxy
    rw [bindName, bindName]
    split
    · exact .cons ⟨rfl, hcell⟩ hrest
    · exact .cons ⟨rfl, hold⟩ ih

/-- The next cell on the left has no counterpart yet. -/
theorem Valid.leftCell_next (hp : p.Valid) : p.leftCell ⟨p.left.store.cells.size⟩ = none :=
  Option.eq_none_iff_forall_ne_some.2 fun _ hx => absurd (hp.leftCellLive hx) (lt_irrefl _)

/-- The next cell on the right has no counterpart yet. -/
theorem Valid.rightCell_next (hp : p.Valid) : p.rightCell ⟨p.right.store.cells.size⟩ = none :=
  Option.eq_none_iff_forall_ne_some.2 fun _ hx => absurd (hp.rightCellLive hx) (lt_irrefl _)

section Declare

variable {s s' : ScopeId} {within : Bool} {name : String} {v v' : Value} {const : Bool}

/-- **Cells that correspond after a declaration:** the two new ones with what was declared, or two
that did so before and are as they were. -/
theorem Valid.cells_declare (hp : p.Valid) {d d' : CellId} {owner : ScopeId}
    (h : (p.declare s s' name v v' const).leftCell d = some (owner, d')) :
    ((p.declare s s' name v v' const).left.store.cell d = ⟨v, const⟩ ∧
      (p.declare s s' name v v' const).right.store.cell d' = ⟨v', const⟩) ∨
    p.leftCell d = some (owner, d') ∧
      (p.declare s s' name v v' const).left.store.cell d = p.left.store.cell d ∧
      (p.declare s s' name v v' const).right.store.cell d' = p.right.store.cell d' := by
  have hleft := Store.cell_declare p.left.store s name v const d
  have hright := Store.cell_declare p.right.store s' name v' const d'
  obtain ⟨rfl, ⟨⟩⟩ | hold := (update_eq_some_iff hp.leftCell_next).1 h
  · exact .inl ⟨hleft.trans (if_pos rfl), hright.trans (if_pos rfl)⟩
  · have hlt := hp.leftCellLive hold
    have hlt' := hp.rightCellLive (hp.cell_iff.1 hold)
    exact .inr ⟨hold, hleft.trans (if_neg (Nat.ne_of_lt hlt)),
      hright.trans (if_neg (Nat.ne_of_lt hlt'))⟩

/-- **Bindings of counterparts after a declaration:** those of the two twins have one more in
common, and all others are as they were. -/
theorem Valid.bindings_declare (hp : p.Valid) (hs : p.leftRole s = some (.twin within s'))
    {t t' : ScopeId} {role : Role} (h : p.leftRole t = some role)
    (hfacing : role.facing true = some t') :
    List.Forall₂ ((p.declare s s' name v v' const).Binds t')
      ((p.declare s s' name v v' const).left.store.bindings t)
      ((p.declare s s' name v v' const).right.store.bindings t') := by
  have hold : List.Forall₂ ((p.declare s s' name v v' const).Binds t')
      (p.left.store.bindings t) (p.right.store.bindings t') :=
    (hp.bindings h hfacing).imp fun _ _ hxy => Binds.joinCells hp.leftCell_next hxy
  -- the new cells are counterparts, bound by the twin on the right
  have hnew : (p.declare s s' name v v' const).leftCell ⟨p.left.store.cells.size⟩ =
      some (s', ⟨p.right.store.cells.size⟩) := Function.update_self ..
  have hleft := Store.bindings_declare p.left.store s t name v const (hp.leftLive hs)
  have hright := Store.bindings_declare p.right.store s' t' name v' const
    (hp.rightLive (hp.twin_iff.1 hs))
  change List.Forall₂ _ ((p.left.store.declare s name v const).2.bindings t)
    ((p.right.store.declare s' name v' const).2.bindings t')
  rw [hleft, hright]
  by_cases ht : t = s
  · subst ht
    obtain rfl : role = .twin within s' := Option.some_inj.1 (h.symm.trans hs)
    obtain rfl : t' = s' := by simpa using hfacing.symm
    rw [if_pos rfl, if_pos rfl]
    exact forall₂_bindName hold hnew
  · -- no other scope faces the twin
    have ht' : t' ≠ s' := by
      rintro rfl
      exact ht (hp.eq_of_facing h hs hfacing (Role.facing_true_twin within t'))
    rw [if_neg ht, if_neg ht']
    exact hold

/-- **Declarations** in a scope and its twin keep the invariant. -/
theorem Valid.declare (hp : p.Valid) (hs : p.leftRole s = some (.twin within s'))
    (hv : p.Values v v') (name : String) (const : Bool) :
    (p.declare s s' name v v' const).Valid := by
  have hextends : p.Extends false (p.declare s s' name v v' const) := extends_declare
  have hs' := hp.twin_iff.1 hs
  -- a scope with any other role than that of a twin keeps its bindings
  have hother : ∀ {t role}, p.leftRole t = some role → (∀ within t', role ≠ .twin within t') →
      (p.declare s s' name v v' const).left.store.bindings t = p.left.store.bindings t := by
    intro t role ht hrole
    refine (Store.bindings_declare _ s t name v const (hp.leftLive hs)).trans (if_neg ?_)
    rintro rfl
    exact hrole _ _ (Option.some_inj.1 (ht.symm.trans hs))
  have hother' : ∀ {t role}, p.rightRole t = some role → (∀ within t', role ≠ .twin within t') →
      (p.declare s s' name v v' const).right.store.bindings t = p.right.store.bindings t := by
    intro t role ht hrole
    refine (Store.bindings_declare _ s' t name v' const (hp.rightLive hs')).trans (if_neg ?_)
    rintro rfl
    exact hrole _ _ (Option.some_inj.1 (ht.symm.trans hs'))
  constructor
  case leftOrdered => exact hp.leftOrdered.declare s name v const
  case rightOrdered => exact hp.rightOrdered.declare s' name v' const
  case leftLive => exact fun h => Nat.lt_of_lt_of_le (hp.leftLive h) hextends.left.scopes_le
  case rightLive => exact fun h => Nat.lt_of_lt_of_le (hp.rightLive h) hextends.right.scopes_le
  case twin_iff => exact hp.twin_iff
  case leftPass =>
    exact fun h => ⟨(hother h (by simp)).trans (hp.leftPass h).1, (hp.leftPass h).2⟩
  case rightPass =>
    exact fun h => ⟨(hother' h (by simp)).trans (hp.rightPass h).1, (hp.rightPass h).2⟩
  case leftSealed => exact fun h => (hother h (by simp)).trans (hp.leftSealed h)
  case rightSealed => exact fun h => (hother' h (by simp)).trans (hp.rightSealed h)
  case bindings => exact hp.bindings_declare hs
  case cell_iff => exact joinCells_cell_iff hp hp.leftCell_next hp.rightCell_next
  case leftCellLive =>
    -- the stores have grown by the new cells
    intro d x h
    change d.index < (p.left.store.declare s name v const).2.cells.size
    rw [Store.cells_size_declare]
    obtain ⟨rfl, -⟩ | hold := (update_eq_some_iff hp.leftCell_next).1 h
    · exact Nat.lt_succ_self _
    · exact Nat.lt_succ_of_lt (hp.leftCellLive hold)
  case rightCellLive =>
    intro d' x h
    change d'.index < (p.right.store.declare s' name v' const).2.cells.size
    rw [Store.cells_size_declare]
    obtain ⟨rfl, -⟩ | hold := (update_eq_some_iff hp.rightCell_next).1 h
    · exact Nat.lt_succ_self _
    · exact Nat.lt_succ_of_lt (hp.rightCellLive hold)
  case const_eq =>
    intro d d' owner h
    obtain ⟨hleft, hright⟩ | ⟨hold, hleft, hright⟩ := hp.cells_declare h <;> rw [hleft, hright]
    exact hp.const_eq hold
  case values =>
    intro d d' owner h
    obtain ⟨hleft, hright⟩ | ⟨hold, hleft, hright⟩ := hp.cells_declare h <;> rw [hleft, hright]
    · exact hv.mono hextends
    · exact (hp.values hold).mono hextends
  case aligned => exact fun h => (hp.aligned h).mono hp hextends
  case functions_eq => exact hp.functions_eq
  case consoles => exact { hp.consoles with }

end Declare

/-! ### Writes -/

/-- **Cells that correspond are written** on both sides. -/
def write (p : Pairing) (c c' : CellId) (v v' : Value) : Pairing :=
  p.change { p.left with store := p.left.store.setCell c v }
    { p.right with store := p.right.store.setCell c' v' }

theorem extends_write {c c' : CellId} {v v' : Value} : p.Extends inner (p.write c c' v v') :=
  extends_change (Store.grown_setCell ..) (Store.grown_setCell ..)

/-- **Writes** to cells that correspond keep the invariant. -/
theorem Valid.write (hp : p.Valid) {c c' : CellId} {owner : ScopeId}
    (hc : p.leftCell c = some (owner, c')) {v v' : Value} (hv : p.Values v v') :
    (p.write c c' v v').Valid := by
  have hextends : p.Extends false (p.write c c' v v') := extends_write
  have hcell := fun d => Store.cell_setCell p.left.store c d v (hp.leftCellLive hc)
  have hcell' := fun d =>
    Store.cell_setCell p.right.store c' d v' (hp.rightCellLive (hp.cell_iff.1 hc))
  -- a cell has one counterpart at most, so that the same cells are written
  have hsame : ∀ {d d' owner'}, p.leftCell d = some (owner', d') → (d = c ↔ d' = c') := by
    intro d d' owner' hd
    constructor
    · rintro rfl
      exact (Prod.mk.inj (Option.some.inj (hd.symm.trans hc))).2
    · rintro rfl
      have heq := (hp.cell_iff.1 hd).symm.trans (hp.cell_iff.1 hc)
      exact (Prod.mk.inj (Option.some.inj heq)).2
  refine { hp with
    leftCellLive := ?leftCellLive, rightCellLive := ?rightCellLive, const_eq := ?const_eq,
    values := ?values, aligned := ?aligned, consoles := ?consoles }
  case leftCellLive =>
    exact fun h => Nat.lt_of_lt_of_le (hp.leftCellLive h) (Store.grown_setCell ..).cells_le
  case rightCellLive =>
    exact fun h => Nat.lt_of_lt_of_le (hp.rightCellLive h) (Store.grown_setCell ..).cells_le
  case const_eq =>
    -- a write leaves a cell as constant as it was
    intro d d' owner' h
    change ((p.right.store.setCell c' v').cell d').const =
      ((p.left.store.setCell c v).cell d).const
    rw [hcell, hcell']
    have := hp.const_eq h
    by_cases hd : d = c
    · rw [if_pos hd, if_pos ((hsame h).1 hd)]
      exact this
    · rw [if_neg hd, if_neg fun hd' => hd ((hsame h).2 hd')]
      exact this
  case values =>
    -- either both cells hold what is written, or both hold what they held
    intro d d' owner' h
    change Values _ ((p.left.store.setCell c v).cell d).value
      ((p.right.store.setCell c' v').cell d').value
    rw [hcell, hcell']
    by_cases hd : d = c
    · rw [if_pos hd, if_pos ((hsame h).1 hd)]
      exact hv.mono hextends
    · rw [if_neg hd, if_neg fun hd' => hd ((hsame h).2 hd')]
      exact (hp.values h).mono hextends
  case aligned => exact fun h => (hp.aligned h).mono hp hextends
  case consoles => exact { hp.consoles with }

end Pairing

end Lox
