import Lox.Proofs.Loop.Desugared
import Lox.Proofs.Store.Growth
import Lox.Session

/-!
# Two sessions side by side

A program and its desugared form run in two sessions. Their stores differ: where a for loop has a
scope for every pass, the block that replaces it has one scope for all passes and an empty one
besides in each of them. So scopes correspond one to one only as far as names may be declared in
them; of the others it is known that they stay as they are.

* `Role` — what a scope has to do with the other session;
* `Pairing` — two sessions, with the roles of their scopes and the correspondence of their cells;
* `Pairing.Values` — values that nobody can tell apart;
* `Pairing.Aligned` — scopes from which the same names lead to the same cells;
* `Pairing.Valid` — the invariant of the simulation, `Pairing.Aligned.resolve` its use;
* `Pairing.Extends` — how a pairing grows.
-/

namespace Lox

/-! ### Roles -/

/-- **What a scope has to do with the other session.** Names are declared in a `twin` only, and in
its counterpart at the same time. A twin is `inner` if it lies inside a loop whose counterpart makes
no copies: no closure captures it. A `pass` is the scope of such a loop or of the block that
replaces it, whose bindings are fixed. A `sealed` scope has no counterpart and stays empty. -/
inductive Role
  | twin (inner : Bool) (other : ScopeId)
  | pass (other : ScopeId) (bindings : List (String × CellId))
  | sealed

namespace Role

/-- The counterpart of a scope, as far as it may be met: from outside, inner scopes are not. -/
def facing (inner : Bool) : Role → Option ScopeId
  | twin false other => some other
  | twin true other => if inner then some other else none
  | pass other _ => if inner then some other else none
  | sealed => none

@[simp] theorem facing_true_twin (inner : Bool) (other : ScopeId) :
    (twin inner other).facing true = some other := by
  cases inner <;> rfl

@[simp] theorem facing_true_pass (other : ScopeId) (bs : List (String × CellId)) :
    (pass other bs).facing true = some other := rfl

/-- Is the role known from outside? -/
def isOuter : Role → Bool
  | twin false _ | sealed => true
  | _ => false

/-- **Only outer twins** are met from outside. -/
theorem eq_twin_of_facing_false {role : Role} {other : ScopeId}
    (h : role.facing false = some other) : role = twin false other := by
  cases role with
  | twin inner other' => cases inner <;> simp_all [facing]
  | pass other' bindings => simp [facing] at h
  | sealed => simp [facing] at h

theorem facing_true_of_facing {inner : Bool} {role : Role} {other : ScopeId}
    (h : role.facing inner = some other) : role.facing true = some other := by
  cases inner with
  | true => exact h
  | false =>
    obtain rfl := eq_twin_of_facing_false h
    rfl

/-- What may be met from here is known from here. -/
theorem isOuter_of_facing {inner : Bool} {role : Role} {other : ScopeId}
    (h : role.facing inner = some other) : inner = true ∨ role.isOuter = true := by
  cases inner with
  | true => exact .inl rfl
  | false =>
    obtain rfl := eq_twin_of_facing_false h
    exact .inr rfl

/-- What may be met from outside may be met from inside. -/
theorem facing_of_facing_false {inner : Bool} {role : Role} {other : ScopeId}
    (h : role.facing false = some other) : role.facing inner = some other := by
  obtain rfl := eq_twin_of_facing_false h
  rfl

end Role

/-- **Two sessions side by side.** A cell that corresponds to another one is known together with the
scope on the right that binds its counterpart. -/
structure Pairing where
  left : Session
  right : Session
  leftRole : ScopeId → Option Role
  rightRole : ScopeId → Option Role
  leftCell : CellId → Option (ScopeId × CellId)
  rightCell : CellId → Option (ScopeId × CellId)

namespace Pairing

/-! ### What corresponds -/

/-- **Closures that nobody can tell apart.** Some for loops in the body may have been replaced, and
the captured scopes are twins. -/
structure Closures (p : Pairing) (f f' : Closure) : Prop where
  identity_eq : f'.identity = f.identity
  name_eq : f'.name = f.name
  parameters_eq : f'.parameters = f.parameters
  body : Desugars f.body f'.body
  normal : Stmt.AllNormal true f.body
  scope : p.leftRole f.scope = some (.twin false f'.scope)

/-- **Values that nobody can tell apart.** -/
inductive Values (p : Pairing) : Value → Value → Prop
  | literal (l : Literal) : Values p (.literal l) (.literal l)
  | native (f : Native) : Values p (.native f) (.native f)
  | closure {f f' : Closure} (h : p.Closures f f') : Values p (.closure f) (.closure f')

/-- Bindings of a scope and of its counterpart `owner` on the right. -/
def Binds (p : Pairing) (owner : ScopeId) (x y : String × CellId) : Prop :=
  y.1 = x.1 ∧ p.leftCell x.2 = some (owner, y.2)

/-- **Scopes from which the same names lead to the same cells.** On the way outwards every scope
meets its counterpart, except for sealed ones, which have nothing to find in them. -/
inductive Aligned (p : Pairing) (inner : Bool) : ScopeId → ScopeId → Prop
  | root {s s' : ScopeId} {role : Role} (hrole : p.leftRole s = some role)
    (hfacing : role.facing inner = some s') (hleft : p.left.store.parent? s = none)
    (hright : p.right.store.parent? s' = none) : Aligned p inner s s'
  | meet {s s' t t' : ScopeId} {role : Role} (hrole : p.leftRole s = some role)
    (hfacing : role.facing inner = some s') (hleft : p.left.store.parent? s = some t)
    (hright : p.right.store.parent? s' = some t') (h : Aligned p inner t t') : Aligned p inner s s'
  | left {s s' t : ScopeId} (hrole : p.leftRole s = some .sealed)
    (hleft : p.left.store.parent? s = some t) (h : Aligned p inner t s') : Aligned p inner s s'
  | right {s s' t' : ScopeId} (hrole : p.rightRole s' = some .sealed)
    (hright : p.right.store.parent? s' = some t') (h : Aligned p inner s t') : Aligned p inner s s'

/-- **Consoles that nobody can tell apart.** Events are not looked at. -/
structure Consoles (p : Pairing) (rest rest' : Console) : Prop where
  globals : p.leftRole rest.globals = some (.twin false rest'.globals)
  frames_eq : rest'.frames = rest.frames
  output_eq : rest'.output = rest.output
  readings_eq : rest'.readings = rest.readings

/-! ### The invariant -/

/-- **The invariant of the simulation.** -/
structure Valid (p : Pairing) : Prop where
  leftOrdered : p.left.store.Ordered
  rightOrdered : p.right.store.Ordered
  leftLive : ∀ {s role}, p.leftRole s = some role → s.index < p.left.store.scopes.size
  rightLive : ∀ {s role}, p.rightRole s = some role → s.index < p.right.store.scopes.size
  twin_iff : ∀ {inner s s'}, p.leftRole s = some (.twin inner s') ↔
    p.rightRole s' = some (.twin inner s)
  leftPass : ∀ {s s' bs}, p.leftRole s = some (.pass s' bs) →
    p.left.store.bindings s = bs ∧ ∃ bs', p.rightRole s' = some (.pass s bs')
  rightPass : ∀ {s s' bs'}, p.rightRole s' = some (.pass s bs') →
    p.right.store.bindings s' = bs' ∧ ∃ bs, p.leftRole s = some (.pass s' bs)
  leftSealed : ∀ {s}, p.leftRole s = some .sealed → p.left.store.bindings s = []
  rightSealed : ∀ {s'}, p.rightRole s' = some .sealed → p.right.store.bindings s' = []
  bindings : ∀ {s s' role}, p.leftRole s = some role → role.facing true = some s' →
    List.Forall₂ (p.Binds s') (p.left.store.bindings s) (p.right.store.bindings s')
  cell_iff : ∀ {c c' owner}, p.leftCell c = some (owner, c') ↔ p.rightCell c' = some (owner, c)
  leftCellLive : ∀ {c x}, p.leftCell c = some x → c.index < p.left.store.cells.size
  rightCellLive : ∀ {c x}, p.rightCell c = some x → c.index < p.right.store.cells.size
  const_eq : ∀ {c c' owner}, p.leftCell c = some (owner, c') →
    (p.right.store.cell c').const = (p.left.store.cell c).const
  values : ∀ {c c' owner}, p.leftCell c = some (owner, c') →
    p.Values (p.left.store.cell c).value (p.right.store.cell c').value
  aligned : ∀ {s s'}, p.leftRole s = some (.twin false s') → p.Aligned false s s'
  functions_eq : p.right.store.functions = p.left.store.functions
  consoles : p.Consoles p.left.rest p.right.rest

/-- The counterpart of a scope has a role as well. -/
theorem Valid.exists_rightRole {p : Pairing} (hp : p.Valid) {s s' : ScopeId} {role : Role}
    (h : p.leftRole s = some role) (hfacing : role.facing true = some s') :
    ∃ role', p.rightRole s' = some role' := by
  cases role with
  | twin inner other =>
    obtain rfl : other = s' := by simpa using hfacing
    exact ⟨_, hp.twin_iff.1 h⟩
  | pass other bs =>
    obtain rfl : other = s' := by simpa using hfacing
    obtain ⟨-, bs', hright⟩ := hp.leftPass h
    exact ⟨_, hright⟩
  | sealed => simp [Role.facing] at hfacing

/-! ### Growth -/

/-- **How a pairing grows.** Stores grow, and no scope loses its role, at least not one that is
known from outside. -/
structure Extends (inner : Bool) (p q : Pairing) : Prop where
  left : Store.Grown p.left.store q.left.store
  right : Store.Grown p.right.store q.right.store
  leftRole : ∀ {s role}, p.leftRole s = some role → (inner = true ∨ role.isOuter = true) →
    q.leftRole s = some role
  rightRole : ∀ {s role}, p.rightRole s = some role → (inner = true ∨ role.isOuter = true) →
    q.rightRole s = some role

variable {p q r : Pairing} {inner : Bool}

theorem Extends.refl (p : Pairing) : p.Extends inner p :=
  ⟨Store.Grown.refl _, Store.Grown.refl _, fun h _ => h, fun h _ => h⟩

theorem Extends.trans (h : p.Extends inner q) (h' : q.Extends inner r) : p.Extends inner r :=
  ⟨h.left.trans h'.left, h.right.trans h'.right,
    fun hrole hseen => h'.leftRole (h.leftRole hrole hseen) hseen,
    fun hrole hseen => h'.rightRole (h.rightRole hrole hseen) hseen⟩

/-- What is known inside is known from outside as well. -/
theorem Extends.outer (h : p.Extends true q) : p.Extends inner q :=
  ⟨h.left, h.right, fun hrole _ => h.leftRole hrole (.inl rfl),
    fun hrole _ => h.rightRole hrole (.inl rfl)⟩

theorem Closures.mono {f f' : Closure} (h : p.Closures f f') (hpq : p.Extends inner q) :
    q.Closures f f' :=
  { h with scope := hpq.leftRole h.scope (.inr rfl) }

/-- **Values stay alike** while the pairing grows. -/
theorem Values.mono {v v' : Value} (h : p.Values v v') (hpq : p.Extends inner q) :
    q.Values v v' := by
  cases h with
  | literal l => exact .literal l
  | native f => exact .native f
  | closure h => exact .closure (h.mono hpq)

/-- **Scopes stay aligned** while the pairing grows. -/
theorem Aligned.mono {s s' : ScopeId} (hp : p.Valid) (h : p.Aligned inner s s')
    (hpq : p.Extends inner q) : q.Aligned inner s s' := by
  -- a scope that meets another one is alive, so that neither of them moves
  have hlive : ∀ {s s' : ScopeId} {role : Role}, p.leftRole s = some role →
      role.facing inner = some s' →
      q.left.store.parent? s = p.left.store.parent? s ∧
        q.right.store.parent? s' = p.right.store.parent? s' := by
    intro s s' role hrole hfacing
    obtain ⟨role', hright⟩ := hp.exists_rightRole hrole (Role.facing_true_of_facing hfacing)
    exact ⟨hpq.left.parent_eq s (hp.leftLive hrole), hpq.right.parent_eq s' (hp.rightLive hright)⟩
  induction h with
  | root hrole hfacing hleft hright =>
    obtain ⟨hl, hr⟩ := hlive hrole hfacing
    exact .root (hpq.leftRole hrole (Role.isOuter_of_facing hfacing)) hfacing (hl.trans hleft)
      (hr.trans hright)
  | meet hrole hfacing hleft hright _ ih =>
    obtain ⟨hl, hr⟩ := hlive hrole hfacing
    exact .meet (hpq.leftRole hrole (Role.isOuter_of_facing hfacing)) hfacing (hl.trans hleft)
      (hr.trans hright) ih
  | left hrole hleft _ ih =>
    exact .left (hpq.leftRole hrole (.inr rfl))
      ((hpq.left.parent_eq _ (hp.leftLive hrole)).trans hleft) ih
  | right hrole hright _ ih =>
    exact .right (hpq.rightRole hrole (.inr rfl))
      ((hpq.right.parent_eq _ (hp.rightLive hrole)).trans hright) ih

/-- What is aligned from outside is aligned inside. -/
theorem Aligned.within {s s' : ScopeId} (h : p.Aligned false s s') : p.Aligned inner s s' := by
  induction h with
  | root hrole h hleft hright => exact .root hrole (Role.facing_of_facing_false h) hleft hright
  | meet hrole h hleft hright _ ih => exact .meet hrole (Role.facing_of_facing_false h) hleft hright ih
  | left hrole hleft _ ih => exact .left hrole hleft ih
  | right hrole hright _ ih => exact .right hrole hright ih

/-! ### Names -/

/-- **From aligned scopes a name leads to the same cell,** or to none on either side. -/
theorem Aligned.resolve {s s' : ScopeId} (hp : p.Valid) (h : p.Aligned inner s s') (name : String) :
    Option.Rel (fun c c' => ∃ owner, p.leftCell c = some (owner, c'))
      (p.left.store.resolve s name) (p.right.store.resolve s' name) := by
  -- counterparts bind the same names, so that either both know the name or neither does
  have hbound : ∀ {s s' : ScopeId} {role : Role}, p.leftRole s = some role →
      role.facing inner = some s' →
      Option.Rel (fun c c' => ∃ owner, p.leftCell c = some (owner, c'))
        ((p.left.store.bindings s).lookup name) ((p.right.store.bindings s').lookup name) := by
    intro s s' role hrole hfacing
    have hbindings := hp.bindings hrole (Role.facing_true_of_facing hfacing)
    -- the lists of bindings go in step, name by name
    revert hbindings
    generalize p.left.store.bindings s = xs
    generalize p.right.store.bindings s' = ys
    intro hbindings
    induction hbindings with
    | nil => exact .none
    | @cons x y xs ys hxy _ ih =>
      obtain ⟨name₁, c⟩ := x
      obtain ⟨name₂, c'⟩ := y
      obtain ⟨rfl, hcell⟩ := hxy
      rw [List.lookup_cons, List.lookup_cons]
      cases name == _ with
      | true => exact .some ⟨s', hcell⟩
      | false => exact ih
  induction h with
  | root hrole hfacing hleft hright =>
    rw [hp.leftOrdered.resolve_eq, hp.rightOrdered.resolve_eq, hleft, hright, Option.or_none,
      Option.or_none]
    exact hbound hrole hfacing
  | meet hrole hfacing hleft hright _ ih =>
    rw [hp.leftOrdered.resolve_eq, hp.rightOrdered.resolve_eq, hleft, hright]
    have h := hbound hrole hfacing
    revert h
    generalize List.lookup name _ = first
    generalize List.lookup name _ = second
    rintro (⟨hcell⟩ | _)
    · exact .some hcell
    · exact ih
  | left hrole hleft _ ih =>
    rw [hp.leftOrdered.resolve_eq, hp.leftSealed hrole, hleft]
    exact ih
  | right hrole hright _ ih =>
    rw [hp.rightOrdered.resolve_eq, hp.rightSealed hrole, hright]
    exact ih

end Pairing

end Lox
