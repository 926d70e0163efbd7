import Lox.Proofs.Loop.Upkeep

/-!
# Scopes of blocks, calls and passes

What becomes of a pairing when both sides enter a block, a call or a loop. Twins are opened together
and hold the same names from then on; a loop whose counterpart makes no copies keeps one scope on the
right as the counterpart of one scope after the other on the left.

* `Pairing.opened`, `Pairing.openTwins`, `Pairing.openRight` — new scopes;
* `Pairing.Valid.declareAll` — several declarations in twins;
* `Pairing.beginPass` — a scope with one variable becomes the counterpart of another;
* `Pairing.Copying` — the scopes of such a loop, `Pairing.Copying.advance` from pass to pass.
-/

namespace Lox

namespace Pairing

variable {p q : Pairing} {inner : Bool} {s s' : ScopeId}

/-! ### New scopes -/

theorem Aligned.live (hp : p.Valid) (h : p.Aligned inner s s') :
    s.index < p.left.store.scopes.size ∧ s'.index < p.right.store.scopes.size := by
  induction h with
  | root hrole hfacing | meet hrole hfacing =>
    obtain ⟨_, hright⟩ := hp.exists_rightRole hrole (Role.facing_true_of_facing hfacing)
    exact ⟨hp.leftLive hrole, hp.rightLive hright⟩
  | left hrole _ _ ih => exact ⟨hp.leftLive hrole, ih.2⟩
  | right hrole _ _ ih => exact ⟨ih.1, hp.rightLive hrole⟩

/-- A scope that does not exist yet is not known. -/
theorem Valid.leftRole_eq_none (hp : p.Valid) (h : p.left.store.scopes.size ≤ s.index) :
    p.leftRole s = none :=
  Option.eq_none_iff_forall_ne_some.2 fun _ hrole => absurd (hp.leftLive hrole) (Nat.not_lt.2 h)

theorem Valid.rightRole_eq_none (hp : p.Valid) (h : p.right.store.scopes.size ≤ s'.index) :
    p.rightRole s' = none :=
  Option.eq_none_iff_forall_ne_some.2 fun _ hrole => absurd (hp.rightLive hrole) (Nat.not_lt.2 h)

/-- **A new scope on either side,** below `s` and `s'`. -/
def opened (p : Pairing) (s s' : ScopeId) : Pairing :=
  p.change { p.left with store := (p.left.store.newScope (some s)).2 }
    { p.right with store := (p.right.store.newScope (some s')).2 }

theorem extends_opened : p.Extends inner (p.opened s s') :=
  extends_change (Store.grown_newScope ..) (Store.grown_newScope ..)

theorem Valid.opened (hp : p.Valid) (h : p.Aligned inner s s') : (p.opened s s').Valid :=
  hp.change (hp.undisturbed_left.newScope (h.live hp).1)
    (hp.undisturbed_right.newScope (h.live hp).2) hp.functions_eq hp.consoles

/-- **Twins.** New scopes in which the same names will be declared. -/
def openTwins (p : Pairing) (inner : Bool) (s s' : ScopeId) : Pairing :=
  (p.opened s s').join ⟨p.left.store.scopes.size⟩ ⟨p.right.store.scopes.size⟩
    (.twin inner ⟨p.right.store.scopes.size⟩) (.twin inner ⟨p.left.store.scopes.size⟩)

theorem leftRole_openTwins : (p.openTwins inner s s').leftRole ⟨p.left.store.scopes.size⟩ =
    some (.twin inner ⟨p.right.store.scopes.size⟩) := by
  simp [openTwins, join]

theorem extends_openTwins {within : Bool} (hp : p.Valid) :
    p.Extends within (p.openTwins inner s s') :=
  extends_opened.trans (extends_join (hp.leftRole_eq_none le_rfl) (hp.rightRole_eq_none le_rfl))

theorem aligned_openTwins (hp : p.Valid) (h : p.Aligned inner s s') :
    (p.openTwins inner s s').Aligned inner ⟨p.left.store.scopes.size⟩
      ⟨p.right.store.scopes.size⟩ := by
  refine .meet leftRole_openTwins (by cases inner <;> rfl) ?_ ?_ (h.mono hp (extends_openTwins hp))
  · exact (Store.parent?_newScope ..).trans (if_pos rfl)
  · exact (Store.parent?_newScope ..).trans (if_pos rfl)

theorem Valid.openTwins (hp : p.Valid) (h : p.Aligned inner s s') :
    (p.openTwins inner s s').Valid := by
  refine (hp.opened h).join (hp.leftRole_eq_none le_rfl) (hp.rightRole_eq_none le_rfl) ?_ ?_ ?_
    (.twins inner) ?_
  · exact (Store.scopes_size_newScope ..).symm ▸ Nat.lt_succ_self _
  · exact (Store.scopes_size_newScope ..).symm ▸ Nat.lt_succ_self _
  · change List.Forall₂ _ ((p.left.store.newScope (some s)).2.bindings _)
      ((p.right.store.newScope (some s')).2.bindings _)
    rw [Store.bindings_newScope_self, Store.bindings_newScope_self]
    exact .nil
  · intro hrole
    obtain rfl : inner = false := by simpa using hrole
    exact aligned_openTwins hp h

/-- **An empty scope on the right** below `s'`, which stays empty. -/
def openRight (p : Pairing) (s' : ScopeId) : Pairing :=
  (p.change p.left { p.right with store := (p.right.store.newScope (some s')).2 }).sealRight
    ⟨p.right.store.scopes.size⟩

theorem rightRole_openRight :
    (p.openRight s').rightRole ⟨p.right.store.scopes.size⟩ = some .sealed := by
  simp [openRight, sealRight]

theorem extends_openRight (hp : p.Valid) : p.Extends inner (p.openRight s') :=
  (extends_change (Store.Grown.refl _) (Store.grown_newScope ..)).trans
    (extends_sealRight (hp.rightRole_eq_none le_rfl))

theorem Valid.openRight (hp : p.Valid) (h : s'.index < p.right.store.scopes.size) :
    (p.openRight s').Valid := by
  have hchanged : (p.change p.left
      { p.right with store := (p.right.store.newScope (some s')).2 }).Valid :=
    hp.change hp.undisturbed_left (hp.undisturbed_right.newScope h) hp.functions_eq hp.consoles
  refine hchanged.sealRight (hp.rightRole_eq_none le_rfl) ?_ (Store.bindings_newScope_self ..)
  exact (Store.scopes_size_newScope ..).symm ▸ Nat.lt_succ_self _

/-- **Empty scopes on either side,** which stay empty. -/
def openSealed (p : Pairing) (s s' : ScopeId) : Pairing :=
  ((p.opened s s').sealLeft ⟨p.left.store.scopes.size⟩).sealRight ⟨p.right.store.scopes.size⟩

theorem extends_openSealed (hp : p.Valid) : p.Extends inner (p.openSealed s s') :=
  (extends_opened.trans (extends_sealLeft (hp.leftRole_eq_none le_rfl))).trans
    (extends_sealRight (hp.rightRole_eq_none le_rfl))

theorem leftRole_openSealed :
    (p.openSealed s s').leftRole ⟨p.left.store.scopes.size⟩ = some .sealed :=
  Function.update_self ..

theorem aligned_openSealed (hp : p.Valid) (h : p.Aligned inner s s') :
    (p.openSealed s s').Aligned inner ⟨p.left.store.scopes.size⟩ ⟨p.right.store.scopes.size⟩ := by
  refine .left leftRole_openSealed ?_ (.right (Function.update_self ..) ?_
    (h.mono hp (extends_openSealed hp)))
  · exact (Store.parent?_newScope ..).trans (if_pos rfl)
  · exact (Store.parent?_newScope ..).trans (if_pos rfl)

theorem Valid.openSealed (hp : p.Valid) (h : p.Aligned inner s s') :
    (p.openSealed s s').Valid := by
  have hopened := hp.opened h
  have hsealed := hopened.sealLeft (hp.leftRole_eq_none le_rfl)
    ((Store.scopes_size_newScope ..).symm ▸ Nat.lt_succ_self _) (Store.bindings_newScope_self ..)
  exact hsealed.sealRight (hp.rightRole_eq_none le_rfl)
    ((Store.scopes_size_newScope ..).symm ▸ Nat.lt_succ_self _) (Store.bindings_newScope_self ..)

/-- **The scopes of a loop that will declare a variable,** before it does. -/
def openPass (p : Pairing) (s s' : ScopeId) : Pairing :=
  (p.opened s s').join ⟨p.left.store.scopes.size⟩ ⟨p.right.store.scopes.size⟩
    (.pass ⟨p.right.store.scopes.size⟩ []) (.pass ⟨p.left.store.scopes.size⟩ [])

theorem extends_openPass (hp : p.Valid) : p.Extends inner (p.openPass s s') :=
  extends_opened.trans (extends_join (hp.leftRole_eq_none le_rfl) (hp.rightRole_eq_none le_rfl))

theorem leftRole_openPass : (p.openPass s s').leftRole ⟨p.left.store.scopes.size⟩ =
    some (.pass ⟨p.right.store.scopes.size⟩ []) :=
  Function.update_self ..

theorem rightRole_openPass : (p.openPass s s').rightRole ⟨p.right.store.scopes.size⟩ =
    some (.pass ⟨p.left.store.scopes.size⟩ []) :=
  Function.update_self ..

theorem Valid.openPass (hp : p.Valid) (h : p.Aligned inner s s') : (p.openPass s s').Valid := by
  have hempty := Store.bindings_newScope_self p.left.store (some s)
  have hempty' := Store.bindings_newScope_self p.right.store (some s')
  refine (hp.opened h).join (hp.leftRole_eq_none le_rfl) (hp.rightRole_eq_none le_rfl) ?_ ?_ ?_
    (.pass hempty hempty') nofun
  · exact (Store.scopes_size_newScope ..).symm ▸ Nat.lt_succ_self _
  · exact (Store.scopes_size_newScope ..).symm ▸ Nat.lt_succ_self _
  · change List.Forall₂ _ ((p.left.store.newScope (some s)).2.bindings _)
      ((p.right.store.newScope (some s')).2.bindings _)
    rw [hempty, hempty']
    exact .nil

/-! ### Declarations in twins -/

/-- What is declared on both sides: values that nobody can tell apart. -/
def Items (p : Pairing) (x y : String × Value × Bool) : Prop :=
  y.1 = x.1 ∧ p.Values x.2.1 y.2.1 ∧ y.2.2 = x.2.2

/-- **Several declarations** in a scope and its twin. -/
theorem Valid.declareAll (hp : p.Valid) (hs : p.leftRole s = some (.twin inner s'))
    {items items' : List (String × Value × Bool)} (h : List.Forall₂ p.Items items items') :
    ∃ q, p.Extends true q ∧ q.Valid ∧
      q.left = { p.left with store := p.left.store.declareAll s items } ∧
      q.right = { p.right with store := p.right.store.declareAll s' items' } := by
  -- every declaration extends the pairing, so that the others are made in a larger one
  induction items generalizing p items' with
  | nil =>
    cases h
    exact ⟨p, .refl p, hp, rfl, rfl⟩
  | cons x items ih =>
    obtain _ | ⟨hxy, hrest⟩ := h
    rename_i y items'
    obtain ⟨name, v, const⟩ := x
    obtain ⟨name', v', const'⟩ := y
    obtain ⟨rfl, hv, rfl⟩ := hxy
    have hext : p.Extends true (p.declare s s' name' v v' const') := extends_declare
    obtain ⟨q, hq, hvalid, hleft, hright⟩ := ih (hp.declare hs hv name' const')
      (hext.leftRole hs (.inl rfl))
      (hrest.imp fun _ _ hitem => ⟨hitem.1, hitem.2.1.mono hext, hitem.2.2⟩)
    exact ⟨q, hext.trans hq, hvalid, hleft, hright⟩

/-- The contents of counterparts. -/
theorem Valid.contents (hp : p.Valid) {role : Role} (hs : p.leftRole s = some role)
    (hfacing : role.facing true = some s') :
    List.Forall₂ p.Items (p.left.store.contents s) (p.right.store.contents s') := by
  have hbindings := hp.bindings hs hfacing
  unfold Store.contents
  rw [List.forall₂_map_left_iff, List.forall₂_map_right_iff]
  exact hbindings.imp fun x y hxy => ⟨hxy.1, hp.values hxy.2, hp.const_eq hxy.2⟩

/-! ### Passes of a loop that makes copies on the left only -/

theorem Undisturbed.declare {role : ScopeId → Option Role}
    {cell : CellId → Option (ScopeId × CellId)} {s t : Store} (h : Undisturbed role cell s t)
    (hcell : ∀ {c x}, cell c = some x → c.index < s.cells.size) {scope : ScopeId}
    (hscope : role scope = none) (hlive : scope.index < t.scopes.size) (name : String)
    (value : Value) (const : Bool) :
    Undisturbed role cell s (t.declare scope name value const).2 where
  ordered := h.ordered.declare scope name value const
  grown := h.grown.trans (Store.grown_declare ..)
  bindings {other r} hrole := by
    have hne : other ≠ scope := by
      rintro rfl
      rw [hscope] at hrole
      contradiction
    rw [Store.bindings_declare _ _ _ _ _ _ hlive, if_neg hne, h.bindings hrole]
  contents {c x} hc := by
    have hlt := Nat.lt_of_lt_of_le (hcell hc) h.grown.cells_le
    rw [Store.cell_declare, if_neg (Nat.ne_of_lt hlt), h.contents hc]

/-- **A pass begins.** Two scopes with one variable each become counterparts. -/
def beginPass (p : Pairing) (s s' : ScopeId) (name : String) (c c' : CellId) : Pairing :=
  (p.joinCells s' c c').join s s' (.pass s' [(name, c)]) (.pass s [(name, c')])

theorem extends_beginPass {name : String} {c c' : CellId} (hs : p.leftRole s = none)
    (hs' : p.rightRole s' = none) : p.Extends inner (p.beginPass s s' name c c') :=
  extends_joinCells.trans (extends_join hs hs')

theorem Valid.beginPass (hp : p.Valid) {name : String} {c c' : CellId} (hs : p.leftRole s = none)
    (hs' : p.rightRole s' = none) (hlive : s.index < p.left.store.scopes.size)
    (hlive' : s'.index < p.right.store.scopes.size) (hbindings : p.left.store.bindings s = [(name, c)])
    (hbindings' : p.right.store.bindings s' = [(name, c')]) (hc : p.leftCell c = none)
    (hc' : p.rightCell c' = none) (hcell : c.index < p.left.store.cells.size)
    (hcell' : c'.index < p.right.store.cells.size)
    (hconst : (p.right.store.cell c').const = (p.left.store.cell c).const)
    (hvalue : p.Values (p.left.store.cell c).value (p.right.store.cell c').value) :
    (p.beginPass s s' name c c').Valid := by
  have hjoined : (p.joinCells s' c c').Valid := hp.joinCells hc hc' hcell hcell' hconst hvalue
  refine hjoined.join hs hs' hlive hlive' ?_ (.pass hbindings hbindings') nofun
  change List.Forall₂ _ (p.left.store.bindings s) (p.right.store.bindings s')
  rw [hbindings, hbindings']
  exact .cons ⟨rfl, by simp [Pairing.joinCells]⟩ .nil

/-- **A loop that makes copies on the left only.** The pass on the left has the scope `t` below `s`,
and all passes on the right share `t'` below `s'`. -/
structure Copying (p : Pairing) (s s' t t' : ScopeId) : Prop where
  leftParent : p.left.store.parent? t = some s
  rightParent : p.right.store.parent? t' = some s'
  pass : ∃ name c c', p.leftRole t = some (.pass t' [(name, c)]) ∧
    p.rightRole t' = some (.pass t [(name, c')])

variable {t t' : ScopeId}

theorem Aligned.inside (h : p.Aligned inner s s') : p.Aligned true s s' := by
  cases inner with
  | true => exact h
  | false => exact h.within

theorem Copying.aligned (h : p.Copying s s' t t') (henclosing : p.Aligned inner s s') :
    p.Aligned true t t' := by
  obtain ⟨name, c, c', hrole, -⟩ := h.pass
  exact .meet hrole rfl h.leftParent h.rightParent henclosing.inside

theorem Copying.mono (hp : p.Valid) (h : p.Copying s s' t t') (hpq : p.Extends true q) :
    q.Copying s s' t t' := by
  obtain ⟨name, c, c', hrole, hrole'⟩ := h.pass
  refine ⟨?_, ?_, name, c, c', hpq.leftRole hrole (.inl rfl), hpq.rightRole hrole' (.inl rfl)⟩
  · rw [hpq.left.parent_eq t (hp.leftLive hrole), h.leftParent]
  · rw [hpq.right.parent_eq t' (hp.rightLive hrole'), h.rightParent]

/-- **The loop declares its variable,** in the scope of the first pass and in its counterpart. -/
theorem Valid.startCopying (hq : q.Valid) (hrole : q.leftRole t = some (.pass t' []))
    (hrole' : q.rightRole t' = some (.pass t [])) (hparent : q.left.store.parent? t = some s)
    (hparent' : q.right.store.parent? t' = some s') {v v' : Value} (hv : q.Values v v')
    (name : String) (const : Bool) :
    ∃ q', q'.Valid ∧ q'.Copying s s' t t' ∧
      q'.left = { q.left with store := (q.left.store.declare t name v const).2 } ∧
      q'.right = { q.right with store := (q.right.store.declare t' name v' const).2 } ∧
      ∀ p : Pairing, p.Extends true q → p.leftRole t = none → p.rightRole t' = none →
        p.Extends true q' := by
  let parted := q.part t t'
  have hparted : parted.Valid := hq.part hrole hrole'
  -- without roles the scopes can be declared in as any others, and get their roles back afterwards
  have hnone : parted.leftRole t = none := Function.update_self ..
  have hnone' : parted.rightRole t' = none := Function.update_self ..
  -- both stores grow by one declaration where nothing is known of them
  have hlive := hq.leftLive hrole
  have hlive' := hq.rightLive hrole'
  let m : Session := { q.left with store := (q.left.store.declare t name v const).2 }
  let m' : Session := { q.right with store := (q.right.store.declare t' name v' const).2 }
  have hchanged : (parted.change m m').Valid :=
    hparted.change
      (hparted.undisturbed_left.declare hparted.leftCellLive hnone hlive name v const)
      (hparted.undisturbed_right.declare hparted.rightCellLive hnone' hlive' name v' const)
      hparted.functions_eq hparted.consoles
  let c : CellId := ⟨q.left.store.cells.size⟩
  let c' : CellId := ⟨q.right.store.cells.size⟩
  have hext : ∀ {inner}, parted.Extends inner (parted.change m m') :=
    extends_change (Store.grown_declare ..) (Store.grown_declare ..)
  -- then the pass begins: one variable on each side, in cells that nobody had
  have hbegun : ((parted.change m m').beginPass t t' name c c').Valid := by
    refine hchanged.beginPass hnone hnone' ?_ ?_ ?_ ?_ ?_ ?_ ?_ ?_ ?_ ?_
    · exact (Store.scopes_size_declare ..).symm ▸ hlive
    · exact (Store.scopes_size_declare ..).symm ▸ hlive'
    · refine (Store.bindings_declare _ _ _ _ _ _ hlive).trans ?_
      rw [if_pos rfl, (hq.leftPass hrole).1]
      rfl
    · refine (Store.bindings_declare _ _ _ _ _ _ hlive').trans ?_
      rw [if_pos rfl, (hq.rightPass hrole').1]
      rfl
    · exact hparted.leftCell_next
    · exact hparted.rightCell_next
    · exact (Store.cells_size_declare ..).symm ▸ Nat.lt_succ_self _
    · exact (Store.cells_size_declare ..).symm ▸ Nat.lt_succ_self _
    · change ((q.right.store.declare t' name v' const).2.cell c').const =
        ((q.left.store.declare t name v const).2.cell c).const
      rw [Store.cell_declare, Store.cell_declare, if_pos rfl, if_pos rfl]
    · change Values _ ((q.left.store.declare t name v const).2.cell c).value
        ((q.right.store.declare t' name v' const).2.cell c').value
      rw [Store.cell_declare, Store.cell_declare, if_pos rfl, if_pos rfl]
      exact hv.mono ((extends_part hrole hrole').trans hext)
  refine ⟨_, hbegun, ⟨?_, ?_, name, c, c', ?_, ?_⟩, rfl, rfl, ?_⟩
  · exact (Store.parent?_declare ..).trans hparent
  · exact (Store.parent?_declare ..).trans hparent'
  · exact Function.update_self ..
  · exact Function.update_self ..
  · intro p hpq hp hp'
    exact ((hpq.part hp hp').trans hext).trans (extends_beginPass hnone hnone')

/-- **From one pass to the next.** The copy on the left becomes the counterpart of the scope on the
right, in whose place its predecessor was. Nothing but the loop itself misses the predecessor. -/
theorem Copying.advance (hq : q.Valid) (h : q.Copying s s' t t')
    (hs : s.index < q.left.store.scopes.size) :
    ∃ q' t₁, q'.Valid ∧ q'.Copying s s' t₁ t' ∧ q.Extends false q' ∧
      t₁ = (q.left.store.nextIteration s t).1 ∧
      q'.left = { q.left with store := (q.left.store.nextIteration s t).2 } ∧
      q'.right = q.right ∧
      ∀ p : Pairing, p.Extends true q → p.leftRole t = none → p.rightRole t' = none →
        p.Extends true q' := by
  obtain ⟨name, c, c', hrole, hrole'⟩ := h.pass
  let parted := q.part t t'
  have hparted : parted.Valid := hq.part hrole hrole'
  have hnone' : parted.rightRole t' = none := Function.update_self ..
  have hbindings : q.left.store.bindings t = [(name, c)] := (hq.leftPass hrole).1
  have hbindings' : q.right.store.bindings t' = [(name, c')] := (hq.rightPass hrole').1
  -- the variable of this pass corresponds to the one on the right
  have hcell : q.leftCell c = some (t', c') := by
    have hbinds := hq.bindings hrole rfl
    rw [hbindings, hbindings', List.forall₂_cons] at hbinds
    exact hbinds.1.2
  -- the copy has one variable as well, with the contents that it has had so far
  let t₁ : ScopeId := ⟨q.left.store.scopes.size⟩
  let c₁ : CellId := ⟨q.left.store.cells.size⟩
  let created := (q.left.store.newScope (some s)).2
  let contents := q.left.store.cell c
  have hnext : q.left.store.nextIteration s t =
      (t₁, (created.declare t₁ name contents.value contents.const).2) := by
    simp only [Store.nextIteration, Store.contents, hbindings]
    rfl
  rw [hnext]
  let m : Session :=
    { q.left with store := (created.declare t₁ name contents.value contents.const).2 }
  have hlive₁ : t₁.index < created.scopes.size :=
    (Store.scopes_size_newScope ..).symm ▸ Nat.lt_succ_self _
  have hnew : m.store.cell c₁ = contents := (Store.cell_declare ..).trans (if_pos rfl)
  have hnone : parted.leftRole t₁ = none := hparted.leftRole_eq_none le_rfl
  have hleft : Undisturbed parted.leftRole parted.leftCell q.left.store m.store :=
    (hparted.undisturbed_left.newScope hs).declare hparted.leftCellLive hnone hlive₁ _ _ _
  -- first the store grows where nothing is known of it, then the new scope takes its role
  have hchanged : (parted.change m q.right).Valid :=
    hparted.change hleft hparted.undisturbed_right hparted.functions_eq hparted.consoles
  have hext : ∀ {inner}, parted.Extends inner (parted.change m q.right) :=
    extends_change hleft.grown (Store.Grown.refl _)
  have hbegun : ((parted.change m q.right).beginPass t₁ t' name c₁ c').Valid := by
    refine hchanged.beginPass hnone hnone' ?_ (hq.rightLive hrole') ?_ hbindings' ?_ ?_ ?_
      (hq.rightCellLive (hq.cell_iff.1 hcell)) ?_ ?_
    · exact (Store.scopes_size_declare ..).symm ▸ hlive₁
    · refine (Store.bindings_declare _ _ _ _ _ _ hlive₁).trans ?_
      rw [if_pos rfl, Store.bindings_newScope_self]
      rfl
    · exact hparted.leftCell_next
    · change (q.rightCell c').filter _ = none
      rw [hq.cell_iff.1 hcell]
      simp
    · exact (Store.cells_size_declare ..).symm ▸ Nat.lt_succ_self _
    · change (q.right.store.cell c').const = (m.store.cell c₁).const
      rw [hnew]
      exact hq.const_eq hcell
    · change Values _ (m.store.cell c₁).value (q.right.store.cell c').value
      rw [hnew]
      exact (hq.values hcell).mono ((extends_part hrole hrole').trans hext)
  have hextends : ∀ {inner}, parted.Extends inner
      ((parted.change m q.right).beginPass t₁ t' name c₁ c') :=
    hext.trans (extends_beginPass hnone hnone')
  -- the shared scope is the counterpart of the copy now
  refine ⟨_, t₁, hbegun, ⟨?_, h.rightParent, name, c₁, c', ?_, ?_⟩,
    (extends_part hrole hrole').trans hextends, rfl, rfl, rfl, ?_⟩
  · exact (Store.parent?_declare ..).trans ((Store.parent?_newScope ..).trans (if_pos rfl))
  · exact Function.update_self ..
  · exact Function.update_self ..
  · intro p hext hp hp'
    exact (hext.part hp hp').trans hextends

end Pairing

end Lox
