import Lox.Proofs.Loop.Moments
import Lox.Proofs.Store.Operation

/-!
# Every pass has its own variables

If the clauses of a loop act on the store through operations only, in whatever scopes, then the scopes
of its passes are siblings below the scope around the loop, and no cell is bound in two of them. The
scope of a pass begins as a copy of what the pass before has left, in cells of its own; from then on
neither the loop nor any clause is led back to the scope of the earlier pass.

* `Store.Copies`, `Store.copies_nextIteration` — the copy of a scope;
* `ForLoop.Acts` — clauses that act through operations;
* `Moment.Leads.before` — what one moment tells about the next, `Moment.pairwise_before` about all
  later ones;
* `ForLoop.PerPass`, `ForLoop.Ends.perPass` — what is known of all passes of a run.
-/

namespace Lox

variable {ω ε : Type}

/-! ### Copies -/

/-- **The copy of a scope** below another one. -/
structure Store.Copies (enclosing scope : ScopeId) (s : Store) (following : ScopeId) (s' : Store) :
    Prop where
  /-- The copy is a new scope, -/
  scope_le : s.scopes.size ≤ following.index
  /-- a child of the other one. -/
  parent?_eq : s'.parent? following = some enclosing
  /-- It has the same names in the same order, with the same values and constants, -/
  contents_eq : s'.contents following = s.contents scope
  /-- in cells that are all new. -/
  cells_le : ∀ b ∈ s'.bindings following, s.cells.size ≤ b.2.index
  /-- No cell that was there is written, -/
  cell_eq : ∀ c : CellId, c.index < s.cells.size → s'.cell c = s.cell c
  /-- and no other scope is changed. -/
  bindings_eq : ∀ t, t ≠ following → s'.bindings t = s.bindings t

/-- The following pass gets a scope that is opened with what is copied. -/
theorem Store.nextIteration_eq (s : Store) (enclosing scope : ScopeId) :
    s.nextIteration enclosing scope =
      (⟨s.scopes.size⟩, s.perform (.opened enclosing (s.contents scope))) := rfl

theorem Store.copies_nextIteration {s s' : Store} {enclosing scope following : ScopeId}
    (hcopy : s.nextIteration enclosing scope = (following, s'))
    (hnames : ((s.bindings scope).map Prod.fst).Nodup) :
    s.Copies enclosing scope following s' := by
  rw [nextIteration_eq] at hcopy
  obtain ⟨rfl, rfl⟩ := Prod.mk.inj hcopy
  have hgrown := grown_declareAll (s.newScope (some enclosing)).2 ⟨s.scopes.size⟩ (s.contents scope)
  constructor
  case scope_le => exact Nat.le_refl _
  case parent?_eq =>
    refine (hgrown.parent_eq _ (by simp)).trans ?_
    rw [parent?_newScope, if_pos rfl]
  case contents_eq =>
    refine contents_openScope s enclosing ?_
    rwa [names_contents]
  case cells_le => exact fun b hb => cells_openScope s enclosing _ hb
  case cell_eq => exact fun c hc => cell_declareAll_of_lt (s.newScope (some enclosing)).2 hc _ _
  case bindings_eq =>
    exact fun t ht => (bindings_declareAll_of_ne _ ht _).trans (bindings_newScope s _ t)

/-- Outwards from an old scope there are only old scopes, in however large a store. -/
theorem Store.Grown.index_lt_of_mem_ancestors {s s' : Store} (hgrown : s.Grown s')
    (hs : s.Ordered) {length : Nat} {scope t : ScopeId} (hscope : scope.index < s.scopes.size)
    (ht : t ∈ s'.ancestors length scope) : t.index < s.scopes.size := by
  induction length generalizing scope with
  | zero => contradiction
  | succ length ih =>
    rw [ancestors, hgrown.parent_eq scope hscope] at ht
    obtain rfl | ht := List.mem_cons.1 ht
    · exact hscope
    · cases hparent : s.parent? scope with
      | none => simp [hparent] at ht
      | some p =>
        rw [hparent] at ht
        exact ih (Nat.lt_trans (hs scope p hparent) hscope) ht

/-! ### Clauses that act through operations -/

/-- **Clauses that act on the store through operations only,** on any scopes, as long as the machine
is ready for a pass; and they keep it ready. -/
structure ForLoop.Acts (loop : ForLoop ω ε) (enclosing : ScopeId)
    (ready : ScopeId → Machine ω → Prop) : Prop where
  effect : ∀ clause scope m, ready scope m → ready scope (loop.effect clause scope m) ∧
    ∃ ops, (loop.effect clause scope m).store = m.store.replay ops
  copied : ∀ scope m following s rest, ready scope m →
    m.store.nextIteration enclosing scope = (following, s) →
    loop.copied following ⟨s, m.rest⟩ = .ok () ⟨s, rest⟩ → ready following ⟨s, rest⟩

/-! ### From moment to moment -/

/-- The place of a clause in its pass. -/
def Clause.rank : Clause → Nat
  | start | update => 0
  | condition => 1
  | body => 2

theorem Clause.rank_lt_of_next? {clause next : Clause} (h : clause.next? = some next) :
    clause.rank < next.rank := by
  cases clause <;> cases h <;> decide

namespace Moment

/-- The store at a moment. -/
def store (a : Moment ω) : Store := a.machine.store

/-- The place of a moment in its pass. -/
def rank (a : Moment ω) : Nat := 2 * a.clause.rank + a.ended.toNat

/-- The scope that a body is given, when it begins. -/
def body? : Moment ω → Option ScopeId
  | ⟨.body, false, scope, _⟩ => some scope
  | _ => none

theorem eq_of_body? {a : Moment ω} {scope : ScopeId} (h : a.body? = some scope) :
    a.scope = scope ∧ a.rank = 4 := by
  unfold body? at h
  split at h
  · exact ⟨Option.some.inj h, rfl⟩
  · contradiction

/-- **What is known at a moment.** Its scope has been opened in the loop, below the scope around it,
and all scopes from there on are tidy. -/
structure Sound (ready : ScopeId → Machine ω → Prop) (enclosing : ScopeId) (base : Store)
    (a : Moment ω) : Prop where
  ready : ready a.scope a.machine
  grown : base.Grown a.store
  scope_le : base.scopes.size ≤ a.scope.index
  scope_lt : a.scope.index < a.store.scopes.size
  parent?_eq : a.store.parent? a.scope = some enclosing
  tidy : a.store.Tidy base.scopes.size

/-- **Earlier moments.** Only operations lie between, and a later moment is in the scope of a later
pass, or farther on in the same pass. -/
structure Before (a b : Moment ω) : Prop where
  later : ∃ ops, b.store = a.store.replay ops
  order : a.scope.index < b.scope.index ∨ a.scope = b.scope ∧ a.rank < b.rank

theorem Before.trans {a b c : Moment ω} (h : a.Before b) (h' : b.Before c) : a.Before c := by
  obtain ⟨⟨ops, hops⟩, horder⟩ := h
  obtain ⟨⟨ops', hops'⟩, horder'⟩ := h'
  refine ⟨⟨ops ++ ops', by rw [hops', hops, Store.replay_append]⟩, ?_⟩
  obtain hlt | ⟨heq, hrank⟩ := horder <;> obtain hlt' | ⟨heq', hrank'⟩ := horder'
  · exact .inl (Nat.lt_trans hlt hlt')
  · exact .inl (heq' ▸ hlt)
  · exact .inl (heq ▸ hlt')
  · exact .inr ⟨heq.trans heq', Nat.lt_trans hrank hrank'⟩

/-- No moment of a pass comes behind its end. -/
theorem rank_le (a : Moment ω) : a.rank ≤ 5 := by
  unfold rank
  cases a.clause <;> cases a.ended <;> decide

theorem Before.scope_ne {a b : Moment ω} (h : a.Before b) (hover : a.IsOver) :
    b.scope ≠ a.scope := by
  have hrank : a.rank = 5 := by
    unfold rank
    rw [hover.1, hover.2]
    rfl
  intro heq
  obtain hlt | ⟨-, hlt⟩ := h.order
  · exact absurd hlt (heq ▸ Nat.lt_irrefl _)
  · exact absurd hlt (hrank ▸ Nat.not_lt.2 b.rank_le)

variable {loop : ForLoop ω ε} {enclosing : ScopeId} {ready : ScopeId → Machine ω → Prop}
  {base : Store} {a b : Moment ω}

/-- **From one moment to the next.** -/
theorem Leads.before (hacts : loop.Acts enclosing ready) (h : Leads loop enclosing a b)
    (ha : a.Sound ready enclosing base) : b.Sound ready enclosing base ∧ a.Before b := by
  cases h with
  | ran clause scope m =>
    obtain ⟨hready, ops, hops⟩ := hacts.effect clause scope m ha.ready
    -- a clause may do anything to the store but take something away from it
    have hgrown : m.store.Grown (loop.effect clause scope m).store :=
      hops ▸ Store.grown_replay m.store ops
    have htidy : (m.store.replay ops).Tidy base.scopes.size := ha.tidy.replay ops
    refine ⟨⟨hready, ha.grown.trans hgrown, ha.scope_le,
      Nat.lt_of_lt_of_le ha.scope_lt hgrown.scopes_le, ?_, ?_⟩, ⟨ops, hops⟩,
      .inr ⟨rfl, Nat.lt_succ_self _⟩⟩
    · exact (hgrown.parent_eq scope ha.scope_lt).trans ha.parent?_eq
    · rwa [← hops] at htidy
  | @turned clause next hnext scope m =>
    refine ⟨⟨ha.ready, ha.grown, ha.scope_le, ha.scope_lt, ha.parent?_eq, ha.tidy⟩, ⟨[], rfl⟩,
      .inr ⟨rfl, ?_⟩⟩
    have hlt := Clause.rank_lt_of_next? hnext
    change 2 * clause.rank + 1 < 2 * next.rank + 0
    omega
  | @copied scope following m s rest hcopy hreport =>
    -- the scope of the next pass is newer than all that there were
    have hcopies := Store.copies_nextIteration hcopy (ha.tidy.names_nodup scope ha.scope_le)
    obtain ⟨rfl, rfl⟩ := Prod.mk.inj ((m.store.nextIteration_eq enclosing scope).symm.trans hcopy)
    let op : Store.Operation := .opened enclosing (m.store.contents scope)
    have hgrown : m.store.Grown (m.store.perform op) := Store.grown_perform m.store op
    have htidy : (m.store.perform op).Tidy base.scopes.size := Store.Tidy.perform ha.tidy op
    refine ⟨⟨hacts.copied scope m _ _ rest ha.ready hcopy hreport, ha.grown.trans hgrown,
      Nat.le_trans ha.grown.scopes_le hcopies.scope_le, ?_, hcopies.parent?_eq, htidy⟩,
      ⟨[op], rfl⟩, .inl ha.scope_lt⟩
    change m.store.scopes.size < (m.store.openScope enclosing (m.store.contents scope)).scopes.size
    rw [Store.openScope, Store.scopes_size_declareAll, Store.scopes_size_newScope]
    exact Nat.lt_succ_self _

/-- **The loop itself writes no cell.** Between the end of a clause and the beginning of the next one
every cell that is there keeps what it holds. -/
theorem Leads.cell_eq (h : Leads loop enclosing a b) (hbegins : b.ended = false) {c : CellId}
    (hc : c.index < a.store.cells.size) : b.store.cell c = a.store.cell c := by
  cases h with
  | ran clause scope m => contradiction
  | turned hnext scope m => rfl
  | @copied scope following m s rest hcopy hreport =>
    obtain ⟨-, rfl⟩ := Prod.mk.inj ((m.store.nextIteration_eq enclosing scope).symm.trans hcopy)
    exact Store.cell_declareAll_of_lt (m.store.newScope (some enclosing)).2 hc _ _

/-- **Behind a body** the next clause begins in a copy. -/
theorem Leads.copies (h : Leads loop enclosing a b) (hover : a.IsOver)
    (hnames : ((a.store.bindings a.scope).map Prod.fst).Nodup) :
    a.store.Copies enclosing a.scope b.scope b.store := by
  cases h with
  | ran clause scope m => exact nomatch hover.2
  | turned hnext scope m =>
    obtain rfl : _ = Clause.body := hover.1
    contradiction
  | @copied scope following m s rest hcopy hreport =>
    exact Store.copies_nextIteration hcopy hnames

/-- **What the order of moments amounts to.** What is known at the first moment is known at all, and
each is before all later ones. -/
theorem pairwise_before (hacts : loop.Acts enclosing ready) {moments : List (Moment ω)}
    (hturns : moments.IsChain (Leads loop enclosing))
    (hhead : ∀ a ∈ moments.head?, a.Sound ready enclosing base) :
    (∀ a ∈ moments, a.Sound ready enclosing base) ∧ moments.Pairwise Before := by
  induction moments with
  | nil => exact ⟨nofun, .nil⟩
  | cons a moments ih =>
    obtain ⟨hnext, hturns⟩ := List.isChain_cons.1 hturns
    have ha := hhead a rfl
    obtain ⟨hsound, hpairwise⟩ := ih hturns fun b hb => ((hnext b hb).before hacts ha).1
    refine ⟨List.forall_mem_cons.2 ⟨ha, hsound⟩, List.pairwise_cons.2 ⟨fun b hb => ?_, hpairwise⟩⟩
    cases moments with
    | nil => contradiction
    | cons c moments =>
      have hac := ((hnext c rfl).before hacts ha).2
      obtain rfl | hb := List.mem_cons.1 hb
      · exact hac
      · exact hac.trans ((List.pairwise_cons.1 hpairwise).1 b hb)

end Moment

/-! ### Whole runs -/

namespace ForLoop

/-- **Every pass has its own variables.** What is known of the moments of a run from `m` on, and of the
machine `w` with which it ends. -/
structure PerPass (loop : ForLoop ω ε) (enclosing : ScopeId) (m : Machine ω)
    (w : Machine (Watcher ω)) : Prop where
  /-- The first clause begins in a new scope below the one around the loop; -/
  begins : w.moments.head? = some (beginning enclosing m)
  /-- the clauses take turns, and hand on the machine as it is, apart from the copies; -/
  turns : w.moments.IsChain (Moment.Leads loop enclosing)
  /-- and a run ends with what its last clause leaves behind, and not between two passes. -/
  ends : ∃ a, w.moments.getLast? = some a ∧ ¬ a.IsOver ∧ w.unwatched = loop.behind a
  /-- So the loop itself writes no cell: not before the first clause, not between two clauses, and
  not behind the last one. -/
  unwritten : (∀ a ∈ w.moments.head?, ∀ c, c.index < m.store.cells.size →
      a.store.cell c = m.store.cell c) ∧
    (∀ before a b after, w.moments = before ++ a :: b :: after → b.ended = false →
      ∀ c, c.index < a.store.cells.size → b.store.cell c = a.store.cell c) ∧
    ∀ a ∈ w.moments.getLast?, ∀ c, w.store.cell c = (loop.behind a).store.cell c
  /-- The bodies are given different scopes, -/
  bodies_nodup : (w.moments.filterMap Moment.body?).Nodup
  /-- all of them below the scope around the loop, whatever is done to the store. -/
  parent?_eq : ∀ a ∈ w.moments, ∀ ops,
    (a.store.replay ops).parent? a.scope = some enclosing
  /-- No cell is bound in the scopes of two passes, whatever is done to the store. -/
  apart : ∀ a ∈ w.moments, ∀ b ∈ w.moments, a.scope ≠ b.scope → ∀ c ∈ w.moments, ∀ ops,
    ∀ x ∈ (c.store.replay ops).bindings a.scope, ∀ y ∈ (c.store.replay ops).bindings b.scope,
      x.2 ≠ y.2
  /-- When a body has ended, the next clause begins in a copy of its scope. -/
  copies : ∀ before a b after, w.moments = before ++ a :: b :: after → a.IsOver →
    a.store.Copies enclosing a.scope b.scope b.store
  /-- No clause is given that scope again, -/
  scope_ne : w.moments.Pairwise fun a b => a.IsOver → b.scope ≠ a.scope
  /-- nor one from which it can be reached, if parents were older than their children before. -/
  notMem_chain : m.store.Ordered → enclosing.index < m.store.scopes.size →
    w.moments.Pairwise fun a b => a.IsOver → ∀ ops,
      a.scope ∉ (b.store.replay ops).chain b.scope

variable {loop : ForLoop ω ε} {enclosing : ScopeId} {ready : ScopeId → Machine ω → Prop}
  {m : Machine ω} {w : Machine (Watcher ω)}

/-- The first scope is ready to be watched. -/
theorem sound_beginning
    (hready : ready (beginning enclosing m).scope (beginning enclosing m).machine) :
    (beginning enclosing m).Sound ready enclosing m.store where
  ready := hready
  grown := Store.grown_newScope m.store (some enclosing)
  scope_le := Nat.le_refl _
  scope_lt := by
    change m.store.scopes.size < (m.store.newScope (some enclosing)).2.scopes.size
    rw [Store.scopes_size_newScope]
    exact Nat.lt_succ_self _
  parent?_eq := by
    change (m.store.newScope (some enclosing)).2.parent? ⟨m.store.scopes.size⟩ = some enclosing
    rw [Store.parent?_newScope, if_pos rfl]
  tidy := (Store.tidy_of_size_le (Nat.le_refl _)).newScope _

/-- The bodies of different moments are in different passes. -/
theorem bodies_nodup_of_pairwise {moments : List (Moment ω)} (h : moments.Pairwise Moment.Before) :
    (moments.filterMap Moment.body?).Nodup := by
  refine List.pairwise_filterMap.2 (h.imp fun {a b} hab scope hscope scope' hscope' heq => ?_)
  obtain ⟨rfl, hrank⟩ := Moment.eq_of_body? hscope
  obtain ⟨rfl, hrank'⟩ := Moment.eq_of_body? hscope'
  -- a pass has one body only
  obtain hlt | ⟨-, hlt⟩ := hab.order
  · exact absurd hlt (heq ▸ Nat.lt_irrefl _)
  · exact absurd hlt (by rw [hrank, hrank']; exact Nat.lt_irrefl _)

/-- **Every pass of a run has its own variables.** -/
theorem Ends.perPass (hacts : loop.Acts enclosing ready)
    (hready : ready (beginning enclosing m).scope (beginning enclosing m).machine)
    (h : Ends loop enclosing m w) : PerPass loop enclosing m w := by
  have hhead : ∀ a ∈ w.moments.head?, a.Sound ready enclosing m.store := by
    rw [h.trail.head]
    rintro a ⟨⟩
    exact sound_beginning hready
  obtain ⟨hsound, hpairwise⟩ := Moment.pairwise_before hacts h.trail.turns hhead
  constructor
  case begins => exact h.trail.head
  case turns => exact h.trail.turns
  case ends => exact h.last
  case unwritten =>
    refine ⟨?_, ?_, ?_⟩
    · -- a new scope has no cells
      rw [h.trail.head]
      rintro a ⟨⟩ c -
      rfl
    · intro before a b after hmoments hbegins c hc
      have hturns := h.trail.turns
      rw [hmoments, List.isChain_append_cons_cons] at hturns
      exact hturns.2.1.cell_eq hbegins hc
    · intro a ha c
      obtain ⟨last, hlast, -, hend⟩ := h.last
      obtain rfl := Option.some.inj (hlast.symm.trans ha)
      exact congrArg (fun m => m.store.cell c) hend
  case bodies_nodup => exact bodies_nodup_of_pairwise hpairwise
  case parent?_eq =>
    intro a ha ops
    have ha := hsound a ha
    exact ((Store.grown_replay a.store ops).parent_eq a.scope ha.scope_lt).trans ha.parent?_eq
  case apart =>
    intro a ha b hb hne c hc ops x hx y hy heq
    have htidy := (hsound c hc).tidy.replay ops
    -- a cell that both scopes bound would have two owners
    exact hne (htidy.owner a.scope b.scope (hsound a ha).scope_le (hsound b hb).scope_le x hx y hy
      heq).1
  case copies =>
    intro before a b after hmoments hover
    have ha := hsound a (by simp [hmoments])
    have hturns := h.trail.turns
    rw [hmoments, List.isChain_append_cons_cons] at hturns
    exact hturns.2.1.copies hover (ha.tidy.names_nodup a.scope ha.scope_le)
  case scope_ne => exact hpairwise.imp fun hab hover => hab.scope_ne hover
  case notMem_chain =>
    intro hordered henclosing
    refine hpairwise.imp_of_mem fun {a b} ha hb hab hover ops hmem => ?_
    have ha := hsound a ha
    have hb := hsound b hb
    have hgrown := Store.grown_replay b.store ops
    have hparent := (hgrown.parent_eq b.scope hb.scope_lt).trans hb.parent?_eq
    rw [Store.chain, Store.ancestors, hparent] at hmem
    obtain heq | hmem := List.mem_cons.1 hmem
    · exact hab.scope_ne hover heq.symm
    · -- outside the loop there are only scopes from before it
      have hlt := (hb.grown.trans hgrown).index_lt_of_mem_ancestors hordered henclosing hmem
      exact absurd ha.scope_le (Nat.not_le.2 hlt)

end ForLoop

end Lox
