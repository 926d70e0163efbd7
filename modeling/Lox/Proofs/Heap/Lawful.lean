import Lox.Proofs.Grammar.Parts
import Lox.Proofs.Heap.Journal
import Lox.Proofs.Outcome
import Lox.Proofs.SmallSteps
import Lox.Proofs.Store.Integrity
import Mathlib.Tactic.Set

/-!
# Runs perform lawful operations

Whatever a tree does to the store is a lawful history of operations, in all ways in which its run can
end: a result, a return on its way out, an error, a loop that is given up. As lawful histories keep
the integrity of a store, so do runs. Beyond that a run declares names only in scopes that it has
opened itself, and in the scope in which it takes place if its statement is a declaration there.

* `Terms`, `Journal.Sound`, `Journal.Later` — what a run keeps, and what it may add;
* `Journal.Runs` — runs that keep it, `Journal.runs_bind` their composition;
* `Journal.runs_evaluateStep`, `Journal.runs_executeStep` — one step of the evaluator;
* `Journal.lawful_evaluator` — the evaluator of a host.
-/

namespace Lox

/-! ### Interrupts -/

/-- **Causes that no node which can be run leads to.** The clock reports nothing. -/
def Cause.isInternal : Cause → Bool
  | .unknownUnaryOperator | .invalidBinaryOperator _ | .report .. => true
  | _ => false

/-- **Interrupts in order.** A return carries a value in order, and a node that cannot be run is the
only reason for failures that tell of one. -/
def Interrupt.InOrder (fits : Node → Prop) (s : Store) : Interrupt → Prop
  | .returning value => s.Accepts fits value
  | .failed e => (∀ node, fits node → node.IsRunnable) → e.cause.isInternal = false
  | .misplaced _ => ¬ ∀ node, fits node → node.IsRunnable
  | .unfinished => True

theorem Interrupt.InOrder.grown {fits : Node → Prop} {s s' : Store} {e : Interrupt}
    (he : e.InOrder fits s) (h : s.Grown s') : e.InOrder fits s' := by
  cases e with
  | returning value => exact Store.Accepts.grown he h
  | failed error => exact he
  | misplaced node => exact he
  | unfinished => trivial

/-- **The terms of a run.** The store with which its journal begins, which has integrity; the nodes
that fit, with all their parts; and the scopes in which names may be declared. -/
structure Terms where
  base : Store
  globals : ScopeId
  fits : Node → Prop
  opens : ScopeId → Prop
  inherited : ∀ node i part, fits node → node.part i = some part → fits part
  integral : base.Integral fits globals

namespace Journal

variable {T : Terms} {m m' m'' : Journal}

/-! ### The invariant -/

/-- **The invariant.** The journal tells how the store came about, and nothing in it is unlawful. -/
structure Sound (T : Terms) (m : Journal) : Prop where
  store_eq : m.store = T.base.replay m.operations
  lawful : Store.Lawful T.fits T.base m.operations
  globals_eq : m.rest.console.globals = T.globals

theorem Sound.integral (hm : Sound T m) : m.store.Integral T.fits T.globals :=
  hm.store_eq ▸ T.integral.replay hm.lawful

/-- **Later moments.** The journal goes on with operations that declare where names may be
declared. -/
def Later (T : Terms) (m m' : Journal) : Prop :=
  ∃ new, m'.operations = m.operations ++ new ∧ m'.store = m.store.replay new ∧
    ∀ op ∈ new, op.DeclaresIn T.opens

theorem Later.refl (m : Journal) : Later T m m := ⟨[], by simp, rfl, by simp⟩

theorem Later.trans (h : Later T m m') (h' : Later T m' m'') : Later T m m'' := by
  obtain ⟨new, hops, hstore, hnew⟩ := h
  obtain ⟨new', hops', hstore', hnew'⟩ := h'
  refine ⟨new ++ new', ?_, ?_, ?_⟩
  · rw [hops', hops, List.append_assoc]
  · rw [hstore', hstore, Store.replay_append]
  · exact fun op hop => (List.mem_append.1 hop).elim (hnew op) (hnew' op)

instance : Trans (Later T) (Later T) (Later T) := ⟨.trans⟩

theorem Later.grown (h : Later T m m') : m.store.Grown m'.store := by
  obtain ⟨new, -, hstore, -⟩ := h
  rw [hstore]
  exact Store.grown_replay _ new

/-- Nothing has happened to the store. -/
theorem Sound.of_store_eq (hm : Sound T m) {c : Console}
    (hglobals : c.globals = m.rest.console.globals) :
    Sound T ⟨m.store, ⟨c, m.operations⟩⟩ ∧ Later T m ⟨m.store, ⟨c, m.operations⟩⟩ :=
  ⟨⟨hm.store_eq, hm.lawful, hglobals.trans hm.globals_eq⟩, [], by simp [Machine.operations], rfl,
    by simp⟩

/-- **A lawful operation** has been performed and written down. -/
theorem Sound.performed (hm : Sound T m) {op : Store.Operation} (hop : op.Lawful T.fits m.store)
    (hdeclares : op.DeclaresIn T.opens) {c : Console}
    (hglobals : c.globals = m.rest.console.globals) :
    Sound T ⟨m.store.perform op, ⟨c, m.operations ++ [op]⟩⟩ ∧
      Later T m ⟨m.store.perform op, ⟨c, m.operations ++ [op]⟩⟩ := by
  refine ⟨⟨?_, ?_, hglobals.trans hm.globals_eq⟩, [op], rfl, rfl, by simpa using hdeclares⟩
  · change m.store.perform op = T.base.replay (m.operations ++ [op])
    rw [Store.replay_concat, ← hm.store_eq]
  · exact hm.lawful.concat (hm.store_eq ▸ hop)

/-! ### What a run does -/

variable {α β : Type}

/-- **A run on these terms.** From `m` it leads to a later moment, whether it succeeds or fails;
`done` is said of its result, and its interrupt is in order. -/
def Runs (T : Terms) (m : Journal) (done : α → Journal → Prop) (act : Journaled α) : Prop :=
  Outcome (fun a m' => Sound T m' ∧ Later T m m' ∧ done a m')
    (fun e m' => Sound T m' ∧ Later T m m' ∧ e.InOrder T.fits m'.store) (act m)

/-- What is said of a value: that it is in order. -/
def Accepted (T : Terms) (v : Value) (m : Journal) : Prop := m.store.Accepts T.fits v

variable {done : α → Journal → Prop}

theorem runs_pure (hm : Sound T m) {a : α} (ha : done a m) :
    Runs T m done (pure a : Journaled α) := ⟨hm, .refl m, ha⟩

theorem runs_throw (hm : Sound T m) {e : Interrupt} (he : e.InOrder T.fits m.store) :
    Runs T m done (throw e : Journaled α) := ⟨hm, .refl m, he⟩

/-- A run that begins with a change of the session. -/
theorem Runs.of_later {act : Journaled α} (hlater : Later T m m') (h : Runs T m' done act) :
    Outcome (fun a m'' => Sound T m'' ∧ Later T m m'' ∧ done a m'')
      (fun e m'' => Sound T m'' ∧ Later T m m'' ∧ e.InOrder T.fits m''.store) (act m') :=
  advances_of_later hlater h

/-- **One run after the other.** -/
theorem runs_bind {said : β → Journal → Prop} {act : Journaled β} {next : β → Journaled α}
    (h : Runs T m said act)
    (hnext : ∀ b m', Sound T m' → Later T m m' → said b m' → Runs T m' done (next b)) :
    Runs T m done (act >>= next) := advances_bind h hnext

/-- **Bounded repetition.** -/
theorem runs_iterate {step : β → Journaled (Turn β α)} (keeps : β → Journal → Prop)
    (hstep : ∀ b m', Sound T m' → Later T m m' → keeps b m' →
      Runs T m' (Turn.Says keeps done) (step b))
    (passes : Nat) (b : β) (hm : Sound T m) (hb : keeps b m) :
    Runs T m done (iterate .unfinished step passes b) := by
  refine advances_iterate keeps hstep (fun m' hm' => ?_) passes hm (.refl m) hb
  exact ⟨hm', trivial⟩

/-! ### Small steps -/

/-- A step that leaves the store and the global scope alone and does not fail. -/
theorem runs_calm (hm : Sound T m) {act : Exec α} {a : α} {c : Console}
    (hact : act m.plain = .ok a ⟨m.store, c⟩) (hglobals : c.globals = m.rest.console.globals)
    (ha : done a ⟨m.store, ⟨c, m.operations⟩⟩) : Runs T m done (Annotating.lift act) := by
  obtain ⟨hm', hlater⟩ := hm.of_store_eq hglobals
  unfold Runs Annotating.lift
  rw [hact]
  exact ⟨hm', hlater, ha⟩

/-- A step that leaves nothing but events. -/
theorem runs_reports (hm : Sound T m) {act : Exec Unit} (h : Reports act) :
    Runs T m (fun _ _ => True) (Annotating.lift act) := by
  obtain ⟨events, hact⟩ := h m.plain
  exact runs_calm (c := { m.rest.console with events := events }) hm hact rfl trivial

/-- A failure whose cause is not internal. -/
theorem runs_fail (hm : Sound T m) {cause : Cause} (hcause : cause.isInternal = false)
    (line : Option Int) : Runs T m done (Annotating.lift (Exec.fail cause line)) :=
  ⟨hm, .refl m, fun _ => hcause⟩

/-- An operator on values. -/
theorem runs_orFail (hm : Sound T m) (line : Int) {result : Except Cause α}
    (hdone : ∀ a, result = .ok a → done a m)
    (hcause : ∀ cause, result = .error cause → (∀ node, T.fits node → node.IsRunnable) →
      cause.isInternal = false) : Runs T m done (Annotating.lift (Exec.orFail line result)) := by
  cases result with
  | ok a => exact ⟨hm, .refl m, hdone a rfl⟩
  | error cause => exact ⟨hm, .refl m, hcause cause rfl⟩

theorem accepted_of_literal {v : Value} (h : ∃ l, v = .literal l) : Accepted T v m := by
  obtain ⟨l, rfl⟩ := h
  trivial

theorem isInternal_of_lookup {s : Store} {scope : ScopeId} {name : String} {cause : Cause}
    (h : s.lookup scope name = .error cause) : cause.isInternal = false := by
  unfold Store.lookup at h
  cases hresolve : s.resolve scope name with
  | none =>
    simp only [hresolve] at h
    obtain rfl := Except.error.inj h
    rfl
  | some c => simp [hresolve] at h

theorem runs_read (hm : Sound T m) (scope : ScopeId) (name : Token) :
    Runs T m (Accepted T) (Annotating.lift (Exec.read scope name)) := by
  change Runs T m _ (Annotating.lift fun s =>
    Exec.orFail name.line (s.store.get scope name.lexeme) s)
  change Runs T m _ (Annotating.lift (Exec.orFail name.line (m.store.get scope name.lexeme)))
  refine runs_orFail hm name.line ?_ ?_
  · intro v hv
    unfold Store.get at hv
    cases hlookup : m.store.lookup scope name.lexeme with
    | ok c =>
      rw [hlookup] at hv
      obtain rfl := Except.ok.inj hv
      exact hm.integral.values.cell trivial c
    | error cause => simp [hlookup] at hv
  · intro cause hcause _
    unfold Store.get at hcause
    cases hlookup : m.store.lookup scope name.lexeme with
    | ok c => simp [hlookup] at hcause
    | error cause' =>
      rw [hlookup] at hcause
      obtain rfl := Except.error.inj hcause
      exact isInternal_of_lookup hlookup

/-! ### Operations -/

/-- **A step that performs an operation,** which is written down behind it. -/
theorem runs_noted (hm : Sound T m) {op : Store.Operation} (hop : op.Lawful T.fits m.store)
    (hdeclares : op.DeclaresIn T.opens) {act : Journaled β} {b : β} {c : Console}
    (hact : act m = .ok b ⟨m.store.perform op, ⟨c, m.operations⟩⟩)
    (hglobals : c.globals = m.rest.console.globals) {o : β → Session → Occurrence Unit}
    (ho : scribe.told (o b ⟨m.store.perform op, c⟩) ⟨m.store.perform op, ⟨c, m.operations⟩⟩ =
      ⟨m.store.perform op, ⟨c, m.operations ++ [op]⟩⟩) {next : β → Journaled α}
    (hnext : ∀ m', Sound T m' → Later T m m' → m'.store = m.store.perform op →
      Runs T m' done (next b)) :
    Runs T m done (act >>= fun b => scribe.before (o b) (next b)) := by
  obtain ⟨hm', hlater⟩ := hm.performed hop hdeclares hglobals
  have hrest := (hnext _ hm' hlater rfl).of_later hlater
  rw [← ho] at hrest
  refine outcome_bind ?_
  rw [hact]
  exact hrest

/-- A step whose operation is written down at the end. -/
theorem runs_after (hm : Sound T m) {op : Store.Operation} (hop : op.Lawful T.fits m.store)
    (hdeclares : op.DeclaresIn T.opens) {act : Journaled α} {a : α} {c : Console}
    (hact : act m = .ok a ⟨m.store.perform op, ⟨c, m.operations⟩⟩)
    (hglobals : c.globals = m.rest.console.globals) {o : Occurrence Unit}
    (ho : scribe.told o ⟨m.store.perform op, ⟨c, m.operations⟩⟩ =
      ⟨m.store.perform op, ⟨c, m.operations ++ [op]⟩⟩)
    (hdone : ∀ m', Sound T m' → Later T m m' → done a m') :
    Runs T m done (scribe.after o act) := by
  obtain ⟨hm', hlater⟩ := hm.performed hop hdeclares hglobals
  unfold Runs Scribe.after
  rw [hact]
  simp only
  rw [ho]
  exact ⟨hm', hlater, hdone _ hm' hlater⟩

theorem runs_write (hm : Sound T m) (host : Host) {scope : ScopeId}
    (hscope : scope.index < m.store.scopes.size) (name : Token) {v : Value} (hv : Accepted T v m) :
    Runs T m (Accepted T) ((scribe.steps host).write scope name v) := by
  have hwrite := Exec.write_eq scope name v m.plain
  have hassign := m.store.assign_eq scope name.lexeme v
  rw [show m.plain.store = m.store from rfl] at hwrite
  -- an assignment that fails is no operation
  have hfail : ∀ {cause : Cause}, cause.isInternal = false →
      Exec.write scope name v m.plain = Exec.fail cause (some name.line) m.plain →
      Runs T m (Accepted T) ((scribe.steps host).write scope name v) := by
    intro cause hcause heq
    change Runs T m _ (scribe.after _ (Annotating.lift (Exec.write scope name v)))
    unfold Runs Scribe.after Annotating.lift
    rw [heq]
    exact ⟨hm, .refl m, fun _ => hcause⟩
  cases hlookup : m.store.lookup scope name.lexeme with
  | error cause =>
    rw [hlookup] at hwrite
    exact hfail (isInternal_of_lookup hlookup) hwrite
  | ok c =>
    simp only [hlookup] at hwrite hassign
    split at hwrite
    · exact hfail rfl hwrite
    · next hconst =>
        rw [if_neg hconst] at hassign
        -- the cell is no constant, so that it is written, and that is the operation
        have hop : (Store.Operation.assigned scope name.lexeme v).Lawful T.fits m.store :=
          ⟨hscope, by rw [hassign]; rfl, hv⟩
        refine runs_after (c := m.rest.console) hm hop trivial ?_ rfl rfl
          fun m' hm' hlater => hv.grown hlater.grown
        rw [Annotating.lift, hwrite, Store.perform, hassign]
        rfl

theorem runs_declare (hm : Sound T m) (host : Host) {scope : ScopeId}
    (hscope : scope.index < m.store.scopes.size) (hopens : T.opens scope) (name : String) {v : Value}
    (hv : Accepted T v m) (const : Bool) :
    Runs T m (fun _ _ => True) ((scribe.steps host).declare scope name v const) := by
  have hop : (Store.Operation.declared scope name v const).Lawful T.fits m.store := ⟨hscope, hv⟩
  obtain ⟨events, hemit⟩ := reports_emit host (fun _ => .declared name v)
    { m.plain with store := (m.plain.store.declare scope name v const).2 }
  have hact : Annotating.lift (Exec.declare host scope name v const) m =
      .ok () ⟨m.store.perform (.declared scope name v const),
        ⟨{ m.rest.console with events := events }, m.operations⟩⟩ := by
    rw [Annotating.lift, Exec.declare_eq, hemit]
    rfl
  exact runs_after hm hop hopens hact rfl rfl fun _ _ _ => trivial

/-! ### Evaluators -/

/-- **Ready for a run** in a scope: the scope exists, and names may be declared in all scopes that are
opened from now on. -/
structure Ready (T : Terms) (m : Journal) (scope : ScopeId) : Prop where
  sound : Sound T m
  live : scope.index < m.store.scopes.size
  fresh : ∀ t : ScopeId, m.store.scopes.size ≤ t.index → T.opens t

variable {scope : ScopeId}

theorem Ready.later (h : Ready T m scope) (hm' : Sound T m') (hlater : Later T m m') :
    Ready T m' scope where
  sound := hm'
  live := Nat.lt_of_lt_of_le h.live hlater.grown.scopes_le
  fresh t ht := h.fresh t (Nat.le_trans hlater.grown.scopes_le ht)

/-- A scope that has been opened meanwhile. -/
theorem Ready.opened (h : Ready T m scope) (hm' : Sound T m') (hlater : Later T m m')
    {parent : ScopeId} {items : List (String × Value × Bool)}
    (hstore : m'.store = m.store.perform (.opened parent items)) :
    Ready T m' ⟨m.store.scopes.size⟩ ∧ T.opens ⟨m.store.scopes.size⟩ := by
  refine ⟨⟨hm', ?_, (h.later hm' hlater).fresh⟩, h.fresh _ (Nat.le_refl _)⟩
  rw [hstore, Store.perform, Store.openScope, Store.scopes_size_declareAll,
    Store.scopes_size_newScope]
  exact Nat.lt_succ_self _

/-- **A scope is opened** below another, and what is run next may be run in it. -/
theorem runs_opened (h : Ready T m scope) (host : Host) (act : Store → ScopeId × Store)
    (told : ScopeId → Store → List (String × Value × Bool)) {parent : ScopeId}
    {items : List (String × Value × Bool)}
    (hop : (Store.Operation.opened parent items).Lawful T.fits m.store)
    (hact : act m.store = (⟨m.store.scopes.size⟩, m.store.openScope parent items))
    (htold : told ⟨m.store.scopes.size⟩ (m.store.openScope parent items) = items)
    {next : ScopeId → Journaled α}
    (hnext : ∀ m', Ready T m' ⟨m.store.scopes.size⟩ → Later T m m' → T.opens ⟨m.store.scopes.size⟩ →
      Runs T m' done (next ⟨m.store.scopes.size⟩)) :
    Runs T m done (do
      let inner ← Action.onStore act
      (scribe.steps host).opened () inner (told inner) (next inner)) := by
  have hrun : (Action.onStore act : Journaled ScopeId) m =
      .ok ⟨m.store.scopes.size⟩ ⟨m.store.perform (.opened parent items), m.rest⟩ := by
    unfold Action.onStore
    simp only [hact]
    rfl
  refine runs_noted (c := m.rest.console) (o := fun inner m => .opened () inner (told inner m.store))
    h.sound hop trivial hrun rfl ?_ fun m' hm' hlater hstore => ?_
  · change scribe.told (.opened () ⟨m.store.scopes.size⟩
      (told ⟨m.store.scopes.size⟩ (m.store.openScope parent items))) _ = _
    rw [htold]
    exact told_opened m.store parent items items m.rest.console m.operations
  · obtain ⟨hready, hopens⟩ := h.opened hm' hlater hstore
    exact hnext m' hready hlater hopens

/-- **Evaluators that keep the terms,** whatever node that fits they are given. -/
structure Evaluator.Lawful (T : Terms) (ev : Evaluator) : Prop where
  /-- Values are in order. -/
  evaluate : ∀ {m scope e}, Ready T m scope → T.fits (.expr e) →
    Runs T m (Accepted T) (ev.evaluate () e scope)
  /-- Statements have no value, and declare in their scope only if they may. -/
  execute : ∀ {m scope s}, Ready T m scope → T.fits (.stmt s) →
    (s.declaresHere = true → T.opens scope) → Runs T m (fun _ _ => True) (ev.execute () s scope)

variable {host : Host} {d : Nat → Evaluator}

/-- Several expressions. -/
theorem runs_evaluateAll {ev : Evaluator} (hev : ev.Lawful T) {es : List Expr}
    (hes : ∀ e ∈ es, T.fits (.expr e)) (h : Ready T m scope) :
    Runs T m (fun vs m' => ∀ v ∈ vs, Accepted T v m')
      (Steps.evaluateAll scribe.next (fun p e => ev.evaluate p e scope) () es) := by
  induction es generalizing m with
  | nil => exact runs_pure h.sound fun v hv => nomatch hv
  | cons e es ih =>
    refine runs_bind (hev.evaluate h (hes e List.mem_cons_self)) fun v m₁ hm₁ h₁ hv => ?_
    have hrest := ih (fun e' he' => hes e' (List.mem_cons_of_mem _ he')) (h.later hm₁ h₁)
    refine runs_bind hrest fun vs m₂ hm₂ h₂ hvs => runs_pure hm₂ fun w hw => ?_
    obtain rfl | hw := List.mem_cons.1 hw
    · exact Store.Accepts.grown hv h₂.grown
    · exact hvs w hw

/-- Several statements in a scope in which names may be declared. -/
theorem runs_executeAll {ev : Evaluator} (hev : ev.Lawful T) {ss : List Stmt}
    (hss : ∀ s ∈ ss, T.fits (.stmt s)) (h : Ready T m scope) (hopens : T.opens scope) :
    Runs T m (fun _ _ => True)
      (Steps.executeAll scribe.next (fun p s => ev.execute p s scope) () ss) := by
  induction ss generalizing m with
  | nil => exact runs_pure h.sound trivial
  | cons s ss ih =>
    refine runs_bind (hev.execute h (hss s List.mem_cons_self) fun _ => hopens)
      fun _ m₁ hm₁ h₁ _ => ?_
    exact ih (fun s' hs' => hss s' (List.mem_cons_of_mem _ hs')) (h.later hm₁ h₁)

/-- An expression that may be absent. -/
theorem runs_evaluateOption {ev : Evaluator} (hev : ev.Lawful T) {e : Option Expr}
    (he : ∀ e' ∈ e, T.fits (.expr e')) (h : Ready T m scope) :
    Runs T m (Accepted T) (Steps.evaluateOption (fun e => ev.evaluate () e scope) e) := by
  cases e with
  | none => exact runs_pure h.sound trivial
  | some e => exact hev.evaluate h (he e rfl)

/-! ### Calls -/

theorem runs_inCall (hm : Sound T m) {act : Journaled Value} (paren : Token)
    (hact : ∀ m', Sound T m' → Later T m m' → Runs T m' (Accepted T) act) :
    Runs T m (Accepted T) (scribe.inCall paren act) := by
  -- the count goes up before the call and down behind it, and nothing else looks at it
  obtain ⟨hm', hlater⟩ :=
    hm.of_store_eq (c := { m.rest.console with frames := m.rest.console.frames + 1 }) rfl
  have hrun := (hact _ hm' hlater).of_later hlater
  change Outcome _ _ (act (scribe.told (.calls paren) m.entered)) at hrun
  unfold Runs Scribe.inCall
  cases hr : act (scribe.told (.calls paren) m.entered) with
  | ok v m'' =>
    rw [hr] at hrun
    obtain ⟨hm'', hlater'', hv⟩ := hrun
    obtain ⟨hend, hlaterEnd⟩ := hm''.of_store_eq
      (c := { m''.rest.console with frames := m''.rest.console.frames - 1 }) rfl
    exact ⟨hend, hlater''.trans hlaterEnd, hv⟩
  | error e m'' =>
    rw [hr] at hrun
    obtain ⟨hm'', hlater'', he⟩ := hrun
    obtain ⟨hend, hlaterEnd⟩ := hm''.of_store_eq
      (c := { m''.rest.console with frames := m''.rest.console.frames - 1 }) rfl
    exact ⟨hend, hlater''.trans hlaterEnd, he⟩

/-- **Nodes.** Nobody writes down when they begin and end. -/
theorem runs_within {node : Node} {act : Journaled α} (h : Runs T m done act) :
    Runs T m done (scribe.within () node scope act) := by
  rw [Scribe.within_of_ends (fun _ => rfl) fun _ => rfl]
  exact h

theorem runs_located {act : Journaled Value} (line : Int) (h : Runs T m (Accepted T) act) :
    Runs T m (Accepted T) (Exec.located line act) := by
  unfold Runs Exec.located
  unfold Runs at h
  cases hr : act m with
  | ok v m' => rw [hr] at h; exact h
  | error e m' =>
    rw [hr] at h
    -- the line is no part of the cause
    cases e <;> exact h

theorem runs_valueOf {act : Journaled Unit} (h : Runs T m (fun _ _ => True) act) :
    Runs T m (Accepted T) (Exec.valueOf act) := by
  unfold Runs Exec.valueOf
  unfold Runs at h
  cases hr : act m with
  | ok v m' => rw [hr] at h; exact ⟨h.1, h.2.1, trivial⟩
  | error e m' =>
    rw [hr] at h
    cases e <;> exact h

/-- **The body of a closure** runs in an activation below the scope of the closure. -/
theorem runs_activation (hd : ∀ cost, (d cost).Lawful T) (h : Ready T m scope) {f : Closure}
    (hf : Accepted T (.closure f) m) {arguments : List Value}
    (harguments : ∀ v ∈ arguments, Accepted T v m) :
    Runs T m (Accepted T) (do
      let activation ← Action.onStore (·.activate f arguments)
      ((scribe.steps host).callHooks host d).body f arguments activation) := by
  obtain ⟨hlive, hbody⟩ := hf
  have hop : (Store.Operation.opened f.scope (f.items arguments)).Lawful T.fits
      m.store := by
    refine ⟨hlive, fun item hitem => ?_⟩
    -- the parameters hold the arguments
    obtain ⟨⟨parameter, value⟩, hmem, rfl⟩ := List.mem_map.mp hitem
    exact harguments value (List.of_mem_zip hmem).2
  -- the activation is opened below the scope that the closure captured
  change Runs T m (Accepted T) (do
    let activation ← Action.onStore (·.activate f arguments)
    (scribe.steps host).opened () activation (fun _ => f.items arguments) do
      Annotating.lift (Exec.emit host fun _ => .called (.closure f) arguments)
      if host.tracing then
        Annotating.lift ((f.parameters.zip arguments).forM fun item =>
          Exec.emit host fun _ => .declared item.1 item.2)
      Exec.valueOf
        (Steps.executeAll scribe.next (fun p s => (d 4).execute p s activation) () f.body))
  refine runs_opened h host (·.activate f arguments) (fun _ _ => f.items arguments) hop rfl rfl
    fun m' h' hlater hopens => ?_
  have hm' := h'.sound
  have hvalue : ∀ m'', Sound T m'' → Later T m' m'' → Runs T m'' (Accepted T) (Exec.valueOf
      (Steps.executeAll scribe.next (fun p s => (d 4).execute p s ⟨m.store.scopes.size⟩) ()
        f.body)) := fun m'' hm'' h'' =>
    runs_valueOf (runs_executeAll (hd 4) hbody (h'.later hm'' h'') hopens)
  refine runs_bind (runs_reports hm' (reports_emit host _)) fun _ m₁ hm₁ h₁ _ => ?_
  split
  · refine runs_bind (runs_reports hm₁ (reports_forM (fun item => reports_emit host _) _))
      fun _ m₂ hm₂ h₂ _ => ?_
    exact hvalue m₂ hm₂ (h₁.trans h₂)
  · exact hvalue m₁ hm₁ h₁

/-- **Calls** of values in order. -/
theorem runs_call (hd : ∀ cost, (d cost).Lawful T) (h : Ready T m scope) (paren : Token)
    {callee : Value} (hcallee : Accepted T callee m) {arguments : List Value}
    (harguments : ∀ v ∈ arguments, Accepted T v m) :
    Runs T m (Accepted T) ((scribe.steps host).call host d paren callee arguments) := by
  have hinvoke : ∀ m', Sound T m' → Later T m m' → Runs T m' (Accepted T)
      (invoke ((scribe.steps host).callHooks host d) callee arguments) := by
    intro m' hm' hlater
    -- what was accepted before still is, since stores only grow
    have hcallee' := Store.Accepts.grown hcallee hlater.grown
    have harguments' := fun v hv => Store.Accepts.grown (harguments v hv) hlater.grown
    cases callee with
    | literal value => exact runs_throw hm' fun _ => rfl
    | native f =>
      unfold invoke
      simp only
      split
      · -- the only native function is the clock, which gives a number
        obtain ⟨events, hemit⟩ := reports_emit host (fun _ => .called (.native f) arguments) m'.plain
        refine runs_calm hm' (a := .number (host.clock m'.rest.console.readings))
          (c := { m'.rest.console with
            events := events, readings := m'.rest.console.readings + 1 }) ?_ rfl trivial
        change EStateM.bind _ _ m'.plain = _
        rw [EStateM.bind, hemit]
        rfl
      · exact runs_throw hm' fun _ => rfl
    | closure f =>
      unfold invoke
      simp only
      split
      · exact runs_activation hd (h.later hm' hlater) hcallee' harguments'
      · exact runs_throw hm' fun _ => rfl
  change Runs T m _ (if m.rest.console.frames = maxFrames then _ else _)
  split
  · exact runs_fail h.sound rfl _
  · exact runs_inCall h.sound paren fun m' hm' hlater =>
      runs_located paren.line (hinvoke m' hm' hlater)

/-! ### Expressions -/

theorem isInternal_of_applyUnary {kind : TokenKind} (hkind : kind = .bang ∨ kind = .minus)
    {v : Value} {cause : Cause} (h : applyUnary kind v = .error cause) :
    cause.isInternal = false := by
  unfold applyUnary at h
  split at h
  · contradiction
  · contradiction
  · obtain rfl := Except.error.inj h
    rfl
  · simp_all

/-- **Arithmetic** knows all binary operators. -/
theorem isInternal_of_applyBinary {kind : TokenKind} (hkind : (binaryLevel? kind).isSome = true)
    {v w : Value} {cause : Cause} (h : applyBinary kind v w = .error cause) :
    cause.isInternal = false := by
  unfold applyBinary at h
  split at h
  · contradiction
  · contradiction
  · -- a sum of numbers, a sum of strings, or a complaint
    split at h
    · contradiction
    · contradiction
    · obtain rfl := Except.error.inj h
      rfl
  · split at h
    · -- two numbers, on which none of the other operators fails
      unfold applyArithmetic at h
      split at h
      all_goals first
        | contradiction
        | simp_all [binaryLevel?]
    · obtain rfl := Except.error.inj h
      rfl

/-- **Expressions.** -/
theorem runs_evaluateStep (hd : ∀ cost, (d cost).Lawful T) (h : Ready T m scope) {e : Expr}
    (he : T.fits (.expr e)) :
    Runs T m (Accepted T) ((scribe.steps host).evaluateStep host d () e scope) := by
  -- the parts of what fits its place fit theirs
  have hpart := fun i part => T.inherited _ i part he
  cases e with
  | literal value => exact runs_pure h.sound trivial
  | grouping inner => exact (hd 1).evaluate h (hpart 0 _ rfl)
  | «variable» name => exact runs_read h.sound scope name
  | assign name value =>
    refine runs_bind ((hd 1).evaluate h (hpart 0 _ rfl)) fun v m₁ hm₁ h₁ hv => ?_
    exact runs_write hm₁ host (h.later hm₁ h₁).live name hv
  | logical left operator right =>
    refine runs_bind ((hd 1).evaluate h (hpart 0 _ rfl)) fun v m₁ hm₁ h₁ hv => ?_
    split
    · exact runs_pure hm₁ hv
    · exact (hd 1).evaluate (h.later hm₁ h₁) (hpart 1 _ rfl)
  | unary operator right =>
    refine runs_bind ((hd 1).evaluate h (hpart 0 _ rfl)) fun v m₁ hm₁ h₁ hv => ?_
    -- a result is a literal, which is accepted anywhere
    exact runs_orFail hm₁ operator.line
      (fun w hw => accepted_of_literal (applyUnary_literal hw))
      fun cause hcause hfits => isInternal_of_applyUnary (hfits _ he) hcause
  | binary left operator right =>
    refine runs_bind ((hd 1).evaluate h (hpart 0 _ rfl)) fun v m₁ hm₁ h₁ hv => ?_
    refine runs_bind ((hd 1).evaluate (h.later hm₁ h₁) (hpart 1 _ rfl)) fun w m₂ hm₂ h₂ hw => ?_
    exact runs_orFail hm₂ operator.line
      (fun u hu => accepted_of_literal (applyBinary_literal hu))
      fun cause hcause hfits => isInternal_of_applyBinary (hfits _ he) hcause
  | call callee paren arguments =>
    refine runs_bind ((hd 1).evaluate h (hpart 0 _ rfl)) fun f m₁ hm₁ h₁ hf => ?_
    -- the callee has the number zero, and the arguments come behind it
    have harguments : ∀ e ∈ arguments, T.fits (.expr e) := by
      intro e hmem
      obtain ⟨i, hi⟩ := List.mem_iff_getElem?.1 hmem
      exact hpart (i + 1) _ (Option.map_eq_some_iff.mpr ⟨e, hi, rfl⟩)
    refine runs_bind (runs_evaluateAll (hd 2) harguments (h.later hm₁ h₁))
      fun vs m₂ hm₂ h₂ hvs => ?_
    exact runs_call hd (h.later hm₂ (h₁.trans h₂)) paren (Store.Accepts.grown hf h₂.grown) hvs
  | foreign description => exact runs_throw h.sound fun hfits => hfits _ he

/-! ### For loops -/

section ForLoop

variable {start : Option Stmt} {condition update : Option Expr} {body : Stmt} {current : ScopeId}

theorem runs_goesOn (hd : ∀ cost, (d cost).Lawful T) (h : Ready T m current)
    (hcondition : ∀ e ∈ condition, T.fits (.expr e)) :
    Runs T m (fun _ _ => True)
      (((scribe.steps host).forLoop host d () start condition update body).goesOn current) := by
  cases condition with
  | none => exact runs_pure h.sound trivial
  | some e =>
    refine runs_bind ((hd 4).evaluate h (hcondition e rfl)) fun v m' hm' _ _ => ?_
    exact runs_pure hm' trivial

theorem runs_update (hd : ∀ cost, (d cost).Lawful T) (h : Ready T m current)
    (hupdate : ∀ e ∈ update, T.fits (.expr e)) :
    Runs T m (fun _ _ => True)
      (ForLoop.clause ((scribe.steps host).forLoop host d () start condition update body).update
        current) := by
  cases update with
  | none => exact runs_pure h.sound trivial
  | some e =>
    refine runs_bind ((hd 4).evaluate h (hupdate e rfl)) fun v m' hm' _ _ => ?_
    exact runs_pure hm' trivial

/-- **The scope of a pass:** one in which the clauses may be run and declare names. -/
def InPass (T : Terms) (current : ScopeId) (m : Journal) : Prop :=
  Ready T m current ∧ T.opens current

/-- **From one pass to the next.** A copy is opened below the scope around the loop, with the contents
of the scope of this pass. -/
theorem runs_advance (h : Ready T m scope) (hcurrent : InPass T current m) (fresh : Bool) :
    Runs T m (InPass T)
      (((scribe.steps host).forLoop host d () start condition update body).advance scope fresh
        current) := by
  cases fresh with
  | false => exact runs_pure h.sound hcurrent
  | true =>
    set items := m.store.contents current
    have hop : (Store.Operation.opened scope items).Lawful T.fits m.store :=
      ⟨h.live, h.sound.integral.values.contents trivial current⟩
    have hnodup : (items.map Prod.fst).Nodup := by
      rw [Store.names_contents]
      exact h.sound.integral.tidy.names_nodup current (Nat.zero_le _)
    -- what is written down is what the copy holds, and that is what was copied
    have hcontents := Store.contents_openScope m.store scope hnodup
    have hcopied : Runs T m (InPass T) (do
        let following ← Action.onStore (·.nextIteration scope current)
        (scribe.steps host).opened () following (·.contents following) do
          Annotating.lift (Exec.emitContents host following)
          return following) := by
      refine runs_opened h host (·.nextIteration scope current) (fun inner s => s.contents inner) hop
        rfl hcontents fun m' h' _ hopens => ?_
      refine runs_bind (runs_reports h'.sound (reports_emitContents host ⟨m.store.scopes.size⟩))
        fun _ m₁ hm₁ h₁ _ => ?_
      exact runs_pure hm₁ ⟨h'.later hm₁ h₁, hopens⟩
    exact hcopied

/-- **A pass** takes place in its scope, and the next one does so too. -/
theorem runs_pass (hd : ∀ cost, (d cost).Lawful T) (h : Ready T m scope)
    (hfits : T.fits (.stmt (.forLoop start condition update body)))
    (hcurrent : InPass T current m) (fresh : Bool) :
    Runs T m (Turn.Says (InPass T) fun _ _ => True)
      (((scribe.steps host).forLoop host d () start condition update body).pass scope fresh
        current) := by
  have hpart := fun i part => T.inherited _ i part hfits
  have hcondition : ∀ e ∈ condition, T.fits (.expr e) := by
    rintro e rfl
    exact hpart 1 _ rfl
  have hupdate : ∀ e ∈ update, T.fits (.expr e) := by
    rintro e rfl
    exact hpart 2 _ rfl
  refine runs_bind (runs_goesOn hd hcurrent.1 hcondition) fun goesOn m₁ hm₁ h₁ _ => ?_
  have hcurrent₁ := hcurrent.1.later hm₁ h₁
  cases goesOn with
  | false => exact runs_pure hm₁ trivial
  | true =>
    refine runs_bind ((hd 4).execute hcurrent₁ (hpart 3 _ rfl) fun _ => hcurrent.2)
      fun _ m₂ hm₂ h₂ _ => ?_
    -- the update is run in the scope of the following pass
    refine runs_bind (runs_advance (h.later hm₂ (h₁.trans h₂)) ⟨hcurrent₁.later hm₂ h₂, hcurrent.2⟩
      fresh) fun following m₃ hm₃ h₃ hfollowing => ?_
    refine runs_bind (runs_update hd hfollowing.1 hupdate) fun _ m₄ hm₄ h₄ _ => ?_
    exact runs_pure hm₄ ⟨hfollowing.1.later hm₄ h₄, hfollowing.2⟩

/-- **For loops.** -/
theorem runs_forLoop (hd : ∀ cost, (d cost).Lawful T) (h : Ready T m scope)
    (hfits : T.fits (.stmt (.forLoop start condition update body))) :
    Runs T m (fun _ _ => True)
      (((scribe.steps host).forLoop host d () start condition update body).run .unfinished
        host.passes scope) := by
  have hop : (Store.Operation.opened scope []).Lawful T.fits m.store := ⟨h.live, by simp⟩
  -- written out, the loop opens a scope, runs its first clause there and then passes
  have hrun : Runs T m (fun _ _ => True) (do
      let first ← Action.onStore (·.newScope (some scope))
      (scribe.steps host).opened () first (fun _ => []) do
        ForLoop.clause (start.map fun s scope => (d 4).execute () s scope) first
        let fresh := !((← Action.store).bindings first).isEmpty
        iterate .unfinished
          (((scribe.steps host).forLoop host d () start condition update body).pass scope fresh)
          host.passes first) := by
    refine runs_opened h host (·.newScope (some scope)) (fun _ _ => []) hop rfl rfl
      fun m₁ hfirst h₁ hopens => ?_
    have hstart : Runs T m₁ (fun _ _ => True)
        (ForLoop.clause (start.map fun s scope => (d 4).execute () s scope)
          ⟨m.store.scopes.size⟩) := by
      cases start with
      | none => exact runs_pure hfirst.sound trivial
      | some s => exact (hd 4).execute hfirst (T.inherited _ 0 _ hfits rfl) fun _ => hopens
    refine runs_bind hstart fun _ m₂ hm₂ h₂ _ => ?_
    -- what the first clause has declared decides whether there are copies
    have hloop : ∀ fresh, Runs T m₂ (fun _ _ => True)
        (iterate .unfinished
          (((scribe.steps host).forLoop host d () start condition update body).pass scope fresh)
          host.passes ⟨m.store.scopes.size⟩) := by
      intro fresh
      -- both the scope around the loop and that of the pass live on from pass to pass
      refine runs_iterate (fun current m' => Ready T m' scope ∧ InPass T current m') ?_ host.passes _
        hm₂ ⟨h.later hm₂ (h₁.trans h₂), hfirst.later hm₂ h₂, hopens⟩
      rintro current m₃ hm₃ h₃ ⟨hscope, hcurrent⟩
      refine Outcome.mono (runs_pass hd hscope hfits hcurrent fresh) ?_ fun _ _ he => he
      rintro turn m₄ ⟨hm₄, h₄, hturn⟩
      cases turn with
      | again following => exact ⟨hm₄, h₄, hscope.later hm₄ h₄, hturn⟩
      | done _ => exact ⟨hm₄, h₄, trivial⟩
    exact hloop _
  exact hrun

end ForLoop

/-! ### Statements -/

/-- **Statements.** -/
theorem runs_executeStep (hd : ∀ cost, (d cost).Lawful T) (h : Ready T m scope) {s : Stmt}
    (hs : T.fits (.stmt s)) (hopens : s.declaresHere = true → T.opens scope) :
    Runs T m (fun _ _ => True) ((scribe.steps host).executeStep host d () s scope) := by
  -- the parts of what fits its place fit theirs
  have hpart := fun i part => T.inherited _ i part hs
  cases s with
  | expression value =>
    refine runs_bind ((hd 1).evaluate h (hpart 0 _ rfl)) fun v m₁ hm₁ h₁ hv => ?_
    exact runs_pure hm₁ trivial
  | print value =>
    refine runs_bind ((hd 1).evaluate h (hpart 0 _ rfl)) fun v m₁ hm₁ h₁ hv => ?_
    have hprint : Runs T m₁ (fun _ _ => True) (Annotating.lift (Exec.print v.display)) :=
      runs_calm (c := { m₁.rest.console with
        output := m₁.rest.console.output ++ v.display ++ "\n" }) hm₁ rfl rfl trivial
    exact hprint
  | «variable» name initial const =>
    have hinitial : ∀ e ∈ initial, T.fits (.expr e) := by
      rintro e rfl
      exact hpart 0 _ rfl
    refine runs_bind (runs_evaluateOption (hd 1) hinitial h) fun v m₁ hm₁ h₁ hv => ?_
    exact runs_declare hm₁ host (h.later hm₁ h₁).live (hopens rfl) name.lexeme hv const
  | block body =>
    -- the new scope is empty, and the declarations of the block are made in it
    have hop : (Store.Operation.opened scope []).Lawful T.fits m.store := ⟨h.live, by simp⟩
    refine runs_opened h host (·.newScope (some scope)) (fun _ _ => []) hop rfl rfl
      fun m₁ hinner h₁ hinnerOpens => ?_
    refine runs_executeAll (hd 2) (fun s hmem => ?_) hinner hinnerOpens
    obtain ⟨i, hi⟩ := List.mem_iff_getElem?.1 hmem
    exact hpart i _ (Option.map_eq_some_iff.mpr ⟨s, hi, rfl⟩)
  | conditional condition yes no =>
    refine runs_bind ((hd 1).evaluate h (hpart 0 _ rfl)) fun v m₁ hm₁ h₁ hv => ?_
    -- both branches are run in the scope of the conditional
    split
    · refine (hd 1).execute (h.later hm₁ h₁) (hpart 1 _ rfl) fun hyes => hopens ?_
      cases no <;> simp [Stmt.declaresHere, hyes]
    · cases no with
      | none => exact runs_pure hm₁ trivial
      | some no =>
        refine (hd 1).execute (h.later hm₁ h₁) (hpart 2 _ rfl) fun hno => hopens ?_
        simp [Stmt.declaresHere, hno]
  | whileLoop condition body =>
    -- the scope of the loop lives on from turn to turn
    refine runs_iterate (fun _ m' => Ready T m' scope) (fun _ m₁ hm₁ h₁ hready => ?_) host.passes ()
      h.sound h
    refine runs_bind ((hd 1).evaluate hready (hpart 0 _ rfl)) fun v m₂ hm₂ h₂ hv => ?_
    split
    · refine runs_bind ((hd 1).execute (hready.later hm₂ h₂) (hpart 1 _ rfl) hopens)
        fun _ m₃ hm₃ h₃ _ => ?_
      exact runs_pure hm₃ (hready.later hm₃ (h₂.trans h₃))
    · exact runs_pure hm₂ trivial
  | forLoop start condition update body => exact runs_forLoop hd h hs
  | function name parameters body =>
    have hbody : ∀ st ∈ body, T.fits (.stmt st) := by
      intro st hmem
      obtain ⟨i, hi⟩ := List.mem_iff_getElem?.1 hmem
      exact hpart i _ (Option.map_eq_some_iff.mpr ⟨st, hi, rfl⟩)
    have hop : (Store.Operation.closed scope body).Lawful T.fits m.store := ⟨h.live, hbody⟩
    let f : Closure := ⟨m.store.functions, name.lexeme, parameters.map (·.lexeme), body, scope⟩
    have hmade : (Action.onStore
        (·.newClosure name.lexeme (parameters.map (·.lexeme)) body scope) : Journaled Closure) m =
          .ok f ⟨m.store.perform (.closed scope body), m.rest⟩ := rfl
    have hrun : Runs T m (fun _ _ => True) (do
        let f ← Action.onStore (·.newClosure name.lexeme (parameters.map (·.lexeme)) body scope)
        scribe.before (fun _ => .made () f)
          ((scribe.steps host).declare scope name.lexeme (.closure f) false)) := by
      refine runs_noted (c := m.rest.console) (o := fun f _ => .made () f) h.sound hop trivial hmade
        rfl rfl fun m₁ hm₁ h₁ _ => ?_
      -- the closure captures the scope in which it is declared next
      have hready := h.later hm₁ h₁
      have hclosure : Accepted T (.closure f) m₁ := ⟨hready.live, hbody⟩
      exact runs_declare hm₁ host hready.live (hopens rfl) name.lexeme hclosure false
    exact hrun
  | returning keyword value =>
    have hvalue : ∀ e ∈ value, T.fits (.expr e) := by
      rintro e rfl
      exact hpart 0 _ rfl
    refine runs_bind (runs_evaluateOption (hd 1) hvalue h) fun v m₁ hm₁ h₁ hv => ?_
    exact runs_throw hm₁ hv
  | foreign description => exact runs_throw h.sound fun hfits => hfits _ hs

/-! ### The evaluator of a host -/

/-- Without room nothing is done. -/
theorem lawful_full (host : Host) : Evaluator.Lawful T (scribe.steps host).full where
  evaluate h _ := runs_within (runs_fail h.sound rfl none)
  execute h _ _ := runs_within (runs_fail h.sound rfl none)

/-- **The evaluator of a host** keeps the terms, in any room. -/
theorem lawful_evaluator (host : Host) (room cost : Nat) :
    Evaluator.Lawful T (scribe.evaluator host room cost) := by
  refine recurse_induction (lawful_full host) (fun inner hinner => ?_) room cost
  exact ⟨fun h he => runs_within (runs_evaluateStep hinner h he),
    fun h hs hopens => runs_within (runs_executeStep hinner h hs hopens)⟩

end Journal

end Lox
