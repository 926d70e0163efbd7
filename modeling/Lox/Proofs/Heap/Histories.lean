import Lox.Proofs.Grammar.Soundness
import Lox.Proofs.Heap.Lawful
import Lox.Proofs.Scribe.Erasure

/-!
# Histories of sessions

A session performs lawful operations from its beginning on, whatever it is given and whatever becomes
of it. Without a journal this says that a run in a store of integrity replays a lawful history, and
that its store has integrity again.

* `Session.integral_new` — fresh sessions;
* `Journal.sound_feed`, `Journal.sound_feedAll` — sessions with a journal;
* `Session.Performs` — what a run without a journal does to a session;
* `Session.leads_evaluate`, `Session.leads_execute` — expressions and statements in any scope.
-/

namespace Lox

/-! ### Fresh sessions -/

/-- **A fresh store has integrity.** -/
theorem Session.integral_new (host : Host) (fits : Node → Prop) :
    (Session.new host).store.Integral fits (Session.new host).rest.globals := by
  obtain ⟨events, hnew⟩ := Session.exists_new_eq host
  rw [hnew]
  -- in front of the clock there is one scope and no cell
  have hbare : Session.bare.store.Integral fits ⟨0⟩ := by
    have hparent : ∀ t : ScopeId, Session.bare.store.parent? t = none := by
      intro t
      change (Store.empty.newScope none).2.parent? t = none
      rw [Store.parent?_newScope]
      split
      · rfl
      · simp [Store.parent?, Store.empty]
    have hbindings : ∀ t : ScopeId, Session.bare.store.bindings t = [] := by
      intro t
      change (Store.empty.newScope none).2.bindings t = []
      rw [Store.bindings_newScope]
      simp [Store.bindings, Store.empty]
    constructor
    case ordered => exact fun t p htp => by simp [hparent] at htp
    case globals_lt => exact Nat.zero_lt_one
    case parent?_eq_none_iff =>
      intro t ht
      have hzero : t.index = 0 := Nat.lt_one_iff.1 ht
      simp [hparent, ← hzero]
    case tidy =>
      constructor
      case names_nodup => exact fun t _ => by simp [hbindings]
      case cells_lt => exact fun t _ b hb => by simp [hbindings] at hb
      case owner => exact fun t _ _ _ b hb => by simp [hbindings] at hb
    case values =>
      exact fun c hc => by
        simp [Session.bare, Store.newNative, Store.newScope, Store.empty] at hc
  -- the clock captures no scope
  have hclock : Store.Accepts fits Session.bare.store (.native ⟨0, "clock", 0⟩) := trivial
  exact hbare.declare hclock ⟨0⟩ "clock" false

/-! ### Sessions with a journal -/

/-- **What a session is given fits:** the programs that a source text is read as, or the tree. -/
def Input.Fits (host : Host) (fits : Node → Prop) : Input → Prop
  | .source text => ∀ program, parse host.room text = .ok program → ∀ s ∈ program, fits (.stmt s)
  | .tree s => fits (.stmt s)

namespace Journal

variable {T : Terms} {m : Journal}

/-- **The verdict is in order,** and so is what is left. -/
def Concludes (T : Terms) (m : Journal) (verdict : Verdict) (m' : Journal) : Prop :=
  Sound T m' ∧ Later T m m' ∧ ∀ e, verdict = .interrupted e → e.InOrder T.fits m'.store

theorem Runs.concludes {act : Journaled Unit} {m₀ : Journal} (hlater : Later T m₀ m)
    (h : Runs T m (fun _ _ => True) act) :
    Concludes T m₀ (Session.conclude (act m)).1 (Session.conclude (act m)).2 := by
  unfold Runs at h
  cases hact : act m with
  | ok _ m' =>
    rw [hact] at h
    exact ⟨h.1, hlater.trans h.2.1, fun e he => nomatch he⟩
  | error e m' =>
    rw [hact] at h
    refine ⟨h.1, hlater.trans h.2.1, fun e' he' => ?_⟩
    obtain rfl := Verdict.interrupted.inj he'
    exact h.2.2

/-- The global scope is ready, and names may be declared in it. -/
theorem Sound.ready (hm : Sound T m) (hopens : ∀ t, T.opens t) :
    Ready T m m.rest.console.globals where
  sound := hm
  live := hm.globals_eq ▸ hm.integral.globals_lt
  fresh t _ := hopens t

variable (host : Host) (number : Nat)

theorem sound_executeProgram (hm : Sound T m) (hopens : ∀ t, T.opens t) {program : List Stmt}
    (hprogram : ∀ s ∈ program, T.fits (.stmt s)) :
    Concludes T m (scribe.executeProgram host number m program).1
      (scribe.executeProgram host number m program).2 :=
  (runs_executeAll (lawful_evaluator host host.room 0) hprogram (hm.ready hopens)
    (hopens _)).concludes (.refl m)

/-- **A source text.** If it is rejected, nothing is done. -/
theorem sound_interpret (hm : Sound T m) (hopens : ∀ t, T.opens t) {source : String}
    (hsource : ∀ program, parse host.room source = .ok program → ∀ s ∈ program, T.fits (.stmt s)) :
    Concludes T m (scribe.interpret host number m source).1
      (scribe.interpret host number m source).2 := by
  -- events are no part of the invariant
  obtain ⟨events, hread⟩ := m.plain.exists_read_eq host source
  obtain ⟨hm', hlater⟩ := hm.of_store_eq (c := { m.rest.console with events := events }) rfl
  rw [Scribe.interpret, hread]
  cases hparse : parse host.room source with
  | error e => exact ⟨hm', hlater, fun _ he => nomatch he⟩
  | ok program =>
    obtain ⟨hend, hafter, hverdict⟩ :=
      sound_executeProgram host number hm' hopens (hsource program hparse)
    exact ⟨hend, hlater.trans hafter, hverdict⟩

/-- **Whatever a session is given.** -/
theorem sound_feed (hm : Sound T m) (hopens : ∀ t, T.opens t) {input : Input}
    (hinput : input.Fits host T.fits) :
    Concludes T m (scribe.feed host number m input).1 (scribe.feed host number m input).2 := by
  cases input with
  | source text => exact sound_interpret host number hm hopens hinput
  | tree s =>
    exact ((lawful_evaluator host host.room 0).execute (hm.ready hopens) hinput
      fun _ => hopens _).concludes (.refl m)

/-- **Whole sessions.** -/
theorem sound_feedAll (hbase : T.base = (Session.new host).store)
    (hglobals : T.globals = (Session.new host).rest.globals) (hopens : ∀ t, T.opens t)
    {inputs : List Input} (hinputs : ∀ input ∈ inputs, input.Fits host T.fits) :
    Sound T (scribe.feedAll host inputs).2 ∧
      ∀ e, .interrupted e ∈ (scribe.feedAll host inputs).1 →
        e.InOrder T.fits (scribe.feedAll host inputs).2.store := by
  have hnew : Sound T (scribe.new host) := ⟨hbase.symm, Store.lawful_nil, hglobals.symm⟩
  induction inputs using List.reverseRecOn with
  | nil => exact ⟨hnew, fun e he => nomatch he⟩
  | append_singleton inputs input ih =>
    obtain ⟨hm, hverdicts⟩ := ih fun other hother => hinputs other (List.mem_append_left _ hother)
    obtain ⟨hm', hlater, hverdict⟩ := sound_feed host inputs.length hm hopens
      (hinputs input (List.mem_append_right _ List.mem_cons_self))
    rw [Scribe.feedAll_concat]
    refine ⟨hm', fun e he => ?_⟩
    -- what was in order before is so in a store that has grown
    obtain he | he := List.mem_append.1 he
    · exact (hverdicts e he).grown hlater.grown
    · exact hverdict e (List.mem_singleton.1 he).symm

end Journal

/-! ### Sessions without a journal -/

namespace Session

variable {fits : Node → Prop} {opens : ScopeId → Prop} {m m' : Session} {α : Type}

/-- **What a run does to a session:** it performs a lawful history of operations, which declare only
where they may. -/
structure Performs (fits : Node → Prop) (opens : ScopeId → Prop) (m m' : Session) : Prop where
  globals_eq : m'.rest.globals = m.rest.globals
  history : ∃ ops, m'.store = m.store.replay ops ∧ Store.Lawful fits m.store ops ∧
    ∀ op ∈ ops, op.DeclaresIn opens

theorem Performs.integral (h : Performs fits opens m m')
    (hm : m.store.Integral fits m.rest.globals) : m'.store.Integral fits m'.rest.globals := by
  obtain ⟨ops, hstore, hlawful, -⟩ := h.history
  rw [hstore, h.globals_eq]
  exact hm.replay hlawful

theorem Performs.grown (h : Performs fits opens m m') : m.store.Grown m'.store := by
  obtain ⟨ops, hstore, -, -⟩ := h.history
  rw [hstore]
  exact Store.grown_replay _ ops

/-- **Scopes in which nothing may be declared** keep their bindings. -/
theorem Performs.bindings_eq (h : Performs fits opens m m') {t : ScopeId}
    (ht : t.index < m.store.scopes.size) (hclosed : ¬ opens t) :
    m'.store.bindings t = m.store.bindings t := by
  obtain ⟨ops, hstore, -, hdeclares⟩ := h.history
  rw [hstore]
  exact Store.bindings_replay _ hdeclares ht hclosed

/-- **A run in a session;** `said` is said of its result and the store. -/
def Leads (fits : Node → Prop) (opens : ScopeId → Prop) (m : Session) (said : α → Store → Prop)
    (act : Exec α) : Prop :=
  Outcome (fun a m' => Performs fits opens m m' ∧ said a m'.store)
    (fun e m' => Performs fits opens m m' ∧ e.InOrder fits m'.store) (act m)

/-- The terms on which the journal of a session begins now. -/
def terms (m : Session) (hm : m.store.Integral fits m.rest.globals)
    (hfits : ∀ node i part, fits node → node.part i = some part → fits part)
    (opens : ScopeId → Prop) : Terms where
  base := m.store
  globals := m.rest.globals
  fits := fits
  opens := opens
  inherited := hfits
  integral := hm

variable (hm : m.store.Integral fits m.rest.globals)
  (hfits : ∀ node i part, fits node → node.part i = some part → fits part)

theorem sound_journaled : Journal.Sound (m.terms hm hfits opens) (m.noted [] : Journal) :=
  ⟨rfl, Store.lawful_nil, rfl⟩

/-- A run with a journal says what the run without it does. -/
theorem leads_of_runs {said : α → Store → Prop} {rich : Journaled α} {act : Exec α}
    (hact : Projects Machine.plain rich act)
    (h : Journal.Runs (m.terms hm hfits opens) (m.noted [] : Journal) (fun a m' => said a m'.store)
      rich) :
    Leads fits opens m said act := by
  have hperforms : ∀ m' : Journal, Journal.Sound (m.terms hm hfits opens) m' →
      Journal.Later (m.terms hm hfits opens) (m.noted [] : Journal) m' →
      Performs fits opens m m'.plain := by
    rintro m' hm' ⟨new, hops, hstore, hdeclares⟩
    have hlawful := hm'.lawful
    rw [hops] at hlawful
    exact ⟨hm'.globals_eq, new, hstore, hlawful, hdeclares⟩
  -- the run without a journal ends as the one with it does, in the plain session
  have hrun := hact (m.noted [] : Journal)
  unfold Leads
  unfold Journal.Runs at h
  rw [show m = Machine.plain (m.noted [] : Journal) from rfl, ← hrun]
  cases hrich : rich (m.noted [] : Journal) with
  | ok a m' =>
    rw [hrich] at h
    exact ⟨hperforms m' h.1 h.2.1, h.2.2⟩
  | error e m' =>
    rw [hrich] at h
    exact ⟨hperforms m' h.1 h.2.1, h.2.2⟩

variable (host : Host) (room cost : Nat) {scope : ScopeId}

include hm hfits

/-- **Expressions** declare names in new scopes only. -/
theorem leads_evaluate (hscope : scope.index < m.store.scopes.size)
    (hnew : ∀ t : ScopeId, m.store.scopes.size ≤ t.index → opens t) {e : Expr}
    (he : fits (.expr e)) :
    Leads fits opens m (fun v s => s.Accepts fits v)
      ((recurse .full (Evaluator.step host) room cost).evaluate e scope) :=
  leads_of_runs hm hfits ((Journal.scribe.follows_evaluator host room cost).evaluate () e scope)
    ((Journal.lawful_evaluator host room cost).evaluate ⟨sound_journaled hm hfits, hscope, hnew⟩ he)

/-- **Statements** declare names in new scopes and possibly in their own. -/
theorem leads_execute (hscope : scope.index < m.store.scopes.size)
    (hnew : ∀ t : ScopeId, m.store.scopes.size ≤ t.index → opens t) {s : Stmt}
    (hs : fits (.stmt s)) (hopens : s.declaresHere = true → opens scope) :
    Leads fits opens m (fun _ _ => True)
      ((recurse .full (Evaluator.step host) room cost).execute s scope) :=
  leads_of_runs hm hfits ((Journal.scribe.follows_evaluator host room cost).execute () s scope)
    ((Journal.lawful_evaluator host room cost).execute ⟨sound_journaled hm hfits, hscope, hnew⟩ hs
      hopens)

end Session

end Lox
