import Lox.Proofs.Heap.Frame
import Lox.Proofs.Loop.PerPass

/-!
# The variables of a loop

A for statement whose first clause declares a name is a loop whose every pass has its own variables:
its clauses act on the store through operations, because all runs do. When a pass has ended, what is
left to its variables are the functions that were made in it; so that they change only through
assignments in scopes from which they can be reached.

* `Session.InLoop`, `Session.acts_forLoop` — the clauses of a for statement;
* `Session.declaresAtStart_forLoop` — declarations as first clauses;
* `loop_passes_apart` — loops of every host, for statements, and whole sessions.
-/

namespace Lox

/-- **The first clause declares a name** in the scope that it is given, if it comes to its end. -/
def ForLoop.DeclaresAtStart {ω ε : Type} (loop : ForLoop ω ε) (enclosing : ScopeId)
    (m : Machine ω) : Prop :=
  Outcome (fun _ m' => m'.store.bindings ⟨m.store.scopes.size⟩ ≠ []) (fun _ _ => True)
    (ForLoop.clause loop.start ⟨m.store.scopes.size⟩ (ForLoop.beginning enclosing m).machine)

namespace Session

/-- **In a loop** of a session: the store has integrity, and the scope around the loop and that of the
pass exist. -/
structure InLoop (enclosing scope : ScopeId) (m : Session) : Prop where
  integral : m.store.Integral (fun _ => True) m.rest.globals
  enclosing_lt : enclosing.index < m.store.scopes.size
  scope_lt : scope.index < m.store.scopes.size

variable {enclosing scope : ScopeId} {m m' : Session} {opens : ScopeId → Prop}

/-- **A run keeps a session in a loop,** and acts on its store through operations. -/
def Keeps (enclosing scope : ScopeId) (m m' : Session) : Prop :=
  InLoop enclosing scope m' ∧ ∃ ops, m'.store = m.store.replay ops

theorem InLoop.keeps_refl (h : InLoop enclosing scope m) : Keeps enclosing scope m m :=
  ⟨h, [], rfl⟩

theorem InLoop.keeps (h : InLoop enclosing scope m)
    (hperforms : Performs (fun _ => True) opens m m') : Keeps enclosing scope m m' := by
  obtain ⟨ops, hops, -, -⟩ := hperforms.history
  have hgrown := hperforms.grown.scopes_le
  exact ⟨⟨hperforms.integral h.integral, Nat.lt_of_lt_of_le h.enclosing_lt hgrown,
    Nat.lt_of_lt_of_le h.scope_lt hgrown⟩, ops, hops⟩

/-- The first scope of a loop. -/
theorem inLoop_beginning (hm : m.store.Integral (fun _ => True) m.rest.globals)
    (hscope : scope.index < m.store.scopes.size) :
    InLoop scope ⟨m.store.scopes.size⟩ (ForLoop.beginning scope m).machine := by
  have hsize : (m.store.newScope (some scope)).2.scopes.size = m.store.scopes.size + 1 :=
    Store.scopes_size_newScope m.store (some scope)
  constructor
  case integral => exact hm.newScope hscope
  case enclosing_lt => exact hsize ▸ Nat.lt_succ_of_lt hscope
  case scope_lt => exact hsize ▸ Nat.lt_succ_self _

/-- A copy of the scope is in the loop as well. -/
theorem InLoop.copied (h : InLoop enclosing scope m) {following : ScopeId} {s : Store}
    (hcopy : m.store.nextIteration enclosing scope = (following, s)) {c : Console}
    (hglobals : c.globals = m.rest.globals) : InLoop enclosing following ⟨s, c⟩ := by
  let op : Store.Operation := .opened enclosing (m.store.contents scope)
  obtain ⟨rfl, rfl⟩ := Prod.mk.inj ((m.store.nextIteration_eq enclosing scope).symm.trans hcopy)
  have hop : op.Lawful (fun _ => True) m.store :=
    ⟨h.enclosing_lt, h.integral.values.contents trivial scope⟩
  have hsize : (m.store.perform op).scopes.size = m.store.scopes.size + 1 := by
    change (m.store.openScope enclosing (m.store.contents scope)).scopes.size = _
    rw [Store.openScope, Store.scopes_size_declareAll, Store.scopes_size_newScope]
  constructor
  case integral =>
    rw [hglobals]
    exact h.integral.perform hop
  case enclosing_lt => exact hsize ▸ Nat.lt_succ_of_lt h.enclosing_lt
  case scope_lt => exact hsize ▸ Nat.lt_succ_self _

/-! ### The clauses of for statements -/

variable (host : Host) (room : Nat) (start : Option Stmt) (condition update : Option Expr)
  (body : Stmt)

/-- **The loop of a for statement** in some room. -/
def loopOf : ForLoop Console Interrupt :=
  forLoop host (fun cost => recurse .full (Evaluator.step host) room (cost - 1)) start condition
    update body

/-- The run of a for statement is the run of its loop. -/
theorem execute_forLoop (scope : ScopeId) :
    (recurse .full (Evaluator.step host) (room + 1) 0).execute
        (.forLoop start condition update body) scope =
      (loopOf host room start condition update body).run .unfinished host.passes scope := rfl

theorem reportsCopies_forLoop :
    (loopOf host room start condition update body).ReportsCopies := by
  intro scope m
  obtain ⟨events, hreport⟩ := reports_emitContents host scope m
  exact ⟨_, hreport⟩

theorem keeps_evaluate (h : InLoop enclosing scope m) (cost : Nat) (e : Expr) :
    Keeps enclosing scope m (Outcome.state
      ((recurse .full (Evaluator.step host) room cost).evaluate e scope m)) :=
  (outcome_evaluate h.integral h.scope_lt host room cost e).of_state (fun _ _ hm' => h.keeps hm')
    fun _ _ hm' => h.keeps hm'

theorem keeps_execute (h : InLoop enclosing scope m) (cost : Nat) (s : Stmt) :
    Keeps enclosing scope m (Outcome.state
      ((recurse .full (Evaluator.step host) room cost).execute s scope m)) :=
  (outcome_execute h.integral h.scope_lt host room cost s).of_state (fun _ _ hm' => h.keeps hm')
    fun _ _ hm' => h.keeps hm'

/-- **The clauses of a for statement** act through operations. -/
theorem acts_forLoop (enclosing : ScopeId) :
    (loopOf host room start condition update body).Acts enclosing (InLoop enclosing) := by
  constructor
  case effect =>
    -- each clause is an evaluation in the scope of the pass, or is absent and does nothing
    intro clause scope m h
    cases clause with
    | start =>
      cases start with
      | none => exact h.keeps_refl
      | some s => exact keeps_execute host room h 3 s
    | condition =>
      cases condition with
      | none => exact h.keeps_refl
      | some e => exact keeps_evaluate host room h 3 e
    | body => exact keeps_execute host room h 3 body
    | update =>
      cases update with
      | none => exact h.keeps_refl
      | some e =>
        have hkeeps := keeps_evaluate host room h 3 e
        rw [← Outcome.state_bind_pure _ fun _ => ()] at hkeeps
        exact hkeeps
  case copied =>
    intro scope m following s rest h hcopy hreport
    -- a report leaves the global scope where it is
    obtain ⟨events, hevents⟩ := reports_emitContents host following ⟨s, m.rest⟩
    obtain ⟨-, hmachine⟩ := EStateM.Result.ok.inj (hreport.symm.trans hevents)
    obtain rfl : rest = { m.rest with events := events } := congrArg Machine.rest hmachine
    exact h.copied hcopy rfl

/-- **A declaration as first clause** declares a name. -/
theorem declaresAtStart_forLoop (hm : m.store.Integral (fun _ => True) m.rest.globals)
    (hscope : scope.index < m.store.scopes.size) {s : Stmt} {name : String}
    (hs : s.declared? = some name) :
    (loopOf host room (some s) condition update body).DeclaresAtStart scope m := by
  have hfirst := inLoop_beginning hm hscope
  refine Outcome.mono (gains_declaration hfirst.integral hfirst.scope_lt host room 3 hs) ?_
    fun _ _ _ => trivial
  intro _ m' hgains hempty
  obtain ⟨c, hlookup, -⟩ := hgains.fresh
  rw [hempty] at hlookup
  contradiction

/-- **For statements** have their own variables in every pass. -/
theorem perPass_forLoop (hm : m.store.Integral (fun _ => True) m.rest.globals)
    (hscope : scope.index < m.store.scopes.size)
    (hdeclares : (loopOf host room start condition update body).DeclaresAtStart scope m) :
    (loopOf host room start condition update body).PerPass scope m (Outcome.state
      ((loopOf host room start condition update body).watched.run .unfinished host.passes scope
        (m.watched []))) := by
  exact (ForLoop.trail_run (reportsCopies_forLoop host room start condition update body) hdeclares
    .unfinished host.passes).perPass (acts_forLoop host room start condition update body scope)
      (inLoop_beginning hm hscope)

end Session

/-- **The passes of a loop have their own variables.** Let the clauses of a loop do what they like, as
long as they act on the store through operations; and let the first clause declare a name. Then, for
any number of passes and however the run ends, the scopes of the passes are different siblings that
share no cell, each begins as a copy of what the body before has left, and the loop itself writes no
cell, as `ForLoop.PerPass` has it. The record of the passes has no effect on the run.

The for statements of a session are such loops, in any store of integrity, if the first clause is a
declaration, or declares a name in another way. Neither an update nor a clause of a later pass is run
in a scope from which that of an earlier pass can be reached. And in all that happens in a session,
of which the journal has the verdicts and every operation on the store, the cells of a scope change
only through assignments in scopes that have it on their chain. -/
theorem loop_passes_apart :
    (∀ (ω ε : Type) (loop : ForLoop ω ε) (enclosing : ScopeId) (m : Machine ω) (gaveUp : ε)
        (passes : Nat), loop.ReportsCopies →
      (∀ clause scope m, ∃ ops, (loop.effect clause scope m).store = m.store.replay ops) →
      loop.DeclaresAtStart enclosing m →
      let result := loop.watched.run gaveUp passes enclosing (m.watched [])
      Outcome.project Machine.unwatched result = loop.run gaveUp passes enclosing m ∧
        loop.PerPass enclosing m (Outcome.state result)) ∧
    (∀ (host : Host) room start condition update body (m : Session) (scope : ScopeId),
      m.store.Integral (fun _ => True) m.rest.globals → scope.index < m.store.scopes.size →
      let loop := Session.loopOf host room start condition update body
      let result := loop.watched.run .unfinished host.passes scope (m.watched [])
      Outcome.project Machine.unwatched result =
        (recurse .full (Evaluator.step host) (room + 1) 0).execute
          (.forLoop start condition update body) scope m ∧
      ((∃ s name, start = some s ∧ s.declared? = some name) → loop.DeclaresAtStart scope m) ∧
      (loop.DeclaresAtStart scope m →
        loop.PerPass scope m (Outcome.state result) ∧
        (Outcome.state result).moments.Pairwise fun a b => a.IsOver → ∀ ops,
          a.scope ∉ (b.store.replay ops).chain b.scope)) ∧
    ∀ (host : Host) inputs,
      let (verdicts, m) := Journal.scribe.feedAll host inputs
      (verdicts, m.plain) = Session.feedAll host inputs ∧
      m.store = (Session.new host).store.replay m.operations ∧
      ∀ before between after, m.operations = before ++ between ++ after →
        let s := (Session.new host).store.replay before
        ∀ t, ∀ b ∈ s.bindings t, (s.replay between).cell b.2 ≠ s.cell b.2 →
          ∃ earlier scope name value later,
            between = earlier ++ .assigned scope name value :: later ∧
            (s.replay earlier).resolve scope name = some b.2 ∧
            t ∈ (s.replay earlier).chain scope := by
  refine ⟨?_, ?_, ?_⟩
  · intro ω ε loop enclosing m gaveUp passes hreports heffect hdeclares
    -- nothing is asked of the clauses but that they perform operations
    have hacts : loop.Acts enclosing fun _ _ => True :=
      ⟨fun clause scope m _ => ⟨trivial, heffect clause scope m⟩, fun _ _ _ _ _ _ _ _ => trivial⟩
    exact ⟨loop.watched_run gaveUp passes enclosing (m.watched []),
      (ForLoop.trail_run hreports hdeclares gaveUp passes).perPass hacts trivial⟩
  · intro host room start condition update body m scope hm hscope
    refine ⟨?_, ?_, ?_⟩
    · rw [Session.execute_forLoop]
      exact ForLoop.watched_run _ Interrupt.unfinished host.passes scope (m.watched [])
    · rintro ⟨s, name, rfl, hs⟩
      exact Session.declaresAtStart_forLoop host room condition update body hm hscope hs
    · intro hdeclares
      have hperPass :=
        Session.perPass_forLoop host room start condition update body hm hscope hdeclares
      exact ⟨hperPass, hperPass.notMem_chain hm.ordered hscope⟩
  · intro host inputs
    obtain ⟨hm, -⟩ := Journal.sound_session host inputs
    refine ⟨Journal.scribe.feedAll_plain host inputs, hm.store_eq, ?_⟩
    intro before between after hops s t b hb hchanged
    -- the operations of a session are lawful, and only an assignment changes a cell
    have hlawful := hm.lawful
    rw [show (Journal.scribe.feedAll host inputs).2.operations = _ from hops,
      List.append_assoc] at hlawful
    have hintegral : ((Session.new host).store.replay before).Integral (fun _ => True)
        (Session.new host).rest.globals :=
      (Session.integral_new host _).replay hlawful.of_append
    exact hintegral.exists_assigned hb hchanged

/-- Clauses that declare and assign a name, for three passes; a for statement without an end, in a
fresh session; and a session in which a variable is declared and assigned. -/
theorem loop_passes_apart_assigned :
    (let loop : ForLoop Unit Unit :=
      { start := some fun scope => Action.onStore fun s =>
          ((), s.perform (.declared scope "i" .nil false))
        condition := none
        update := none
        body := fun scope => Action.onStore fun s =>
          ((), s.perform (.assigned scope "i" (.bool true)))
        copied := fun _ => pure () }
    let m : Machine Unit := ⟨(Store.empty.newScope none).2, ()⟩
    loop.PerPass ⟨0⟩ m (Outcome.state (loop.watched.run () 3 ⟨0⟩ (m.watched [])))) ∧
    (let m := Session.new Host.standard
    let loop := Session.loopOf Host.standard 9
      (some (.variable ⟨.identifier, "i", none, 9, 1⟩ none false)) none none (.block [])
    loop.PerPass m.rest.globals m (Outcome.state
      (loop.watched.run .unfinished Host.standard.passes m.rest.globals (m.watched [])))) ∧
    let s := (Session.new Host.standard).store.replay [.declared ⟨0⟩ "i" .nil false]
    ∃ earlier scope name value later,
      [.assigned ⟨0⟩ "i" (.bool true)] = earlier ++ .assigned scope name value :: later ∧
      (s.replay earlier).resolve scope name = some ⟨1⟩ ∧ ⟨0⟩ ∈ (s.replay earlier).chain scope := by
  refine ⟨?_, ?_, ?_⟩
  · intro loop m
    have heffect : ∀ clause scope m, ∃ ops,
        (loop.effect clause scope m).store = m.store.replay ops := by
      intro clause scope m
      cases clause with
      | start => exact ⟨[.declared scope "i" .nil false], rfl⟩
      | condition => exact ⟨[], rfl⟩
      | body => exact ⟨[.assigned scope "i" (.bool true)], rfl⟩
      | update => exact ⟨[], rfl⟩
    have hdeclares : loop.DeclaresAtStart ⟨0⟩ m := List.cons_ne_nil _ _
    exact (loop_passes_apart.1 Unit Unit loop ⟨0⟩ m () 3 (fun _ m => ⟨m.rest, rfl⟩) heffect
      hdeclares).2
  · have hm := Session.integral_new Host.standard fun _ => True
    obtain ⟨-, hdeclares, hpasses⟩ := loop_passes_apart.2.1 Host.standard 9
      (some (.variable ⟨.identifier, "i", none, 9, 1⟩ none false)) none none (.block [])
      (Session.new .standard) _ hm hm.globals_lt
    exact (hpasses (hdeclares ⟨_, "i", rfl, rfl⟩)).1
  · let i : Token := ⟨.identifier, "i", none, 0, 1⟩
    obtain ⟨-, -, hchanged⟩ := loop_passes_apart.2.2 Host.standard
      [.tree (.variable i none false), .tree (.expression (.assign i (.literal (.bool true))))]
    refine hchanged [.declared ⟨0⟩ "i" .nil false] [.assigned ⟨0⟩ "i" (.bool true)] [] rfl ⟨0⟩
      ("i", ⟨1⟩) ?_ ?_
    · exact List.mem_cons_of_mem _ List.mem_cons_self
    · exact fun hsame => nomatch congrArg Cell.value hsame

end Lox
