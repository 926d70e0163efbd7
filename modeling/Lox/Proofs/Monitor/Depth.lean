import Lox.Proofs.Monitor.Sessions
import Lox.Proofs.Scribe.Erasure

/-!
# Calls in progress

A session counts its calls in progress, and the count is right at every moment: a call adds one to it
for as long as it lasts, however it ends. So a run leaves the count as it was, the limit is exact, and
between two inputs of a session the count is nought.

* `Monitor.CountsRight` — a run whose count is right from its beginning to its end;
* `Monitor.countsRight_evaluate`, `Monitor.countsRight_execute` — runs in any state within the limit;
* `Session.scopes_lt_invoke` — the call of a closure leaves a trace in the store;
* `Session.call_refused_iff` — the limit is exact, `evaluate_call` with a callee and arguments;
* `call_depth_exact` — runs, calls, and sessions.
-/

namespace Lox

namespace Monitor

/-- The premises of a run about whose nodes nothing is known. -/
def Premises.anywhere (base : Nat) : Premises := ⟨base, fun _ _ => True, fun _ _ _ _ _ _ => trivial⟩

theorem vouched_anywhere (base : Nat) (m : Monitor) (v : Value) : Vouched (.anywhere base) m v := by
  cases v with
  | closure f => exact .inl fun _ _ => trivial
  | literal value => trivial
  | native f => trivial

/-- A session within the limit is ready for a run. -/
theorem ready_ofSession {m : Session} (h : m.rest.frames ≤ maxFrames) :
    Ready (.anywhere m.rest.frames) (ofSession m) where
  counted := ⟨rfl, h⟩
  seen _ hs := absurd hs List.not_mem_nil
  vouched _ _ := vouched_anywhere _ _ _
  blameless := rfl

/-- **The count is right throughout a run** from a session. The monitor has no effect on the run,
which leaves the count as it was; and whenever something begins or ends, the count has grown by the
number of calls that are in progress, and is within the limit. -/
def CountsRight {α : Type} (m : Session) (rich : Monitored α) (plain : Exec α) : Prop :=
  Outcome.project Machine.plain (rich (ofSession m)) = plain m ∧
    (Outcome.state (plain m)).rest.frames = m.rest.frames ∧
    ∀ s ∈ (Outcome.state (rich (ofSession m))).notes.snapshots,
      s.session.rest.frames = m.rest.frames + callsIn s.active ∧ s.session.rest.frames ≤ maxFrames

/-- **A run that is watched** counts right. -/
theorem Runs.countsRight {α : Type} {m : Session} {done : α → Monitor → Prop}
    {new : RuntimeError → Prop} {rich : Monitored α} {plain : Exec α}
    (h : Runs (.anywhere m.rest.frames) (ofSession m) done new rich)
    (hprojects : Projects Machine.plain rich plain) : CountsRight m rich plain := by
  have hplain : Outcome.project Machine.plain (rich (ofSession m)) = plain m := hprojects (ofSession m)
  have hend : Sound (.anywhere m.rest.frames) (Outcome.state (rich (ofSession m))) ∧
      Later (ofSession m) (Outcome.state (rich (ofSession m))) :=
    Outcome.of_state (P := fun m' => Sound (.anywhere m.rest.frames) m' ∧ Later (ofSession m) m') h
      (fun _ m' ha => ⟨ha.1.toSound, ha.2.1⟩) fun _ m' he => ⟨he.1, he.2.1⟩
  refine ⟨hplain, ?_, hend.1.seen⟩
  -- nothing is in progress before the run, and so nothing is after it
  have hcount := hend.1.counted.1
  rw [show (Outcome.state (rich (ofSession m))).notes.active = [] from hend.2.active_eq] at hcount
  rw [← hplain, Outcome.state_project]
  exact hcount

section Evaluators

variable (host : Host) (room cost : Nat) (scope : ScopeId) {m : Session}
  (h : m.rest.frames ≤ maxFrames)

include h

/-- **Expressions.** -/
theorem countsRight_evaluate (chunk : Nat) (e : Expr) :
    CountsRight m ((scribe.evaluator host room cost).evaluate chunk e scope)
      ((recurse .full (Lox.Evaluator.step host) room cost).evaluate e scope) :=
  ((watched_evaluator host room cost).evaluate (ready_ofSession h) trivial).countsRight
    ((scribe.follows_evaluator host room cost).evaluate chunk e scope)

/-- **Statements.** -/
theorem countsRight_execute (chunk : Nat) (s : Stmt) :
    CountsRight m ((scribe.evaluator host room cost).execute chunk s scope)
      ((recurse .full (Lox.Evaluator.step host) room cost).execute s scope) :=
  ((watched_evaluator host room cost).execute (ready_ofSession h) trivial).countsRight
    ((scribe.follows_evaluator host room cost).execute chunk s scope)

/-- **Arguments.** -/
theorem countsRight_evaluateAll (es : List Expr) :
    CountsRight m
      (Steps.evaluateAll scribe.next
        (fun chunk e => (scribe.evaluator host room cost).evaluate chunk e scope) 0 es)
      (evaluateAll
        (fun e => (recurse .full (Lox.Evaluator.step host) room cost).evaluate e scope) es) := by
  have hruns : Runs (.anywhere m.rest.frames) (ofSession m)
      (fun vs m' => ∀ v ∈ vs, Accepted (.anywhere m.rest.frames) v m') (fun _ => False)
      (Steps.evaluateAll scribe.next
        (fun chunk e => (scribe.evaluator host room cost).evaluate chunk e scope) 0 es) :=
    runs_evaluateAll (watched_evaluator host room cost) (fun _ _ => trivial) (ready_ofSession h)
  exact hruns.countsRight
    (Scribe.projects_evaluateAll (scribe.follows_evaluator host room cost) scribe.next 0 scope es)

end Evaluators

end Monitor

/-! ### Calls -/

/-- The evaluators that a node with one unit of room more gives to its parts. -/
def Evaluator.inner (host : Host) (room : Nat) : Nat → Evaluator :=
  fun cost => recurse .full (.step host) room (cost - 1)

namespace Session

/-- **The body of a function** gives up no scope. -/
theorem scopes_le_body (host : Host) (room : Nat) (f : Closure) (arguments : List Value)
    (activation : ScopeId) {m : Session} (h : m.rest.frames ≤ maxFrames) :
    m.store.scopes.size ≤
      (Outcome.state ((callHooks host (Evaluator.inner host room)).body f arguments activation
        m)).store.scopes.size := by
  -- the body is watched, on premises that any tree meets
  let rich (cost : Nat) : Monitor.Evaluator := Monitor.scribe.evaluator host room (cost - 1)
  have hruns : Monitor.Runs (.anywhere m.rest.frames) (Monitor.ofSession m)
      (Monitor.Accepted (.anywhere m.rest.frames)) (fun _ => False)
      (((Monitor.scribe.steps host).callHooks host rich).body f arguments activation) :=
    Monitor.runs_body (fun cost => Monitor.watched_evaluator host room (cost - 1))
      (Monitor.ready_ofSession h) (Monitor.vouched_anywhere _ _ _) arguments activation
  have hprojects : Outcome.project Machine.plain
        (((Monitor.scribe.steps host).callHooks host rich).body f arguments activation
          (Monitor.ofSession m)) =
      (callHooks host (Evaluator.inner host room)).body f arguments activation m :=
    Scribe.projects_body (fun cost => Monitor.scribe.follows_evaluator host room (cost - 1)) f
      arguments activation (Monitor.ofSession m)
  rw [← hprojects, Outcome.state_project]
  exact Outcome.of_state (P := fun m' : Monitor => m.store.scopes.size ≤ m'.store.scopes.size) hruns
    (fun _ _ ha => ha.2.1.grown.scopes_le) fun _ _ he => he.2.1.grown.scopes_le

/-- **The call of a closure** leaves a trace: its activation is a new scope. -/
theorem scopes_lt_invoke (host : Host) (room : Nat) (f : Closure) {arguments : List Value}
    (harity : arguments.length = f.arity) {m : Session} (h : m.rest.frames ≤ maxFrames) :
    m.store.scopes.size <
      (Outcome.state (invoke (callHooks host (Evaluator.inner host room)) (.closure f) arguments
        m)).store.scopes.size := by
  let activated : Session := ⟨(m.store.activate f arguments).2, m.rest⟩
  have hactivated : activated.store.scopes.size = m.store.scopes.size + 1 := by
    change ((m.store.newScope (some f.scope)).2.declareAll _ _).scopes.size = _
    rw [Store.scopes_size_declareAll, Store.scopes_size_newScope]
  -- the activation is one more scope, and the body gives up none
  have hbody := scopes_le_body host room f arguments (m.store.activate f arguments).1
    (m := activated) h
  rw [hactivated] at hbody
  have hinvoke : invoke (callHooks host (Evaluator.inner host room)) (.closure f) arguments m =
      (callHooks host (Evaluator.inner host room)).body f arguments (m.store.activate f arguments).1
        activated := by
    unfold invoke
    simp only [harity, if_true]
    rfl
  rw [hinvoke]
  exact hbody

/-- **The cause of a failure** inside a call is the cause of the failure of the call. -/
theorem cause_of_inFrame {α : Type} {line : Int} {act : Exec α} {m m' : Session} {e : RuntimeError}
    (h : Exec.inFrame (Exec.located line act) m = .error (.failed e) m') :
    ∃ e' m'', act ⟨m.store, { m.rest with frames := m.rest.frames + 1 }⟩ = .error (.failed e') m'' ∧
      e'.cause = e.cause := by
  obtain ⟨s, rest⟩ := m
  unfold Exec.inFrame Exec.located at h
  cases hact : act ⟨s, { rest with frames := rest.frames + 1 }⟩ with
  | ok a m'' =>
    simp only [hact] at h
    contradiction
  | error i m'' =>
    simp only [hact] at h
    -- only errors get a line; all other interrupts pass as they are
    cases i with
    | failed e' =>
      injection h with hinterrupt
      injection hinterrupt with herror
      refine ⟨e', m'', rfl, ?_⟩
      rw [← herror]
      rfl
    | returning v => cases h
    | misplaced description => cases h
    | unfinished => cases h

/-- **What a call refuses** is called with the wrong number of arguments, or is no function. -/
theorem cause_of_refused {hooks : CallHooks Console Interrupt}
    (hrefuse : hooks.refuse = fun cause => .failed ⟨cause, none⟩) {f : Value} {arguments : List Value}
    {m m' : Session} {e : RuntimeError} (hfits : ∀ g, f = .native g → arguments.length ≠ g.arity)
    (hfits' : ∀ g, f = .closure g → arguments.length ≠ g.arity)
    (h : invoke hooks f arguments m = .error (.failed e) m') : e.cause ≠ .callDepthExceeded := by
  have hother : ∀ {cause}, (.error (.failed ⟨cause, none⟩) m :
      EStateM.Result Interrupt Session Value) = .error (.failed e) m' →
        cause ≠ .callDepthExceeded → e.cause ≠ .callDepthExceeded := by
    intro cause h hcause
    injection h with hinterrupt
    injection hinterrupt with herror
    rw [← herror]
    exact hcause
  unfold invoke at h
  rw [hrefuse] at h
  cases f with
  | literal value => exact hother h Cause.noConfusion
  | native g =>
    simp only [if_neg (hfits g rfl)] at h
    exact hother h Cause.noConfusion
  | closure g =>
    simp only [if_neg (hfits' g rfl)] at h
    exact hother h Cause.noConfusion

/-- **A call below the limit** is not refused for its depth: where it fails for this reason, a closure
has been invoked and has failed, and this has changed the store. -/
theorem inFrame_ne_callDepthExceeded (host : Host) (room : Nat) (line : Int) (f : Value)
    (arguments : List Value) {m : Session} (h : m.rest.frames < maxFrames) (line' : Option Int) :
    Exec.inFrame (Exec.located line
        (invoke (callHooks host (Evaluator.inner host room)) f arguments)) m ≠
      .error (.failed ⟨.callDepthExceeded, line'⟩) m := by
  intro heq
  obtain ⟨e, m', hinvoke, hcause⟩ := cause_of_inFrame heq
  -- what is called but not invoked is refused for another reason
  have hrefused : (∀ g, f = .native g → arguments.length ≠ g.arity) →
      (∀ g, f = .closure g → arguments.length ≠ g.arity) → False :=
    fun hnative hclosure => cause_of_refused rfl hnative hclosure hinvoke hcause
  cases f with
  | literal value => exact hrefused nofun nofun
  | native g =>
    by_cases harity : arguments.length = g.arity
    · -- the clock does not fail
      unfold invoke at hinvoke
      simp only [harity, if_true] at hinvoke
      obtain ⟨events, hemit⟩ := reports_emit host (fun _ => .called (.native g) arguments)
        ⟨m.store, { m.rest with frames := m.rest.frames + 1 }⟩
      change EStateM.bind _ _ _ = _ at hinvoke
      rw [EStateM.bind, hemit] at hinvoke
      contradiction
    · exact hrefused (fun g' hg => Value.native.inj hg ▸ harity) nofun
  | closure g =>
    by_cases harity : arguments.length = g.arity
    · -- the activation is still there, so that the store would have changed
      have hscopes := scopes_lt_invoke host room g harity
        (m := ⟨m.store, { m.rest with frames := m.rest.frames + 1 }⟩) h
      rw [← Exec.state_located line, ← Exec.state_inFrame, heq] at hscopes
      exact Nat.lt_irrefl _ hscopes
    · exact hrefused nofun fun g' hg => Value.closure.inj hg ▸ harity

/-- **A call is refused for its depth** exactly at the limit, and invoked below it. -/
theorem call_refused_iff (host : Host) (room : Nat) (paren : Token) (f : Value)
    (arguments : List Value) {m : Session} (h : m.rest.frames ≤ maxFrames) :
    ((∃ line, call host (Evaluator.inner host room) paren f arguments m =
        .error (.failed ⟨.callDepthExceeded, line⟩) m) ↔ m.rest.frames = maxFrames) ∧
    (m.rest.frames ≠ maxFrames → call host (Evaluator.inner host room) paren f arguments m =
      Exec.inFrame (Exec.located paren.line
        (invoke (callHooks host (Evaluator.inner host room)) f arguments)) m) := by
  have hcall : call host (Evaluator.inner host room) paren f arguments m =
      (if m.rest.frames = maxFrames
        then (Exec.fail .callDepthExceeded (some paren.line) : Exec Value)
        else Exec.inFrame (Exec.located paren.line
          (invoke (callHooks host (Evaluator.inner host room)) f arguments))) m := rfl
  by_cases hlimit : m.rest.frames = maxFrames
  · rw [if_pos hlimit] at hcall
    exact ⟨iff_of_true ⟨some paren.line, hcall⟩ hlimit, fun hbelow => absurd hlimit hbelow⟩
  · rw [if_neg hlimit] at hcall
    refine ⟨iff_of_false (fun ⟨line, hline⟩ => ?_) hlimit, fun _ => hcall⟩
    have hbelow : m.rest.frames < maxFrames := by omega
    exact inFrame_ne_callDepthExceeded host room paren.line f arguments hbelow line
      (hcall.symm.trans hline)

end Session

/-- **A call whose callee and arguments have values** has the outcome of `call` with these values. -/
theorem evaluate_call {host : Host} {room : Nat} {callee : Expr} {paren : Token}
    {arguments : List Expr} {scope : ScopeId} {m m₁ m₂ : Session} {f : Value} {vs : List Value}
    (hcallee : (recurse .full (Evaluator.step host) room 0).evaluate callee scope m = .ok f m₁)
    (harguments : evaluateAll
      (fun e => (recurse .full (Evaluator.step host) room 1).evaluate e scope) arguments m₁ =
        .ok vs m₂) :
    (recurse .full (Evaluator.step host) (room + 1) 0).evaluate (.call callee paren arguments) scope m =
      call host (Evaluator.inner host room) paren f vs m₂ := by
  change evaluateStep host (Evaluator.inner host room) (.call callee paren arguments) scope m = _
  rw [evaluateStep_call]
  change EStateM.bind ((recurse .full (Evaluator.step host) room 0).evaluate callee scope) _ m = _
  rw [EStateM.bind, hcallee]
  change EStateM.bind (evaluateAll
    (fun e => (recurse .full (Evaluator.step host) room 1).evaluate e scope) arguments) _ m₁ = _
  rw [EStateM.bind, harguments]

/-- **The number of calls in progress is exact.** In a session within the limit:

* Every run of an expression or a statement, in whatever scope and with whatever outcome, leaves the
  count as it was; and whenever a node or a call begins or ends, the count is the number of calls that
  are in progress, and within the limit.
* A call whose callee and arguments have values is refused for its depth, without being invoked, if and
  only if the limit is reached when it begins, at which moment the calls inside its arguments are over.
* In a whole session the count is right all the time, and it is nought behind every input. -/
theorem call_depth_exact (host : Host) :
    (∀ room chunk (m : Session) scope, m.rest.frames ≤ maxFrames →
      (∀ e, Monitor.CountsRight m
        ((Monitor.scribe.evaluator host room 0).evaluate chunk e scope)
        ((recurse .full (Evaluator.step host) room 0).evaluate e scope)) ∧
      ∀ s, Monitor.CountsRight m
        ((Monitor.scribe.evaluator host room 0).execute chunk s scope)
        ((recurse .full (Evaluator.step host) room 0).execute s scope)) ∧
    (∀ room (m m₁ m₂ : Session) scope callee paren arguments f vs, m.rest.frames ≤ maxFrames →
      (recurse .full (Evaluator.step host) room 0).evaluate callee scope m = .ok f m₁ →
      evaluateAll (fun e => (recurse .full (Evaluator.step host) room 1).evaluate e scope) arguments
        m₁ = .ok vs m₂ →
      let result := (recurse .full (Evaluator.step host) (room + 1) 0).evaluate
        (.call callee paren arguments) scope m
      m₂.rest.frames = m.rest.frames ∧
      ((∃ line, result = .error (.failed ⟨.callDepthExceeded, line⟩) m₂) ↔
        m.rest.frames = maxFrames) ∧
      (m.rest.frames ≠ maxFrames → result = Exec.inFrame (Exec.located paren.line
        (invoke (callHooks host (Evaluator.inner host room)) f vs)) m₂)) ∧
    ∀ inputs,
      Prod.map id Machine.plain (Monitor.scribe.feedAll host inputs) = Session.feedAll host inputs ∧
      (∀ s ∈ (Monitor.scribe.feedAll host inputs).2.notes.snapshots,
        s.session.rest.frames = callsIn s.active ∧ s.session.rest.frames ≤ maxFrames) ∧
      (Session.feedAll host inputs).2.rest.frames = 0 := by
  refine ⟨?_, ?_, ?_⟩
  · intro room chunk m scope h
    exact ⟨fun e => Monitor.countsRight_evaluate host room 0 scope h chunk e,
      fun s => Monitor.countsRight_execute host room 0 scope h chunk s⟩
  · intro room m m₁ m₂ scope callee paren arguments f vs h hcallee harguments result
    have hresult : result = call host (Evaluator.inner host room) paren f vs m₂ :=
      evaluate_call hcallee harguments
    -- the calls inside the callee and the arguments are over
    have h₁ : m₁.rest.frames = m.rest.frames := by
      have hcounts := (Monitor.countsRight_evaluate host room 0 scope h 0 callee).2.1
      rwa [hcallee] at hcounts
    have h₂ : m₂.rest.frames = m.rest.frames := by
      have hcounts := (Monitor.countsRight_evaluateAll host room 1 scope (h₁ ▸ h) arguments).2.1
      rw [harguments] at hcounts
      exact hcounts.trans h₁
    rw [hresult, ← h₂]
    exact ⟨rfl, Session.call_refused_iff host room paren f vs (h₂ ▸ h)⟩
  · intro inputs
    -- between inputs nothing is in progress, so that the count is nought
    obtain ⟨hsound, hactive⟩ := Monitor.sound_session host inputs []
    have hplain := Monitor.scribe.feedAll_plain host inputs
    refine ⟨hplain, fun s hs => ?_, ?_⟩
    · have hseen := hsound.seen s hs
      exact ⟨hseen.1.trans (Nat.zero_add _), hseen.2⟩
    · have hcount := hsound.counted.1
      rw [hactive] at hcount
      rw [← hplain]
      exact hcount

/-- A call of the clock at the limit. -/
theorem call_depth_exact_clock :
    let name : Token := ⟨.identifier, "clock", none, 0, 1⟩
    let paren : Token := ⟨.leftParen, "(", none, 5, 1⟩
    let m : Session := ⟨(Session.new .standard).store, ⟨⟨0⟩, maxFrames, "", [], 0⟩⟩
    (∃ line, (recurse .full (Evaluator.step .standard) 2 0).evaluate (.call (.variable name) paren [])
      ⟨0⟩ m = .error (.failed ⟨.callDepthExceeded, line⟩) m) ∧
    Monitor.CountsRight m
      ((Monitor.scribe.evaluator .standard 2 0).evaluate 0
        (.call (.variable name) paren []) ⟨0⟩)
      ((recurse .full (Evaluator.step .standard) 2 0).evaluate
        (.call (.variable name) paren []) ⟨0⟩) := by
  intro name paren m
  refine ⟨?_, ((call_depth_exact .standard).1 2 0 m ⟨0⟩ (Nat.le_refl _)).1 _⟩
  obtain ⟨-, hrefused, -⟩ := (call_depth_exact .standard).2.1 1 m m m ⟨0⟩ (.variable name) paren []
    (.native ⟨0, "clock", 0⟩) [] (Nat.le_refl _) rfl rfl
  exact hrefused.2 rfl

end Lox
