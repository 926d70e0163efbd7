import Lox.Proofs.Monitor.Monitor
import Lox.Proofs.Outcome
import Lox.Proofs.SmallSteps
import Lox.Proofs.Store.Growth

/-!
# What a monitor sees

However a run ends, all that it began has ended with it: the same activities are in progress as before,
and in every snapshot the count of the session is the number of calls in progress. A function is made
of nodes of the input in which it was made. And an error that leaves a node has the line of a token of
the node that it was the first to leave.

* `Node.Blames` — the token of a node that a cause blames;
* `Monitor.Sound` — what holds at every moment, `Monitor.Later` from one moment to a later one;
* `Monitor.Runs` — a run, with one rule for every way in which runs are put together.
-/

namespace Lox

/-! ### Whom an error blames -/

/-- **The token that is to blame** for a failure of a node itself: the name, the operator, or the
parenthesis of a call. -/
inductive Node.Blames : Node → Cause → Token → Prop
  | read (name : Token) : Blames (.expr (.variable name)) (.undefinedVariable name.lexeme) name
  | target (name : Token) (value : Expr) :
    Blames (.expr (.assign name value)) (.undefinedVariable name.lexeme) name
  | constant (name : Token) (value : Expr) :
    Blames (.expr (.assign name value)) (.constAssignment name.lexeme) name
  | operand (operator : Token) (right : Expr) {cause : Cause} (h : cause.category = .operand) :
    Blames (.expr (.unary operator right)) cause operator
  | operands (left : Expr) (operator : Token) (right : Expr) {cause : Cause}
    (h : cause.category = .operand) : Blames (.expr (.binary left operator right)) cause operator
  | arity (callee : Expr) (paren : Token) (arguments : List Expr) (name : String)
    (expected got : Int) :
    Blames (.expr (.call callee paren arguments)) (.arityMismatch name expected got) paren
  | notCallable (callee : Expr) (paren : Token) (arguments : List Expr) :
    Blames (.expr (.call callee paren arguments)) .notCallable paren
  | depth (callee : Expr) (paren : Token) (arguments : List Expr) :
    Blames (.expr (.call callee paren arguments)) .callDepthExceeded paren

/-- **The node accounts for the error:** the error has the line of the token that is to blame. Where the
host has no room left no token is. -/
def Node.Accounts (node : Node) (e : RuntimeError) : Prop :=
  e.cause = .roomExhausted ∨ ∃ t, node.Blames e.cause t ∧ e.line = some t.line

namespace Monitor

/-- **Premises** of a run: how many calls there are in progress that the monitor does not know of, and
which nodes come from which input. -/
structure Premises where
  base : Nat
  fits : Nat → Node → Prop
  inherited : ∀ chunk node i part, fits chunk node → node.part i = some part → fits chunk part

variable {T : Premises} {m m' m'' : Monitor}

/-! ### The invariant -/

/-- **Values that are vouched for.** A function has been made, of nodes of the input in which it was
made; which is no condition at all where all nodes fit. -/
def Vouched (T : Premises) (m : Monitor) : Value → Prop
  | .closure f => (∀ chunk node, T.fits chunk node) ∨
      f.identity < m.store.functions ∧ ∀ s ∈ f.body, T.fits (m.notes.birth f.identity) (.stmt s)
  | _ => True

/-- **The count is right:** it is the number of calls in progress, and within the limit. -/
def Counted (T : Premises) (active : List Activity) (session : Session) : Prop :=
  session.rest.frames = T.base + callsIn active ∧ session.rest.frames ≤ maxFrames

/-- **The invariant.** -/
structure Sound (T : Premises) (m : Monitor) : Prop where
  /-- The count is right now, -/
  counted : Counted T m.notes.active m.plain
  /-- and it was right whenever something began or ended. -/
  seen : ∀ s ∈ m.notes.snapshots, Counted T s.active s.session
  /-- All values in cells are vouched for. -/
  vouched : m.store.Keeps (Vouched T m)

/-- **Ready for a run:** no node has been blamed. -/
structure Ready (T : Premises) (m : Monitor) : Prop extends Sound T m where
  blameless : m.notes.culprit = none

/-- **Later moments** with the same activities in progress. -/
structure Later (m m' : Monitor) : Prop where
  grown : m.store.Grown m'.store
  /-- Functions stay where they were made. -/
  birth_eq : ∀ i < m.store.functions, m'.notes.birth i = m.notes.birth i
  active_eq : m'.notes.active = m.notes.active

theorem Later.refl (m : Monitor) : Later m m := ⟨.refl _, fun _ _ => rfl, rfl⟩

theorem Later.trans (h : Later m m') (h' : Later m' m'') : Later m m'' where
  grown := h.grown.trans h'.grown
  birth_eq i hi :=
    (h'.birth_eq i (Nat.lt_of_lt_of_le hi h.grown.functions_le)).trans (h.birth_eq i hi)
  active_eq := h'.active_eq.trans h.active_eq

instance : Trans Later Later Later := ⟨.trans⟩

theorem Vouched.later {v : Value} (hv : Vouched T m v) (h : Later m m') : Vouched T m' v := by
  cases v with
  | closure f =>
    refine Or.imp_right (fun ⟨hidentity, hbody⟩ => ?_) hv
    refine ⟨Nat.lt_of_lt_of_le hidentity h.grown.functions_le, ?_⟩
    rwa [h.birth_eq f.identity hidentity]
  | literal value => trivial
  | native f => trivial

/-- The body of a function that is vouched for. -/
theorem Vouched.body {f : Closure} (hf : Vouched T m (.closure f)) :
    ∀ s ∈ f.body, T.fits (m.notes.birth f.identity) (.stmt s) := by
  obtain hall | ⟨-, hbody⟩ := hf
  · exact fun s _ => hall _ _
  · exact hbody

theorem vouched_of_literal {v : Value} (h : ∃ l, v = .literal l) : Vouched T m v := by
  obtain ⟨l, rfl⟩ := h
  trivial

/-- **A step that takes no notes** and leaves the calls in progress alone. -/
theorem Ready.of_store (hm : Ready T m) {s : Session}
    (hframes : s.rest.frames = m.rest.console.frames) (hgrown : m.store.Grown s.store)
    (hvouched : s.store.Keeps (Vouched T m)) :
    Ready T (s.noted m.notes) ∧ Later m (s.noted m.notes) := by
  have hlater : Later m (s.noted m.notes) := ⟨hgrown, fun _ _ => rfl, rfl⟩
  have hcounted : Counted T m.notes.active s := by
    unfold Counted
    rw [hframes]
    exact hm.counted
  exact ⟨⟨⟨hcounted, hm.seen, hvouched.mono fun _ hv => hv.later hlater⟩, hm.blameless⟩, hlater⟩

/-! ### Beginnings and ends -/

@[simp] theorem callsIn_call (paren : Token) (active : List Activity) :
    callsIn (.call paren :: active) = callsIn active + 1 := List.countP_cons_of_pos rfl

theorem callsIn_cons {a : Activity} (hnode : a.isCall = false) (active : List Activity) :
    callsIn (a :: active) = callsIn active := List.countP_cons_of_neg (by simp [hnode])

/-- A node begins. -/
theorem Ready.begun (hm : Ready T m) (chunk : Nat) (node : Node) :
    Ready T (begin m (.node chunk node)) where
  counted := hm.counted
  seen := List.forall_mem_cons.2 ⟨hm.counted, hm.seen⟩
  vouched := hm.vouched
  blameless := hm.blameless

/-- **A call begins** below the limit. -/
theorem Ready.entered (hm : Ready T m) (hroom : m.rest.console.frames ≠ maxFrames) (paren : Token) :
    Ready T (begin m.entered (.call paren)) := by
  obtain ⟨hcount, hle⟩ := hm.counted
  have hcounted : Counted T (.call paren :: m.notes.active) m.entered.plain := by
    change m.rest.console.frames + 1 = _ ∧ m.rest.console.frames + 1 ≤ maxFrames
    rw [callsIn_call]
    change m.rest.console.frames = _ at hcount
    change m.rest.console.frames ≤ maxFrames at hle
    omega
  exact ⟨⟨hcounted, List.forall_mem_cons.2 ⟨hcounted, hm.seen⟩, hm.vouched⟩, hm.blameless⟩

/-- **What began has ended.** -/
theorem Sound.finished (hm' : Sound T m') {a : Activity} (hlater : Later (begin m a) m')
    (hnode : a.isCall = false) : Sound T (finish m') ∧ Later m (finish m') := by
  have hactive : m'.notes.active = a :: m.notes.active := hlater.active_eq
  have hcounted : Counted T m'.notes.active.tail m'.plain := by
    have hcounted := hm'.counted
    unfold Counted at hcounted ⊢
    rw [hactive, callsIn_cons hnode] at hcounted
    rwa [hactive, List.tail_cons]
  exact ⟨⟨hcounted, List.forall_mem_cons.2 ⟨hm'.counted, hm'.seen⟩, hm'.vouched⟩, hlater.grown,
    hlater.birth_eq, congrArg List.tail hactive⟩

/-- **A call has ended.** -/
theorem Sound.left (hm' : Sound T m') {paren : Token}
    (hlater : Later (begin m.entered (.call paren)) m') :
    Sound T ((finish m').left) ∧ Later m ((finish m').left) := by
  have hactive : m'.notes.active = .call paren :: m.notes.active := hlater.active_eq
  have hcounted : Counted T m'.notes.active.tail (finish m').left.plain := by
    obtain ⟨hcount, hle⟩ := hm'.counted
    rw [hactive, callsIn_call] at hcount
    rw [hactive, List.tail_cons]
    change m'.rest.console.frames = _ at hcount
    change m'.rest.console.frames ≤ maxFrames at hle
    change m'.rest.console.frames - 1 = T.base + callsIn m.notes.active ∧
      m'.rest.console.frames - 1 ≤ maxFrames
    omega
  exact ⟨⟨hcounted, List.forall_mem_cons.2 ⟨hm'.counted, hm'.seen⟩, hm'.vouched⟩, hlater.grown,
    hlater.birth_eq, congrArg List.tail hactive⟩

/-! ### What a run does -/

variable {α β : Type}

/-- **What an error has come to** behind a node: the culprit is known, and accounts for it. -/
def Explained (T : Premises) (m : Monitor) : Interrupt → Prop
  | .failed e => ∃ chunk node, m.notes.culprit = some (chunk, node) ∧ T.fits chunk node ∧
      node.Accounts e
  | .returning v => m.notes.culprit = none ∧ Vouched T m v
  | _ => m.notes.culprit = none

/-- **How a run is interrupted:** with what some node inside has let out, or with an error that is
`new` and has left no node yet. -/
def Leaves (T : Premises) (new : RuntimeError → Prop) (m : Monitor) (e : Interrupt) : Prop :=
  Explained T m e ∨ m.notes.culprit = none ∧ ∃ err, e = .failed err ∧ new err

/-- **A run that is watched.** `done` is said of its result. -/
def Runs (T : Premises) (m : Monitor) (done : α → Monitor → Prop) (new : RuntimeError → Prop)
    (act : Monitored α) : Prop :=
  Outcome (fun a m' => Ready T m' ∧ Later m m' ∧ done a m')
    (fun e m' => Sound T m' ∧ Later m m' ∧ Leaves T new m' e) (act m)

variable {done : α → Monitor → Prop} {new : RuntimeError → Prop}

theorem runs_pure (hm : Ready T m) {a : α} (ha : done a m) :
    Runs T m done new (pure a : Monitored α) := ⟨hm, .refl m, ha⟩

theorem runs_throw (hm : Ready T m) {e : Interrupt} (he : Leaves T new m e) :
    Runs T m done new (throw e : Monitored α) := ⟨hm.toSound, .refl m, he⟩

theorem Runs.mono {new' : RuntimeError → Prop} {act : Monitored α} (h : Runs T m done new act)
    (hnew : ∀ err, new err → new' err) : Runs T m done new' act :=
  Outcome.mono h (fun _ _ ha => ha) fun _ _ he => ⟨he.1, he.2.1, he.2.2.imp_right
    fun ⟨hnone, err, herr, hn⟩ => ⟨hnone, err, herr, hnew err hn⟩⟩

/-- A run that goes on from a later moment. -/
theorem Runs.of_later {act : Monitored α} (hlater : Later m m') (h : Runs T m' done new act) :
    Outcome (fun a m'' => Ready T m'' ∧ Later m m'' ∧ done a m'')
      (fun e m'' => Sound T m'' ∧ Later m m'' ∧ Leaves T new m'' e) (act m') :=
  advances_of_later hlater h

/-- **One run after the other.** -/
theorem runs_bind {said : β → Monitor → Prop} {act : Monitored β} {next : β → Monitored α}
    (h : Runs T m said new act)
    (hnext : ∀ b m', Ready T m' → Later m m' → said b m' → Runs T m' done new (next b)) :
    Runs T m done new (act >>= next) := advances_bind h hnext

/-- **Bounded repetition.** -/
theorem runs_iterate {step : β → Monitored (Turn β α)}
    (hstep : ∀ b m', Ready T m' → Later m m' →
      Runs T m' (Turn.Says (fun _ _ => True) done) new (step b))
    (passes : Nat) (b : β) (hm : Ready T m) :
    Runs T m done new (iterate .unfinished step passes b) := by
  refine advances_iterate (fun _ _ => True) (fun b m' hm' hlater _ => hstep b m' hm' hlater)
    (fun m' hm' => ?_) passes hm (.refl m) trivial
  exact ⟨hm'.toSound, .inl hm'.blameless⟩

/-- **Nodes.** Whatever is new inside is blamed on the node. -/
theorem runs_within (hm : Ready T m) {chunk : Nat} {node : Node} (hfits : T.fits chunk node)
    (scope : ScopeId) {act : Monitored α}
    (h : ∀ m', Ready T m' → Runs T m' done node.Accounts act)
    (hdone : ∀ a m', done a m' → done a (finish m')) :
    Runs T m done (fun _ => False) (scribe.within chunk node scope act) := by
  have hrun := h _ (hm.begun chunk node)
  -- the node is begun, run and finished; an error in between may be blamed on it
  change Outcome _ _ (act (scribe.told (.begins chunk node scope) m)) at hrun
  unfold Runs Scribe.within
  cases hact : act (scribe.told (.begins chunk node scope) m) with
  | ok a m' =>
    rw [hact] at hrun
    obtain ⟨hm', hlater, ha⟩ := hrun
    obtain ⟨hend, hlaterEnd⟩ := hm'.toSound.finished hlater rfl
    exact ⟨⟨hend, hm'.blameless⟩, hlaterEnd, hdone a m' ha⟩
  | error e m' =>
    rw [hact] at hrun
    obtain ⟨hm', hlater, he⟩ := hrun
    cases e with
    | failed err =>
      have hblamed : Sound T (blame m' chunk node) ∧ Later (begin m (.node chunk node))
          (blame m' chunk node) :=
        ⟨⟨hm'.counted, hm'.seen, hm'.vouched⟩, hlater.grown, hlater.birth_eq, hlater.active_eq⟩
      obtain ⟨hend, hlaterEnd⟩ := hblamed.1.finished hblamed.2 rfl
      refine ⟨hend, hlaterEnd, .inl ?_⟩
      obtain ⟨chunk', node', hculprit, hknown⟩ | ⟨hnone, err', herr, hnew⟩ := he
      · -- somebody else has been blamed before
        refine ⟨chunk', node', ?_, hknown⟩
        change m'.notes.culprit.or _ = _
        rw [hculprit, Option.some_or]
      · -- the error is new, so that this is the node it leaves first
        obtain rfl := Interrupt.failed.inj herr
        refine ⟨chunk, node, ?_, hfits, hnew⟩
        change m'.notes.culprit.or _ = _
        rw [hnone, Option.none_or]
    | returning v =>
      obtain ⟨hend, hlaterEnd⟩ := hm'.finished hlater rfl
      refine ⟨hend, hlaterEnd, .inl ?_⟩
      -- a return is no error, and is blamed on nobody
      obtain hv | ⟨-, err, herr, -⟩ := he
      · exact hv
      · contradiction
    | misplaced description | unfinished =>
      obtain ⟨hend, hlaterEnd⟩ := hm'.finished hlater rfl
      refine ⟨hend, hlaterEnd, .inl ?_⟩
      obtain hnone | ⟨hnone, -⟩ := he <;> exact hnone

/-! ### Small steps -/

/-- **A step without notes** that succeeds. -/
theorem runs_lift (hm : Ready T m) {act : Exec α} {a : α} {s : Session}
    (hact : act m.plain = .ok a s) (hframes : s.rest.frames = m.rest.console.frames)
    (hgrown : m.store.Grown s.store) (hvouched : s.store.Keeps (Vouched T m))
    (ha : done a (s.noted m.notes)) : Runs T m done new (Annotating.lift act) := by
  obtain ⟨hm', hlater⟩ := hm.of_store hframes hgrown hvouched
  unfold Runs Annotating.lift
  rw [hact]
  exact ⟨hm', hlater, ha⟩

/-- A step that leaves nothing but events. -/
theorem runs_reports (hm : Ready T m) {act : Exec Unit} (h : Reports act) :
    Runs T m (fun _ _ => True) new (Annotating.lift act) := by
  obtain ⟨events, hact⟩ := h m.plain
  exact runs_lift hm hact rfl (.refl _) hm.vouched trivial

/-- A failure that has left no node yet. -/
theorem runs_fail (hm : Ready T m) {cause : Cause} {line : Option Int} (hnew : new ⟨cause, line⟩) :
    Runs T m done new (Annotating.lift (Exec.fail cause line)) :=
  ⟨hm.toSound, .refl m, .inr ⟨hm.blameless, _, rfl, hnew⟩⟩

/-- The value of an operation, or its failure. -/
theorem runs_orFail (hm : Ready T m) (line : Int) {result : Except Cause α}
    (hdone : ∀ a, result = .ok a → done a m)
    (hnew : ∀ cause, result = .error cause → new ⟨cause, some line⟩) :
    Runs T m done new (Annotating.lift (Exec.orFail line result)) := by
  cases result with
  | ok a => exact ⟨hm, .refl m, hdone a rfl⟩
  | error cause => exact runs_fail hm (hnew cause rfl)

/-- What is said of a value. -/
def Accepted (T : Premises) (v : Value) (m : Monitor) : Prop := Vouched T m v

/-- A name that cannot be looked up. -/
theorem eq_of_lookup {s : Store} {scope : ScopeId} {name : String} {cause : Cause}
    (h : s.lookup scope name = .error cause) : cause = .undefinedVariable name := by
  unfold Store.lookup at h
  cases hresolve : s.resolve scope name with
  | none =>
    simp only [hresolve] at h
    exact (Except.error.inj h).symm
  | some c => simp [hresolve] at h

/-- **Reading a variable.** -/
theorem runs_read (hm : Ready T m) (scope : ScopeId) (name : Token) :
    Runs T m (Accepted T) (Node.expr (.variable name)).Accounts
      (Annotating.lift (Exec.read scope name)) := by
  change Runs T m _ _ (Annotating.lift (Exec.orFail name.line (m.store.get scope name.lexeme)))
  unfold Store.get
  cases hlookup : m.store.lookup scope name.lexeme with
  | ok c =>
    refine runs_orFail hm name.line (fun v hv => ?_) fun cause hcause => by simp at hcause
    obtain rfl := Except.ok.inj hv
    exact hm.vouched.cell trivial c
  | error cause =>
    obtain rfl := eq_of_lookup hlookup
    refine runs_orFail hm name.line (fun v hv => by simp at hv) fun cause hcause => ?_
    obtain rfl := Except.error.inj hcause
    exact .inr ⟨name, .read name, rfl⟩

/-- **Assigning to a variable.** -/
theorem runs_write (hm : Ready T m) (host : Host) (scope : ScopeId) (name : Token) (value : Expr)
    {v : Value}
    (hv : Accepted T v m) :
    Runs T m (Accepted T) (Node.expr (.assign name value)).Accounts
      ((scribe.steps host).write scope name v) := by
  rw [write_eq]
  have hwrite := Exec.write_eq scope name v m.plain
  -- whatever fails is the fault of the assignment, on the line of the name
  have hfail : ∀ {cause : Cause}, (Node.expr (.assign name value)).Blames cause name →
      Exec.write scope name v m.plain = Exec.fail cause (some name.line) m.plain →
      Runs T m (Accepted T) (Node.expr (.assign name value)).Accounts
        (Annotating.lift (Exec.write scope name v)) := by
    intro cause hblames heq
    unfold Runs Annotating.lift
    rw [heq]
    exact ⟨hm.toSound, .refl m, .inr ⟨hm.blameless, _, rfl, .inr ⟨name, hblames, rfl⟩⟩⟩
  rw [show m.plain.store = m.store from rfl] at hwrite
  cases hlookup : m.store.lookup scope name.lexeme with
  | error cause =>
    rw [hlookup] at hwrite
    obtain rfl := eq_of_lookup hlookup
    exact hfail (.target name value) hwrite
  | ok c =>
    simp only [hlookup] at hwrite
    split at hwrite
    · exact hfail (.constant name value) hwrite
    · exact runs_lift hm hwrite rfl (m.store.grown_setCell c v) (hm.vouched.setCell hv c)
        (Vouched.later hv ⟨m.store.grown_setCell c v, fun _ _ => rfl, rfl⟩)

theorem runs_declare (hm : Ready T m) (host : Host) (scope : ScopeId) (name : String) {v : Value}
    (hv : Accepted T v m) (const : Bool) :
    Runs T m (fun _ _ => True) new ((scribe.steps host).declare scope name v const) := by
  rw [declare_eq]
  obtain ⟨events, hemit⟩ := reports_emit host (fun _ => .declared name v)
    { m.plain with store := (m.plain.store.declare scope name v const).2 }
  have hact := (Exec.declare_eq host scope name v const m.plain).trans hemit
  exact runs_lift hm hact rfl (m.store.grown_declare scope name v const)
    (hm.vouched.declare hv scope name const) trivial

/-- **An action on the store** that makes nothing but scopes and cells. -/
theorem runs_onStore (hm : Ready T m) {f : Store → α × Store} (hgrown : m.store.Grown (f m.store).2)
    (hvouched : (f m.store).2.Keeps (Vouched T m)) :
    Runs T m (fun _ _ => True) new (Action.onStore f) := by
  obtain ⟨hm', hlater⟩ := hm.of_store (s := ⟨(f m.store).2, m.rest.console⟩) rfl hgrown hvouched
  exact ⟨hm', hlater, trivial⟩

/-- A new scope. -/
theorem runs_newScope (hm : Ready T m) (parent : Option ScopeId) :
    Runs T m (fun _ _ => True) new (Action.onStore (·.newScope parent)) :=
  runs_onStore hm (m.store.grown_newScope parent) hm.vouched

/-- A new scope with some names. -/
theorem runs_opened (hm : Ready T m) {f : Store → ScopeId × Store} {parent : Option ScopeId}
    {items : List (String × Value × Bool)} (hitems : ∀ item ∈ items, Vouched T m item.2.1)
    (hf : f m.store = (⟨m.store.scopes.size⟩,
      (m.store.newScope parent).2.declareAll ⟨m.store.scopes.size⟩ items)) :
    Runs T m (fun _ _ => True) new (Action.onStore f) := by
  refine runs_onStore hm ?_ ?_
  · rw [hf]
    exact (m.store.grown_newScope parent).trans (Store.grown_declareAll _ _ items)
  · rw [hf]
    exact Store.Keeps.declareAll (s := (m.store.newScope parent).2) hm.vouched hitems _

/-- **A function is made** of statements that fit, and declared. -/
theorem runs_function (hm : Ready T m) (host : Host) {chunk : Nat} {body : List Stmt}
    (hbody : ∀ s ∈ body, T.fits chunk (.stmt s)) (name : String) (parameters : List String)
    (scope : ScopeId) :
    Runs T m (fun _ _ => True) new (do
      let f ← Action.onStore (·.newClosure name parameters body scope)
      (scribe.steps host).made chunk f
        ((scribe.steps host).declare scope name (.closure f) false)) := by
  let f : Closure := ⟨m.store.functions, name, parameters, body, scope⟩
  let made : Monitor := (Machine.mk { m.store with functions := m.store.functions + 1 }
    m.rest.console).noted { m.notes with birth := Function.update m.notes.birth f.identity chunk }
  have hlater : Later m made := by
    refine ⟨m.store.grown_newClosure name parameters body scope, fun i hi => ?_, rfl⟩
    exact Function.update_of_ne (Nat.ne_of_lt hi) chunk m.notes.birth
  have hmade : Ready T made :=
    ⟨⟨hm.counted, hm.seen, hm.vouched.mono fun _ hv => hv.later hlater⟩, hm.blameless⟩
  -- the function is the latest one, and it has just been written down where it was made
  have hf : Vouched T made (.closure f) := by
    refine .inr ⟨Nat.lt_succ_self _, ?_⟩
    change ∀ s ∈ body, T.fits (Function.update m.notes.birth m.store.functions chunk _) _
    rwa [Function.update_self]
  have hdeclared : Runs T made (fun _ _ => True) new
      ((scribe.steps host).declare scope name (.closure f) false) :=
    runs_declare hmade host scope name hf false
  have hrun := hdeclared.of_later hlater
  exact hrun

/-! ### Calls -/

theorem runs_valueOf {act : Monitored Unit} (h : Runs T m (fun _ _ => True) new act) :
    Runs T m (Accepted T) new (Exec.valueOf act) := by
  unfold Runs Exec.valueOf at *
  cases hact : act m with
  | ok _ m' =>
    rw [hact] at h
    exact ⟨h.1, h.2.1, trivial⟩
  | error e m' =>
    rw [hact] at h
    obtain ⟨hm', hlater, he⟩ := h
    cases e with
    | returning v =>
      -- a return has left nodes without being blamed on them
      obtain ⟨hnone, hv⟩ | ⟨-, err, herr, -⟩ := he
      · exact ⟨⟨hm', hnone⟩, hlater, hv⟩
      · contradiction
    | failed err => exact ⟨hm', hlater, he⟩
    | misplaced description => exact ⟨hm', hlater, he⟩
    | unfinished => exact ⟨hm', hlater, he⟩

/-- **What a call adds to errors:** a line to those that have left no node, and nothing to others. -/
theorem runs_located {callee : Expr} {paren : Token} {arguments : List Expr} {act : Monitored Value}
    (h : Runs T m (Accepted T)
      (fun err => err.line = none ∧ (Node.expr (.call callee paren arguments)).Blames err.cause paren)
      act) :
    Runs T m (Accepted T) (Node.expr (.call callee paren arguments)).Accounts
      (Exec.located paren.line act) := by
  unfold Runs Exec.located at *
  cases hact : act m with
  | ok v m' =>
    rw [hact] at h
    exact h
  | error e m' =>
    rw [hact] at h
    obtain ⟨hm', hlater, he⟩ := h
    -- only errors get a line
    have hkept : ∀ e : Interrupt, (∀ err, e ≠ .failed err) → Leaves T
        (fun err => err.line = none ∧
          (Node.expr (.call callee paren arguments)).Blames err.cause paren) m' e →
        Leaves T (Node.expr (.call callee paren arguments)).Accounts m' e := by
      rintro e hne (hexplained | ⟨-, err, rfl, -⟩)
      · exact .inl hexplained
      · exact absurd rfl (hne err)
    cases e with
    | failed err =>
      refine ⟨hm', hlater, ?_⟩
      obtain ⟨chunk, node, hculprit, hfits, hroom | ⟨t, hblames, hline⟩⟩ |
        ⟨hnone, err', herr, hline, hblames⟩ := he
      · exact .inl ⟨chunk, node, hculprit, hfits, .inl hroom⟩
      · -- the innermost line stays
        refine .inl ⟨chunk, node, hculprit, hfits, .inr ⟨t, hblames, ?_⟩⟩
        change err.line.or _ = _
        rw [hline, Option.some_or]
      · -- an error of the call itself gets the line of the parenthesis
        obtain rfl := Interrupt.failed.inj herr
        refine .inr ⟨hnone, _, rfl, .inr ⟨paren, hblames, ?_⟩⟩
        change err.line.or _ = _
        rw [hline, Option.none_or]
    | returning v => exact ⟨hm', hlater, hkept _ (fun _ h => nomatch h) he⟩
    | misplaced description => exact ⟨hm', hlater, hkept _ (fun _ h => nomatch h) he⟩
    | unfinished => exact ⟨hm', hlater, hkept _ (fun _ h => nomatch h) he⟩

/-- **A call in progress.** -/
theorem runs_inCall (hm : Ready T m) (hroom : m.rest.console.frames ≠ maxFrames) {paren : Token}
    {act : Monitored Value}
    (h : ∀ m', Ready T m' → (∀ v, Vouched T m v → Vouched T m' v) →
      Runs T m' (Accepted T) new act) :
    Runs T m (Accepted T) new (scribe.inCall paren act) := by
  have hrun := h _ (hm.entered hroom paren) fun v hv => hv
  change Outcome _ _ (act (scribe.told (.calls paren) m.entered)) at hrun
  unfold Runs Scribe.inCall
  cases hact : act (scribe.told (.calls paren) m.entered) with
  | ok v m' =>
    rw [hact] at hrun
    obtain ⟨hm', hlater, hv⟩ := hrun
    obtain ⟨hend, hlaterEnd⟩ := hm'.toSound.left hlater
    exact ⟨⟨hend, hm'.blameless⟩, hlaterEnd, hv⟩
  | error e m' =>
    rw [hact] at hrun
    obtain ⟨hm', hlater, he⟩ := hrun
    obtain ⟨hend, hlaterEnd⟩ := hm'.left hlater
    refine ⟨hend, hlaterEnd, ?_⟩
    cases e <;> exact he

end Monitor

end Lox
