import Lox.Proofs.Lexical.Mirror
import Lox.Proofs.Outcome
import Lox.Proofs.SmallSteps
import Mathlib.Tactic.Set

/-!
# Runs that keep the mirror

The invariant of a surveyed session is kept by every small step, and by everything that is put
together from steps that keep it, in all ways in which a run can end: a result, a return on its way
out, an error, a loop that is given up. An evaluator is given a node at its place, and what it hands
on to the evaluator of the parts are these parts at their places.

* `Surveyor.Preserves` — runs that keep the invariant, `Surveyor.preserves_bind` their composition;
* `Surveyor.preserves_activation`, `Surveyor.preserves_forLoop` — calls and loops;
* `Surveyor.preserves_evaluateStep`, `Surveyor.preserves_executeStep` — one step of the evaluator;
* `Surveyor.preserving_evaluator` — the evaluator of a host.
-/

namespace Lox

namespace Surveyor

variable {m m' m'' : Surveyor}

/-! ### What a run does -/

variable {α β : Type}

/-- **A run that keeps the invariant.** From `m` it leads to a later moment, whether it succeeds or
fails; `done` is said of its result, and a value that a return carries out is vouched for. -/
def Preserves (m : Surveyor) (done : α → Surveyor → Prop) (act : Surveyed α) : Prop :=
  Outcome (fun a m' => Sound m' ∧ Later m m' ∧ done a m')
    (fun e m' => Sound m' ∧ Later m m' ∧ VouchedInterrupt m' e) (act m)

variable {done : α → Surveyor → Prop}

theorem preserves_pure (hm : Sound m) {a : α} (ha : done a m) :
    Preserves m done (pure a : Surveyed α) := ⟨hm, .refl m, ha⟩

theorem preserves_throw (hm : Sound m) {e : Interrupt} (he : VouchedInterrupt m e) :
    Preserves m done (throw e : Surveyed α) := ⟨hm, .refl m, he⟩

/-- **One run after the other.** -/
theorem preserves_bind {said : β → Surveyor → Prop} {act : Surveyed β} {next : β → Surveyed α}
    (h : Preserves m said act)
    (hnext : ∀ b m', Sound m' → Later m m' → said b m' → Preserves m' done (next b)) :
    Preserves m done (act >>= next) := advances_bind h hnext

theorem Preserves.mono {done' : α → Surveyor → Prop} {act : Surveyed α}
    (h : Preserves m done act) (hdone : ∀ a m', done a m' → done' a m') :
    Preserves m done' act :=
  Outcome.mono h (fun a m' ha => ⟨ha.1, ha.2.1, hdone a m' ha.2.2⟩) fun _ _ he => he

/-- A run that begins with a change of the surveyed session. -/
theorem preserves_of_later {act : Surveyed α} (hlater : Later m m')
    (h : Preserves m' done act) : Outcome (fun a m'' => Sound m'' ∧ Later m m'' ∧ done a m'')
      (fun e m'' => Sound m'' ∧ Later m m'' ∧ VouchedInterrupt m'' e) (act m') :=
  advances_of_later hlater h

/-- **Bounded repetition.** -/
theorem preserves_iterate {step : β → Surveyed (Turn β α)} (keeps : β → Surveyor → Prop)
    (hstep : ∀ b m', Sound m' → keeps b m' → Preserves m' (Turn.Says keeps done) (step b))
    (passes : Nat) (b : β) (hm : Sound m) (hb : keeps b m) :
    Preserves m done (iterate .unfinished step passes b) := by
  refine advances_iterate keeps (fun b m' hm' _ => hstep b m' hm') (fun m' hm' => ?_) passes hm
    (.refl m) hb
  exact ⟨hm', trivial⟩

/-! ### Small steps -/

/-- **A session that a run may leave behind.** Its store has grown in order, and its cells hold only
values that were vouched for before. -/
structure Continues (m : Surveyor) (s : Session) : Prop where
  grown : m.store.Grown s.store
  ordered : s.store.Ordered
  values : s.store.Keeps (Vouched m)
  globals_eq : s.rest.globals = m.rest.console.globals

theorem Sound.continues (hm : Sound m) : Continues m m.plain :=
  ⟨.refl _, hm.ordered, hm.values, rfl⟩

theorem Continues.of_store_eq (hm : Sound m) {s : Session} (hstore : s.store = m.store)
    (hglobals : s.rest.globals = m.rest.console.globals) : Continues m s := by
  refine ⟨?_, ?_, ?_, hglobals⟩
  · rw [hstore]
    exact .refl _
  · rw [hstore]
    exact hm.ordered
  · rw [hstore]
    exact hm.values

theorem Continues.later {s : Session} (h : Continues m s) : Later m (s.noted m.survey) :=
  ⟨h.grown, rfl, h.globals_eq, fun _ _ => rfl, fun _ _ => rfl⟩

theorem Continues.sound {s : Session} (h : Continues m s) (hm : Sound m) :
    Sound (s.noted m.survey) :=
  hm.later h.later h.ordered (h.values.mono fun _ hv => hv.later h.later hm.ordered h.ordered) rfl

/-- **A run that is lifted** keeps the invariant if it leaves such a session behind. -/
theorem preserves_lift (hm : Sound m) {act : Exec α}
    (h : Outcome (fun a s => Continues m s ∧ done a (s.noted m.survey))
      (fun e s => Continues m s ∧ VouchedInterrupt (s.noted m.survey) e) (act m.plain)) :
    Preserves m done (Annotating.lift act) := by
  unfold Preserves Annotating.lift
  cases hact : act m.plain with
  | ok a s =>
    rw [hact] at h
    exact ⟨h.1.sound hm, h.1.later, h.2⟩
  | error e s =>
    rw [hact] at h
    exact ⟨h.1.sound hm, h.1.later, h.2⟩

/-- **Quiet runs** leave the store and the global scope alone, and let no return out; `said` is said
of their results. -/
def Quiet (said : α → Prop) (act : Exec α) : Prop :=
  ∀ s, Outcome (fun a s' => (s'.store = s.store ∧ s'.rest.globals = s.rest.globals) ∧ said a)
    (fun e s' => (s'.store = s.store ∧ s'.rest.globals = s.rest.globals) ∧
      ∀ value, e ≠ .returning value) (act s)

theorem vouchedInterrupt_of_ne {e : Interrupt} (he : ∀ value, e ≠ .returning value) :
    VouchedInterrupt m e := by
  cases e with
  | returning value => exact absurd rfl (he value)
  | failed error => trivial
  | misplaced node => trivial
  | unfinished => trivial

/-- A quiet run keeps the invariant. -/
theorem preserves_quiet (hm : Sound m) {said : α → Prop} {act : Exec α} (h : Quiet said act) :
    Preserves m (fun a _ => said a) (Annotating.lift act) := by
  refine preserves_lift hm (Outcome.mono (h m.plain) ?_ ?_)
  · rintro a s ⟨⟨hstore, hglobals⟩, ha⟩
    exact ⟨.of_store_eq hm hstore hglobals, ha⟩
  · rintro e s ⟨⟨hstore, hglobals⟩, he⟩
    exact ⟨.of_store_eq hm hstore hglobals, vouchedInterrupt_of_ne he⟩

section Quiet

variable {said : α → Prop}

theorem quiet_fail (cause : Cause) (line : Option Int) : Quiet said (Exec.fail cause line) :=
  fun _ => ⟨⟨rfl, rfl⟩, fun _ h => nomatch h⟩

theorem quiet_orFail (line : Int) {result : Except Cause α}
    (h : ∀ a, result = .ok a → said a) : Quiet said (Exec.orFail line result) := by
  cases result with
  | ok a => exact fun _ => ⟨⟨rfl, rfl⟩, h a rfl⟩
  | error cause => exact quiet_fail cause (some line)

theorem quiet_print (text : String) : Quiet (fun _ => True) (Exec.print text) :=
  fun _ => ⟨⟨rfl, rfl⟩, trivial⟩

theorem quiet_bind {act : Exec β} {next : β → Exec α} (h : Quiet (fun _ => True) act)
    (hnext : ∀ b, Quiet said (next b)) : Quiet said (act >>= next) := by
  intro s
  refine outcome_bind (Outcome.mono (h s) ?_ fun _ _ he => he)
  rintro b s' ⟨⟨hstore, hglobals⟩, -⟩
  refine Outcome.mono (hnext b s') ?_ ?_
  · rintro a s'' ⟨⟨hstore', hglobals'⟩, ha⟩
    exact ⟨⟨hstore'.trans hstore, hglobals'.trans hglobals⟩, ha⟩
  · rintro e s'' ⟨⟨hstore', hglobals'⟩, he⟩
    exact ⟨⟨hstore'.trans hstore, hglobals'.trans hglobals⟩, he⟩

/-- A step that leaves nothing but events. -/
theorem quiet_of_reports {act : Exec Unit} (h : Reports act) : Quiet (fun _ => True) act := by
  intro s
  obtain ⟨events, hact⟩ := h s
  rw [hact]
  exact ⟨⟨rfl, rfl⟩, trivial⟩

theorem quiet_emit (host : Host) (event : Unit → Event) :
    Quiet (fun _ => True) (Exec.emit host event) := quiet_of_reports (reports_emit host event)

/-- The clock gives a number. -/
theorem quiet_clock (host : Host) (event : Unit → Event) :
    Quiet (fun v => ∃ l, v = .literal l) (do Exec.emit host event; Exec.readClock host) :=
  quiet_bind (quiet_emit host event) fun _ _ => ⟨⟨rfl, rfl⟩, _, rfl⟩

end Quiet

theorem vouched_of_literal {v : Value} (h : ∃ l, v = .literal l) : Vouched m v := by
  obtain ⟨l, rfl⟩ := h
  trivial

/-! ### Steps that move values -/

theorem preserves_read (hm : Sound m) (scope : ScopeId) (name : Token) :
    Preserves m (fun v m' => Vouched m' v) (Annotating.lift (Exec.read scope name)) := by
  refine preserves_lift hm ?_
  change Outcome _ _ (Exec.orFail name.line (m.store.get scope name.lexeme) m.plain)
  unfold Store.get
  cases m.store.lookup scope name.lexeme with
  | ok c => exact ⟨hm.continues, hm.values.cell trivial c⟩
  | error cause => exact ⟨hm.continues, trivial⟩

theorem preserves_write (hm : Sound m) (host : Host) (scope : ScopeId) (name : Token) {v : Value}
    (hv : Vouched m v) :
    Preserves m (fun v m' => Vouched m' v) ((scribe.steps host).write scope name v) := by
  -- nobody writes assignments down
  change Preserves m _ (scribe.after _ (Annotating.lift (Exec.write scope name v)))
  rw [Scribe.after_of_told fun _ => rfl]
  refine preserves_lift hm ?_
  rw [Exec.write_eq]
  cases m.plain.store.lookup scope name.lexeme with
  | error cause => exact ⟨hm.continues, trivial⟩
  | ok c =>
    simp only
    split
    · exact ⟨hm.continues, trivial⟩
    · have hwritten : Continues m ⟨m.store.setCell c v, m.rest.console⟩ :=
        ⟨Store.grown_setCell m.store c v, hm.ordered.setCell c v, hm.values.setCell hv c, rfl⟩
      exact ⟨hwritten, hv.later hwritten.later hm.ordered hwritten.ordered⟩

theorem preserves_declare (hm : Sound m) (host : Host) (scope : ScopeId) (name : String) {v : Value}
    (hv : Vouched m v) (const : Bool) :
    Preserves m (fun _ _ => True) ((scribe.steps host).declare scope name v const) := by
  -- nor declarations
  change Preserves m _ (scribe.after _ (Annotating.lift (Exec.declare host scope name v const)))
  rw [Scribe.after_of_told fun _ => rfl]
  refine preserves_lift hm ?_
  rw [Exec.declare_eq]
  obtain ⟨events, hemit⟩ := reports_emit host (fun _ => .declared name v)
    { m.plain with store := (m.store.declare scope name v const).2 }
  have hdeclared : Continues m ⟨(m.store.declare scope name v const).2,
      { m.rest.console with events := events }⟩ :=
    ⟨Store.grown_declare m.store scope name v const, hm.ordered.declare scope name v const,
      hm.values.declare hv scope name const, rfl⟩
  change Outcome _ _ (Exec.emit host (fun _ => .declared name v)
    { m.plain with store := (m.store.declare scope name v const).2 })
  rw [hemit]
  exact ⟨hdeclared, trivial⟩

/-! ### What is written down -/

section Notes

variable {p : Place} {node : Node} {scope : ScopeId}

/-- **A node that is run.** Its sighting is in order when it may be run in its scope. -/
theorem preserves_within (hm : Sound m) (hat : At m p node scope) {act : Surveyed α}
    (h : ∀ m', Sound m' → Later m m' → Preserves m' done act) :
    Preserves m done (scribe.within p node scope act) := by
  rw [Scribe.within_of_ends (fun _ => rfl) fun _ => rfl]
  have hlater : Later m (scribe.told (.begins p node scope) m) :=
    ⟨.refl _, rfl, rfl, fun _ _ => rfl, fun _ _ => rfl⟩
  have hsighted : Sound (scribe.told (.begins p node scope) m) := by
    refine ⟨hm.ordered, hm.globals_lt, hm.globals_parent, hm.globals_origin,
      hm.values.mono fun v hv => hv.later hlater hm.ordered hm.ordered, ?_⟩
    intro v hv
    obtain rfl | hv := List.mem_cons.1 hv
    · exact ⟨hat.node_eq, hat.mirrors.origins, hat.mirrors.last, hat.mirrors.lt, hm.ordered, le_rfl,
        rfl⟩
    · exact (hm.sightings v hv).later hlater
  have hrest := preserves_of_later hlater (h _ hsighted hlater)
  exact hrest

/-- **A scope is opened for a construct,** and what is run next may run its parts there. -/
theorem preserves_opened (hm : Sound m) (hat : At m p node scope) (hopens : node.opensScope = true)
    {items : List (String × Value × Bool)} (hitems : ∀ item ∈ items, Vouched m item.2.1)
    (host : Host) {act : Store → ScopeId × Store}
    (hact : act m.store = (⟨m.store.scopes.size⟩, m.store.openScope scope items))
    {told : ScopeId → Store → List (String × Value × Bool)} {next : ScopeId → Surveyed α}
    (hnext : ∀ m', Sound m' → Later m m' → Inside m' p node ⟨m.store.scopes.size⟩ →
      Preserves m' done (next ⟨m.store.scopes.size⟩)) :
    Preserves m done (do
      let inner ← Action.onStore act
      (scribe.steps host).opened p inner (told inner) (next inner)) := by
  obtain ⟨hopened, hlater, hinside⟩ := sound_opened hm hat hopens hitems
  have hrest := preserves_of_later hlater (hnext _ hopened hlater hinside)
  refine outcome_bind ?_
  unfold Action.onStore
  simp only [hact]
  -- what is declared in the scope is not written down
  exact hrest

/-- **The birth of a function.** Its scope is the one in which its statement is run. -/
theorem preserves_made (hm : Sound m) {name : Token} {parameters : List Token} {body : List Stmt}
    (hat : At m p (.stmt (.function name parameters body)) scope) {next : Closure → Surveyed α}
    (hnext : ∀ f m', Sound m' → Vouched m' (.closure f) → Later m m' → Preserves m' done (next f)) :
    Preserves m done (do
      let f ← Action.onStore (·.newClosure name.lexeme (parameters.map (·.lexeme)) body scope)
      scribe.before (fun _ => .made p f) (next f)) := by
  set m' : Surveyor := ⟨{ m.store with functions := m.store.functions + 1 }, m.rest.console,
    { m.survey with
      birthplace := Function.update m.survey.birthplace m.store.functions p }⟩ with hm'
  have hlater : Later m m' := by
    refine ⟨Store.grown_newClosure m.store name.lexeme [] body scope, rfl, rfl, fun _ _ => rfl, ?_⟩
    exact fun identity h => Function.update_of_ne (Nat.ne_of_lt h) _ _
  have hmade : Sound m' := hm.later hlater hm.ordered
    (hm.values.mono fun v hv => hv.later hlater hm.ordered hm.ordered) rfl
  let f : Closure := ⟨m.store.functions, name.lexeme, parameters.map (·.lexeme), body, scope⟩
  have hvouched : Vouched m' (.closure f) := by
    refine ⟨Nat.lt_succ_self _, name, parameters, ?_⟩
    -- the new identity is born here, in the scope that the closure captures
    have hbirthplace : m'.survey.birthplace m.store.functions = p := Function.update_self _ _ _
    change At m' (m'.survey.birthplace m.store.functions) _ scope
    rw [hbirthplace]
    exact hat.later hlater hm.ordered hm.ordered
  have hrest := preserves_of_later hlater (hnext f m' hmade hvouched hlater)
  exact hrest

end Notes

/-! ### Evaluators -/

/-- **Evaluators that keep the invariant,** whatever node they are given at its place. -/
structure Evaluator.Preserving (ev : Evaluator) : Prop where
  /-- Values are vouched for. -/
  evaluate : ∀ {m p e scope}, Sound m → At m p (.expr e) scope →
    Preserves m (fun v m' => Vouched m' v) (ev.evaluate p e scope)
  /-- Statements have no value. -/
  execute : ∀ {m p s scope}, Sound m → At m p (.stmt s) scope →
    Preserves m (fun _ _ => True) (ev.execute p s scope)

variable {host : Host} {d : Nat → Evaluator}

/-- Several expressions, each at its place. -/
theorem preserves_evaluateAll {ev : Evaluator} (hev : ev.Preserving) {p : Place}
    {scope : ScopeId} (es : List Expr) :
    ∀ {m : Surveyor} (i : Nat), Sound m →
      (∀ j e, es[j]? = some e → At m (p.part (i + j)) (.expr e) scope) →
      Preserves m (fun vs m' => ∀ v ∈ vs, Vouched m' v)
        (Steps.evaluateAll scribe.next (fun p e => ev.evaluate p e scope) (p.part i) es) := by
  induction es with
  | nil =>
    intro m i hm _
    exact preserves_pure hm fun v hv => nomatch hv
  | cons e es ih =>
    intro m i hm hes
    refine preserves_bind (hev.evaluate hm (hes 0 e rfl)) fun v m' hm' hlater hv => ?_
    -- behind the first part the numbers are shifted by one
    have hrest : ∀ j e', es[j]? = some e' → At m' (p.part (i + 1 + j)) (.expr e') scope := by
      intro j e' he'
      have hat := hes (j + 1) e' he'
      rw [show i + (j + 1) = i + 1 + j by omega] at hat
      exact hat.later hlater hm.ordered hm'.ordered
    refine preserves_bind (ih (i + 1) hm' hrest) fun vs m'' hm'' hlater' hvs => ?_
    refine preserves_pure hm'' fun w hw => ?_
    obtain rfl | hw := List.mem_cons.1 hw
    · exact hv.later hlater' hm'.ordered hm''.ordered
    · exact hvs w hw

/-- Several statements, each at its place. -/
theorem preserves_executeAll {ev : Evaluator} (hev : ev.Preserving) {p : Place}
    {scope : ScopeId} (ss : List Stmt) :
    ∀ {m : Surveyor} (i : Nat), Sound m →
      (∀ j s, ss[j]? = some s → At m (p.part (i + j)) (.stmt s) scope) →
      Preserves m (fun _ _ => True)
        (Steps.executeAll scribe.next (fun p s => ev.execute p s scope) (p.part i) ss) := by
  induction ss with
  | nil => exact fun i hm _ => preserves_pure hm trivial
  | cons s ss ih =>
    intro m i hm hss
    refine preserves_bind (hev.execute hm (hss 0 s rfl)) fun _ m' hm' hlater _ => ?_
    refine ih (i + 1) hm' fun j s' hs' => ?_
    -- behind the first part the numbers are shifted by one
    have hat := hss (j + 1) s' hs'
    rw [show i + (j + 1) = i + 1 + j by omega] at hat
    exact hat.later hlater hm.ordered hm'.ordered

/-- All statements of a node that is a list of them. -/
theorem preserves_body {ev : Evaluator} (hev : ev.Preserving) (hm : Sound m) {p : Place}
    {node : Node} {scope : ScopeId} {body : List Stmt}
    (hbody : ∀ i, node.part i = body[i]?.map .stmt) (hinside : Inside m p node scope) :
    Preserves m (fun _ _ => True)
      (Steps.executeAll scribe.next (fun p s => ev.execute p s scope) (p.part 0) body) := by
  refine preserves_executeAll hev body 0 hm fun j s hs => ?_
  rw [Nat.zero_add]
  exact hinside j (.stmt s) (by rw [hbody, hs]; rfl)

/-- An expression that may be absent. -/
theorem preserves_evaluateOption {ev : Evaluator} (hev : ev.Preserving) (hm : Sound m)
    {p : Place} {scope : ScopeId} {e : Option Expr}
    (he : ∀ e', e = some e' → At m p (.expr e') scope) :
    Preserves m (fun v m' => Vouched m' v)
      (Steps.evaluateOption (fun e => ev.evaluate p e scope) e) := by
  cases e with
  | none => exact preserves_pure hm trivial
  | some e => exact hev.evaluate hm (he e rfl)

/-! ### Calls -/

/-- Only the calls in progress differ. -/
theorem Sound.of_frames (hm : Sound m) (frames : Nat) :
    Sound ⟨m.store, { m.rest.console with frames }, m.survey⟩ ∧
      Later m ⟨m.store, { m.rest.console with frames }, m.survey⟩ := by
  have hlater : Later m ⟨m.store, { m.rest.console with frames }, m.survey⟩ :=
    ⟨.refl _, rfl, rfl, fun _ _ => rfl, fun _ _ => rfl⟩
  exact ⟨hm.later hlater hm.ordered
    (hm.values.mono fun v hv => hv.later hlater hm.ordered hm.ordered) rfl, hlater⟩

theorem preserves_inCall (hm : Sound m) {act : Surveyed Value} (paren : Token)
    (h : ∀ m', Sound m' → Later m m' → Preserves m' (fun v m'' => Vouched m'' v) act) :
    Preserves m (fun v m' => Vouched m' v) (scribe.inCall paren act) := by
  -- the count goes up before the call and down behind it, and nothing else looks at it
  obtain ⟨hm', hlater⟩ := hm.of_frames (m.rest.console.frames + 1)
  have hact := preserves_of_later hlater (h _ hm' hlater)
  change Outcome _ _ (act (scribe.told (.calls paren) m.entered)) at hact
  unfold Preserves Scribe.inCall
  cases hr : act (scribe.told (.calls paren) m.entered) with
  | ok v m'' =>
    rw [hr] at hact
    obtain ⟨hm'', hlater'', hv⟩ := hact
    obtain ⟨hend, hlaterEnd⟩ := hm''.of_frames (m''.rest.console.frames - 1)
    exact ⟨hend, hlater''.trans hlaterEnd, hv.later hlaterEnd hm''.ordered hend.ordered⟩
  | error e m'' =>
    rw [hr] at hact
    obtain ⟨hm'', hlater'', he⟩ := hact
    obtain ⟨hend, hlaterEnd⟩ := hm''.of_frames (m''.rest.console.frames - 1)
    refine ⟨hend, hlater''.trans hlaterEnd, ?_⟩
    cases e with
    | returning v => exact Vouched.later hlaterEnd hm''.ordered hend.ordered he
    | failed error => trivial
    | misplaced node => trivial
    | unfinished => trivial

theorem preserves_located {act : Surveyed Value} (line : Int)
    (h : Preserves m (fun v m' => Vouched m' v) act) :
    Preserves m (fun v m' => Vouched m' v) (Exec.located line act) := by
  unfold Preserves Exec.located
  unfold Preserves at h
  cases hr : act m with
  | ok v m' => rw [hr] at h; exact h
  | error e m' =>
    rw [hr] at h
    cases e <;> exact h

theorem preserves_valueOf {act : Surveyed Unit} (h : Preserves m (fun _ _ => True) act) :
    Preserves m (fun v m' => Vouched m' v) (Exec.valueOf act) := by
  unfold Preserves Exec.valueOf
  unfold Preserves at h
  cases hr : act m with
  | ok v m' => rw [hr] at h; exact ⟨h.1, h.2.1, trivial⟩
  | error e m' =>
    rw [hr] at h
    cases e <;> exact h

/-- **The body of a closure** runs in an activation below the scope of the closure. -/
theorem preserves_activation (hd : ∀ cost, (d cost).Preserving) (hm : Sound m) {f : Closure}
    (hf : Vouched m (.closure f)) {arguments : List Value}
    (harguments : ∀ v ∈ arguments, Vouched m v) :
    Preserves m (fun v m' => Vouched m' v) (do
      let activation ← Action.onStore (·.activate f arguments)
      ((scribe.steps host).callHooks host d).body f arguments activation) := by
  obtain ⟨-, name, parameters, hat⟩ := hf
  have hitems : ∀ item ∈ f.items arguments, Vouched m item.2.1 := by
    -- the parameters hold the arguments, which are vouched for
    intro item hitem
    obtain ⟨⟨parameter, value⟩, hmem, rfl⟩ := List.mem_map.mp hitem
    exact harguments value (List.of_mem_zip hmem).2
  set birthplace := m.survey.birthplace f.identity
  -- the activation is made for the function, below the scope that it captured and not the caller's
  have hrun : Preserves m (fun v m' => Vouched m' v) (do
      let activation ← Action.onStore (·.activate f arguments)
      (scribe.steps host).opened birthplace activation (fun _ => f.items arguments) do
        Annotating.lift (Exec.emit host fun _ => .called (.closure f) arguments)
        if host.tracing then
          Annotating.lift ((f.parameters.zip arguments).forM fun item =>
            Exec.emit host fun _ => .declared item.1 item.2)
        Exec.valueOf (Steps.executeAll scribe.next (fun p s => (d 4).execute p s activation)
          (birthplace.part 0) f.body)) := by
    refine preserves_opened hm hat rfl hitems host rfl fun m' hm' hlater hinside => ?_
    have hvalue : ∀ m'', Sound m'' → Later m' m'' → Preserves m'' (fun v m'' => Vouched m'' v)
        (Exec.valueOf (Steps.executeAll scribe.next
          (fun p s => (d 4).execute p s ⟨m.store.scopes.size⟩) (birthplace.part 0) f.body)) :=
      fun m'' hm'' hlater' => preserves_valueOf (preserves_body (hd 4) hm'' (fun i => rfl)
        (hinside.later hlater' hm'.ordered hm''.ordered))
    refine preserves_bind (preserves_quiet hm' (quiet_emit host _)) fun _ m₁ hm₁ h₁ _ => ?_
    split
    · have hreports := quiet_of_reports
        (reports_forM (fun item => reports_emit host fun _ => .declared item.1 item.2)
          (f.parameters.zip arguments))
      refine preserves_bind (preserves_quiet hm₁ hreports) fun _ m₂ hm₂ h₂ _ => ?_
      exact hvalue m₂ hm₂ (h₁.trans h₂)
    · exact hvalue m₁ hm₁ h₁
  exact hrun

/-- **Calls** of values that are vouched for. -/
theorem preserves_call (hd : ∀ cost, (d cost).Preserving) (hm : Sound m) (paren : Token)
    {callee : Value} (hcallee : Vouched m callee) {arguments : List Value}
    (harguments : ∀ v ∈ arguments, Vouched m v) :
    Preserves m (fun v m' => Vouched m' v)
      ((scribe.steps host).call host d paren callee arguments) := by
  -- what was vouched for before the call is counted is so afterwards
  have hinvoke : ∀ m', Sound m' → Later m m' → Preserves m' (fun v m'' => Vouched m'' v)
      (invoke ((scribe.steps host).callHooks host d) callee arguments) := by
    intro m' hm' hlater
    have hcallee' := hcallee.later hlater hm.ordered hm'.ordered
    have harguments' := fun v hv => (harguments v hv).later hlater hm.ordered hm'.ordered
    cases callee with
    | literal value => exact preserves_throw hm' trivial
    | native f =>
      unfold invoke
      simp only
      split
      · exact (preserves_quiet hm' (quiet_clock host _)).mono fun v m'' hv => vouched_of_literal hv
      · exact preserves_throw hm' trivial
    | closure f =>
      unfold invoke
      simp only
      split
      · exact preserves_activation hd hm' hcallee' harguments'
      · exact preserves_throw hm' trivial
  change Preserves m _ (if m.rest.console.frames = maxFrames then _ else _)
  split
  · have hfail : Quiet (fun _ : Value => False)
        (Exec.fail .callDepthExceeded (some paren.line)) := quiet_fail _ _
    exact (preserves_quiet hm hfail).mono fun a m' h => h.elim
  · exact preserves_inCall hm paren fun m' hm' hlater =>
      preserves_located paren.line (hinvoke m' hm' hlater)

/-! ### Expressions -/

/-- **Expressions.** -/
theorem preserves_evaluateStep (hd : ∀ cost, (d cost).Preserving) (hm : Sound m) {p : Place}
    {e : Expr} {scope : ScopeId} (hat : At m p (.expr e) scope) :
    Preserves m (fun v m' => Vouched m' v) ((scribe.steps host).evaluateStep host d p e scope) := by
  have hparts := hat.parts rfl
  cases e with
  | literal value => exact preserves_pure hm trivial
  | grouping inner => exact (hd 1).evaluate hm (hparts 0 _ rfl)
  | «variable» name => exact preserves_read hm scope name
  | assign name value =>
    refine preserves_bind ((hd 1).evaluate hm (hparts 0 _ rfl)) fun v m₁ hm₁ h₁ hv => ?_
    exact preserves_write hm₁ host scope name hv
  | logical left operator right =>
    refine preserves_bind ((hd 1).evaluate hm (hparts 0 _ rfl)) fun v m₁ hm₁ h₁ hv => ?_
    split
    · exact preserves_pure hm₁ hv
    · exact (hd 1).evaluate hm₁ (hparts.later h₁ hm.ordered hm₁.ordered 1 _ rfl)
  | unary operator right =>
    refine preserves_bind ((hd 1).evaluate hm (hparts 0 _ rfl)) fun v m₁ hm₁ h₁ hv => ?_
    exact (preserves_quiet hm₁ (quiet_orFail _ fun _ h => applyUnary_literal h)).mono
      fun _ _ h => vouched_of_literal h
  | binary left operator right =>
    refine preserves_bind ((hd 1).evaluate hm (hparts 0 _ rfl)) fun v m₁ hm₁ h₁ hv => ?_
    refine preserves_bind ((hd 1).evaluate hm₁ (hparts.later h₁ hm.ordered hm₁.ordered 1 _ rfl))
      fun w m₂ hm₂ h₂ hw => ?_
    exact (preserves_quiet hm₂ (quiet_orFail _ fun _ h => applyBinary_literal h)).mono
      fun _ _ h => vouched_of_literal h
  | call callee paren arguments =>
    refine preserves_bind ((hd 1).evaluate hm (hparts 0 _ rfl)) fun f m₁ hm₁ h₁ hf => ?_
    -- the callee has the number zero, and the arguments come behind it
    have harguments : ∀ j e, arguments[j]? = some e → At m₁ (p.part (1 + j)) (.expr e) scope := by
      intro j e he
      refine hparts.later h₁ hm.ordered hm₁.ordered (1 + j) _ ?_
      rw [Nat.add_comm]
      exact Option.map_eq_some_iff.mpr ⟨e, he, rfl⟩
    refine preserves_bind (preserves_evaluateAll (hd 2) arguments 1 hm₁ harguments)
      fun vs m₂ hm₂ h₂ hvs => ?_
    exact preserves_call hd hm₂ paren (hf.later h₂ hm₁.ordered hm₂.ordered) hvs
  | foreign description => exact preserves_throw hm trivial

/-! ### For loops -/

section ForLoop

variable {p : Place} {start : Option Stmt} {condition update : Option Expr} {body : Stmt}
  {scope current : ScopeId}

theorem preserves_goesOn (hd : ∀ cost, (d cost).Preserving) (hm : Sound m)
    (hinside : Inside m p (.stmt (.forLoop start condition update body)) current) :
    Preserves m (fun _ _ => True)
      (((scribe.steps host).forLoop host d p start condition update body).goesOn current) := by
  cases condition with
  | none => exact preserves_pure hm trivial
  | some e =>
    refine preserves_bind ((hd 4).evaluate hm (hinside 1 _ rfl)) fun v m' hm' _ _ => ?_
    exact preserves_pure hm' trivial

theorem preserves_update (hd : ∀ cost, (d cost).Preserving) (hm : Sound m)
    (hinside : Inside m p (.stmt (.forLoop start condition update body)) current) :
    Preserves m (fun _ _ => True)
      (ForLoop.clause
        ((scribe.steps host).forLoop host d p start condition update body).update current) := by
  cases update with
  | none => exact preserves_pure hm trivial
  | some e =>
    refine preserves_bind ((hd 4).evaluate hm (hinside 2 _ rfl)) fun v m' hm' _ _ => ?_
    exact preserves_pure hm' trivial

/-- **From one pass to the next.** The scope of the next pass is made for the loop as well. -/
theorem preserves_advance (hm : Sound m)
    (hat : At m p (.stmt (.forLoop start condition update body)) scope)
    (hinside : Inside m p (.stmt (.forLoop start condition update body)) current) (fresh : Bool) :
    Preserves m
      (fun following m' => Inside m' p (.stmt (.forLoop start condition update body)) following)
      (((scribe.steps host).forLoop host d p start condition update body).advance scope fresh
        current) := by
  cases fresh with
  | false => exact preserves_pure hm hinside
  | true =>
    have hcopied : Preserves m
        (fun following m' => Inside m' p (.stmt (.forLoop start condition update body)) following)
        (do
          let following ← Action.onStore (·.nextIteration scope current)
          (scribe.steps host).opened p following (·.contents following) do
            Annotating.lift (Exec.emitContents host following)
            return following) := by
      -- the copy holds the values that the cells of this pass hold, which are vouched for
      refine preserves_opened hm hat rfl (hm.values.contents trivial current) host rfl
        fun m' hm' _ hinside' => ?_
      refine preserves_bind (preserves_quiet hm'
        (quiet_of_reports (reports_emitContents host _))) fun _ m₁ hm₁ h₁ _ => ?_
      exact preserves_pure hm₁ (hinside'.later h₁ hm'.ordered hm₁.ordered)
    exact hcopied

/-- **A pass** takes place inside the loop, and the next one does so too. -/
theorem preserves_pass (hd : ∀ cost, (d cost).Preserving) (hm : Sound m)
    (hat : At m p (.stmt (.forLoop start condition update body)) scope)
    (hinside : Inside m p (.stmt (.forLoop start condition update body)) current) (fresh : Bool) :
    Preserves m
      (Turn.Says (fun following m' => At m' p (.stmt (.forLoop start condition update body)) scope ∧
        Inside m' p (.stmt (.forLoop start condition update body)) following) fun _ _ => True)
      (((scribe.steps host).forLoop host d p start condition update body).pass scope fresh
        current) := by
  refine preserves_bind (preserves_goesOn hd hm hinside) fun goesOn m₁ hm₁ h₁ _ => ?_
  have hinside₁ := hinside.later h₁ hm.ordered hm₁.ordered
  cases goesOn with
  | false => exact preserves_pure hm₁ trivial
  | true =>
    refine preserves_bind ((hd 4).execute hm₁ (hinside₁ 3 _ rfl)) fun _ m₂ hm₂ h₂ _ => ?_
    have hat₂ := hat.later (h₁.trans h₂) hm.ordered hm₂.ordered
    have hinside₂ := hinside₁.later h₂ hm₁.ordered hm₂.ordered
    -- the update is run in the scope of the following pass
    refine preserves_bind (preserves_advance hm₂ hat₂ hinside₂ fresh)
      fun following m₃ hm₃ h₃ hfollowing => ?_
    refine preserves_bind (preserves_update hd hm₃ hfollowing) fun _ m₄ hm₄ h₄ _ => ?_
    exact preserves_pure hm₄ ⟨hat₂.later (h₃.trans h₄) hm₂.ordered hm₄.ordered,
      hfollowing.later h₄ hm₃.ordered hm₄.ordered⟩

/-- **For loops.** The scope of every pass is made for the loop; each is below the scope around the
loop, and the parts of the loop may be run in it. -/
theorem preserves_forLoop (hd : ∀ cost, (d cost).Preserving) (hm : Sound m)
    (hat : At m p (.stmt (.forLoop start condition update body)) scope) :
    Preserves m (fun _ _ => True)
      (((scribe.steps host).forLoop host d p start condition update body).run .unfinished
        host.passes scope) := by
  have hnone : ∀ item ∈ ([] : List (String × Value × Bool)), Vouched m item.2.1 := by simp
  -- written out, the loop opens a scope, runs its first clause there and then passes
  have hrun : Preserves m (fun _ _ => True) (do
      let first ← Action.onStore (·.newScope (some scope))
      (scribe.steps host).opened p first (fun _ => []) do
        ForLoop.clause (start.map fun s scope => (d 4).execute (p.part 0) s scope) first
        let fresh := !((← Action.store).bindings first).isEmpty
        iterate .unfinished
          (((scribe.steps host).forLoop host d p start condition update body).pass scope fresh)
          host.passes first) := by
    refine preserves_opened hm hat rfl hnone host rfl fun m₁ hm₁ h₁ hinside => ?_
    have hstart : Preserves m₁ (fun _ _ => True)
        (ForLoop.clause (start.map fun s scope => (d 4).execute (p.part 0) s scope)
          ⟨m.store.scopes.size⟩) := by
      cases start with
      | none => exact preserves_pure hm₁ trivial
      | some s => exact (hd 4).execute hm₁ (hinside 0 _ rfl)
    refine preserves_bind hstart fun _ m₂ hm₂ h₂ _ => ?_
    -- what the first clause has declared decides whether there are copies
    have hloop : ∀ fresh, Preserves m₂ (fun _ _ => True)
        (iterate .unfinished
          (((scribe.steps host).forLoop host d p start condition update body).pass scope fresh)
          host.passes ⟨m.store.scopes.size⟩) := by
      intro fresh
      refine preserves_iterate (fun current m' =>
        At m' p (.stmt (.forLoop start condition update body)) scope ∧
          Inside m' p (.stmt (.forLoop start condition update body)) current) ?_ host.passes _ hm₂ ?_
      · exact fun current m' hm' hcurrent => preserves_pass hd hm' hcurrent.1 hcurrent.2 fresh
      · exact ⟨hat.later (h₁.trans h₂) hm.ordered hm₂.ordered,
          hinside.later h₂ hm₁.ordered hm₂.ordered⟩
    exact hloop _
  exact hrun

end ForLoop

/-! ### Statements -/

/-- **Statements.** -/
theorem preserves_executeStep (hd : ∀ cost, (d cost).Preserving) (hm : Sound m) {p : Place}
    {s : Stmt} {scope : ScopeId} (hat : At m p (.stmt s) scope) :
    Preserves m (fun _ _ => True) ((scribe.steps host).executeStep host d p s scope) := by
  cases s with
  | expression value =>
    refine preserves_bind ((hd 1).evaluate hm (hat.parts rfl 0 _ rfl)) fun v m₁ hm₁ h₁ hv => ?_
    exact preserves_pure hm₁ trivial
  | print value =>
    refine preserves_bind ((hd 1).evaluate hm (hat.parts rfl 0 _ rfl)) fun v m₁ hm₁ h₁ hv => ?_
    exact preserves_quiet hm₁ (quiet_print _)
  | «variable» name initial const =>
    have hinitial : ∀ e, initial = some e → At m (p.part 0) (.expr e) scope := by
      rintro e rfl
      exact hat.parts rfl 0 _ rfl
    refine preserves_bind (preserves_evaluateOption (hd 1) hm hinitial) fun v m₁ hm₁ h₁ hv => ?_
    exact preserves_declare hm₁ host scope name.lexeme hv const
  | block body =>
    -- the scope of the block is made for it, and mirrors the nesting of what stands inside
    have hnone : ∀ item ∈ ([] : List (String × Value × Bool)), Vouched m item.2.1 := by simp
    have hrun : Preserves m (fun _ _ => True) (do
        let inner ← Action.onStore (·.newScope (some scope))
        (scribe.steps host).opened p inner (fun _ => []) (Steps.executeAll scribe.next
          (fun p s => (d 2).execute p s inner) (p.part 0) body)) :=
      preserves_opened hm hat rfl hnone host rfl fun m' hm' _ hinside =>
        preserves_body (hd 2) hm' (fun i => rfl) hinside
    exact hrun
  | conditional condition yes no =>
    refine preserves_bind ((hd 1).evaluate hm (hat.parts rfl 0 _ rfl)) fun v m₁ hm₁ h₁ hv => ?_
    have hparts := (hat.later h₁ hm.ordered hm₁.ordered).parts rfl
    split
    · exact (hd 1).execute hm₁ (hparts 1 _ rfl)
    · cases no with
      | none => exact preserves_pure hm₁ trivial
      | some no => exact (hd 1).execute hm₁ (hparts 2 _ rfl)
  | whileLoop condition body =>
    -- nothing but the place of the loop is carried from turn to turn
    refine preserves_iterate (fun _ m' => At m' p (.stmt (.whileLoop condition body)) scope)
      (fun _ m₁ hm₁ hat₁ => ?_) host.passes () hm hat
    refine preserves_bind ((hd 1).evaluate hm₁ (hat₁.parts rfl 0 _ rfl)) fun v m₂ hm₂ h₂ hv => ?_
    have hat₂ := hat₁.later h₂ hm₁.ordered hm₂.ordered
    split
    · refine preserves_bind ((hd 1).execute hm₂ (hat₂.parts rfl 1 _ rfl)) fun _ m₃ hm₃ h₃ _ => ?_
      exact preserves_pure hm₃ (hat₂.later h₃ hm₂.ordered hm₃.ordered)
    · exact preserves_pure hm₂ trivial
  | forLoop start condition update body => exact preserves_forLoop hd hm hat
  | function name parameters body =>
    have hrun : Preserves m (fun _ _ => True) (do
        let f ← Action.onStore (·.newClosure name.lexeme (parameters.map (·.lexeme)) body scope)
        scribe.before (fun _ => .made p f)
          ((scribe.steps host).declare scope name.lexeme (.closure f) false)) :=
      -- the name of the function stands for a closure that is vouched for by now
      preserves_made hm hat fun f m' hm' hf _ =>
        preserves_declare hm' host scope name.lexeme hf false
    exact hrun
  | returning keyword value =>
    have hvalue : ∀ e, value = some e → At m (p.part 0) (.expr e) scope := by
      rintro e rfl
      exact hat.parts rfl 0 _ rfl
    refine preserves_bind (preserves_evaluateOption (hd 1) hm hvalue) fun v m₁ hm₁ h₁ hv => ?_
    exact preserves_throw hm₁ hv
  | foreign description => exact preserves_throw hm trivial

/-! ### The evaluator of a host -/

/-- Without room nothing happens to the invariant. -/
theorem preserving_full (host : Host) : Evaluator.Preserving (scribe.steps host).full := by
  have hfail : ∀ {α : Type}, Quiet (fun _ : α => False) (Exec.fail .roomExhausted none) :=
    quiet_fail _ _
  constructor
  case evaluate =>
    exact fun hm hat => preserves_within hm hat fun m' hm' _ =>
      (preserves_quiet hm' hfail).mono fun _ _ h => h.elim
  case execute =>
    exact fun hm hat => preserves_within hm hat fun m' hm' _ =>
      (preserves_quiet hm' hfail).mono fun _ _ h => h.elim

/-- **The evaluator of a host** keeps the invariant, in any room. -/
theorem preserving_evaluator (host : Host) (room cost : Nat) :
    Evaluator.Preserving (scribe.evaluator host room cost) := by
  refine recurse_induction (preserving_full host) (fun inner hinner => ?_) room cost
  constructor
  case evaluate =>
    exact fun hm hat => preserves_within hm hat fun m' hm' hlater =>
      preserves_evaluateStep hinner hm' (hat.later hlater hm.ordered hm'.ordered)
  case execute =>
    exact fun hm hat => preserves_within hm hat fun m' hm' hlater =>
      preserves_executeStep hinner hm' (hat.later hlater hm.ordered hm'.ordered)

end Surveyor

end Lox
