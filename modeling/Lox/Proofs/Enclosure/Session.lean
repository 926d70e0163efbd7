import Lox.Proofs.Enclosure.Store
import Lox.Proofs.Relocation.Session

/-!
# Sessions without the block around a program

Runs inside a block are compared with runs without it. They begin in an enclosed session with so many
scopes, in which the scopes and functions that they were given are inside the block, and lead to
another one, which may have more scopes. Events are left out, since the numbers of scopes and the order
of names in them may differ.

* `Session.unwrap`, `Interrupt.unwrap` — sessions and interrupts without the block;
* `Session.Enclosed` — enclosed sessions with so many scopes;
* `Enclosure.Runs` — runs that do the same without the block, with a rule for each way in which runs
  are put together and one for every small step.
-/

namespace Lox

/-- **An interrupt without the block.** -/
def Interrupt.unwrap : Interrupt → Interrupt
  | .returning v => .returning v.unwrap
  | .failed e => .failed e
  | .misplaced node => .misplaced node
  | .unfinished => .unfinished

/-- Interrupts inside the block. -/
def Interrupt.Inside (scopes : Nat) : Interrupt → Prop
  | .returning v => v.Inside scopes
  | .failed _ | .misplaced _ | .unfinished => True

theorem Interrupt.Inside.mono {scopes scopes' : Nat} (h : scopes ≤ scopes') {e : Interrupt}
    (he : e.Inside scopes) : e.Inside scopes' := by
  cases e with
  | returning v => exact Value.Inside.mono h he
  | failed e | misplaced node | unfinished => trivial

/-- **A session without the block,** and without its events. -/
def Session.unwrap (m : Session) : Session := ⟨m.store.unwrap, { m.rest with events := [] }⟩

/-- **Enclosed sessions** with so many scopes or more. -/
structure Session.Enclosed (scopes : Nat) (m : Session) : Prop where
  store : m.store.Enclosed
  globals_eq : m.rest.globals = ⟨0⟩
  scopes_le : scopes ≤ m.store.scopes.size

theorem Session.Enclosed.mono {scopes scopes' : Nat} {m : Session} (hm : m.Enclosed scopes')
    (h : scopes ≤ scopes') : m.Enclosed scopes := { hm with scopes_le := Nat.le_trans h hm.scopes_le }

/-- Nothing but the number of scopes matters for the scopes that there are. -/
theorem Session.Enclosed.whole {scopes : Nat} {m : Session} (hm : m.Enclosed scopes) :
    m.Enclosed m.store.scopes.size := { hm with scopes_le := Nat.le_refl _ }

namespace Enclosure

/-! ### Runs -/

section Runs

variable {α α' β β' : Type}

/-- **Runs that do the same without the block,** from any enclosed session with so many scopes. The
result is `good` for the scopes that there are in the end, and interrupts are inside the block. -/
def Runs (scopes : Nat) (onResult : α → α') (good : Nat → α → Prop) (act : Exec α)
    (act' : Exec α') : Prop :=
  ∀ m, m.Enclosed scopes → Conveys Session.unwrap Interrupt.unwrap onResult
    (fun a m' => m'.Enclosed scopes ∧ good m'.store.scopes.size a)
    (fun e m' => m'.Enclosed scopes ∧ e.Inside m'.store.scopes.size) act act' m

/-- Runs with values inside the block. -/
abbrev RunsValue (scopes : Nat) (act act' : Exec Value) : Prop :=
  Runs scopes Value.unwrap Value.Inside act act'

/-- Runs with the same results. -/
abbrev RunsSame (scopes : Nat) (act act' : Exec α) : Prop :=
  Runs scopes id (fun _ _ => True) act act'

/-- Runs with scopes below that of the block. -/
abbrev RunsScope (scopes : Nat) (act act' : Exec ScopeId) : Prop :=
  Runs scopes ScopeId.unwrap ScopeId.Below act act'

variable {scopes : Nat} {onResult : α → α'} {good : Nat → α → Prop} {onFirst : β → β'}
  {first : Nat → β → Prop}

theorem runs_pure {a : α} (h : ∀ more, scopes ≤ more → good more a) :
    Runs scopes onResult good (pure a) (pure (onResult a)) :=
  fun _ hm => ⟨rfl, hm, h _ hm.scopes_le⟩

theorem runs_throw {e : Interrupt} (h : e.Inside scopes) :
    Runs scopes onResult good (throw e) (throw e.unwrap) :=
  fun _ hm => ⟨rfl, hm, h.mono hm.scopes_le⟩

/-- **One run after the other.** The second may begin with more scopes. -/
theorem runs_bind {act : Exec β} {act' : Exec β'} {next : β → Exec α} {next' : β' → Exec α'}
    (h : Runs scopes onFirst first act act')
    (hnext : ∀ more b, scopes ≤ more → first more b →
      Runs more onResult good (next b) (next' (onFirst b))) :
    Runs scopes onResult good (act >>= next) (act' >>= next') := by
  refine fun m hm => conveys_bind ((h m hm).mono (fun b m' hb => ?_) fun _ _ he => he)
  -- the second begins with all scopes that the first has left
  have hle := hb.1.scopes_le
  exact (hnext _ b hle hb.2 m' hb.1.whole).mono (fun _ _ ha => ⟨ha.1.mono hle, ha.2⟩)
    fun _ _ he => ⟨he.1.mono hle, he.2⟩

/-- A look at the session. -/
theorem runs_get_bind {next : Session → Exec α} {next' : Session → Exec α'}
    (hnext : ∀ m, Runs scopes onResult good (next m) (next' m.unwrap)) :
    Runs scopes onResult good (get >>= next) (get >>= next') := fun m hm => hnext m m hm

/-- **Bounded repetition.** What is passed on from turn to turn stays `kept`. -/
theorem runs_iterate (onNext : β → β') (kept : Nat → β → Prop) {step : β → Exec (Turn β Unit)}
    {step' : β' → Exec (Turn β' Unit)}
    (h : ∀ more b, scopes ≤ more → kept more b → Runs more (Turn.map onNext id)
      (fun n turn => turn.Says (fun b n => kept n b) (fun _ _ => True) n) (step b)
      (step' (onNext b)))
    (passes : Nat) {b : β} (hb : ∀ more, scopes ≤ more → kept more b) :
    RunsSame scopes (iterate .unfinished step passes b)
      (iterate .unfinished step' passes (onNext b)) := by
  intro m hm
  -- the invariant is about the scopes of the session at that turn, of which there may be ever more
  change Conveys Session.unwrap Interrupt.unwrap id _ _ (iterate .unfinished step passes b)
    (iterate (Interrupt.unwrap .unfinished) step' passes (onNext b)) m
  refine conveys_iterate (fun b m => m.Enclosed scopes ∧ kept m.store.scopes.size b)
    (fun b m hb => ?_) (fun _ _ hb => ⟨hb.1, trivial⟩) passes b m ⟨hm, hb _ hm.scopes_le⟩
  have hle := hb.1.scopes_le
  refine (h _ b hle hb.2 m hb.1.whole).mono (fun turn m' hm' => ?_)
    fun _ _ he => ⟨he.1.mono hle, he.2⟩
  cases turn with
  | again b' => exact ⟨hm'.1.mono hle, hm'.2⟩
  | done a => exact ⟨hm'.1.mono hle, trivial⟩

/-- **A step on the store** alone. -/
theorem runs_onStore {act : Store → α × Store} {act' : Store → α' × Store}
    (hsame : ∀ s : Store, s.Enclosed → scopes ≤ s.scopes.size →
      act' s.unwrap = (onResult (act s).1, (act s).2.unwrap))
    (hkept : ∀ s : Store, s.Enclosed → scopes ≤ s.scopes.size → (act s).2.Enclosed ∧
      s.scopes.size ≤ (act s).2.scopes.size ∧ good (act s).2.scopes.size (act s).1) :
    Runs scopes onResult good (Action.onStore act) (Action.onStore act') := by
  intro m hm
  obtain ⟨henclosed, hle, hgood⟩ := hkept m.store hm.store hm.scopes_le
  refine ⟨?_, ⟨henclosed, hm.globals_eq, Nat.le_trans hm.scopes_le hle⟩, hgood⟩
  change EStateM.Result.ok (onResult (act m.store).1) (Session.unwrap ⟨(act m.store).2, m.rest⟩) =
    EStateM.Result.ok (act' m.store.unwrap).1 ⟨(act' m.store.unwrap).2, m.unwrap.rest⟩
  rw [hsame m.store hm.store hm.scopes_le]
  rfl

/-- Events are left out. -/
theorem runs_reports {act : Exec Unit} (h : Reports act) : RunsSame scopes act (pure ()) := by
  intro m hm
  obtain ⟨events, hact⟩ := h m
  unfold Conveys
  rw [hact]
  exact ⟨rfl, ⟨hm.store, hm.globals_eq, hm.scopes_le⟩, trivial⟩

/-- Events in front are left out. -/
theorem runs_reports_bind {act : Exec Unit} {next : Unit → Exec α} {act' : Exec α'}
    (h : Reports act) (hnext : ∀ more, scopes ≤ more → Runs more onResult good (next ()) act') :
    Runs scopes onResult good (act >>= next) act' := by
  change Runs scopes onResult good (act >>= next) ((pure () : Exec Unit) >>= fun _ => act')
  exact runs_bind (runs_reports h) fun more _ hle _ => hnext more hle

end Runs

/-! ### Small steps -/

section Steps

variable {scopes : Nat} {scope : ScopeId} (hscope : scope.Inside scopes)

section Names

include hscope

/-- **Reading a variable.** -/
theorem runs_read (name : Token) :
    RunsValue scopes (Exec.read scope name) (Exec.read scope.unwrap name) := by
  intro m hm
  have hget := hm.store.get_unwrap hscope.1 name.lexeme
  change Outcome.map _ _ _ (Exec.orFail name.line (m.store.get scope name.lexeme) m) =
    Exec.orFail name.line (m.store.unwrap.get scope.unwrap name.lexeme) m.unwrap ∧
      Outcome _ _ (Exec.orFail name.line (m.store.get scope name.lexeme) m)
  rw [hget]
  cases hv : m.store.get scope name.lexeme with
  | error cause => exact ⟨rfl, hm, trivial⟩
  | ok v => exact ⟨rfl, hm, hm.store.values.get trivial hv⟩

/-- **Assigning to a variable.** -/
theorem runs_write (name : Token) {v : Value} (hv : v.Inside scopes) :
    RunsValue scopes (Exec.write scope name v) (Exec.write scope.unwrap name v.unwrap) := by
  intro m hm
  have hlookup : m.unwrap.store.lookup scope.unwrap name.lexeme =
      m.store.lookup scope name.lexeme := hm.store.lookup_unwrap hscope.1 name.lexeme
  have hconst : ∀ c, (m.unwrap.store.cell c).const = (m.store.cell c).const := fun c =>
    congrArg (fun cell => cell.const) (m.store.cell_unwrap c)
  have hlive := hv.mono hm.scopes_le
  unfold Conveys
  rw [Exec.write_eq, Exec.write_eq, hlookup]
  -- the same cell is found on both sides, and it is constant on both or on neither
  cases m.store.lookup scope name.lexeme with
  | error cause => exact ⟨rfl, hm, trivial⟩
  | ok c =>
    simp only [hconst]
    split
    · exact ⟨rfl, hm, trivial⟩
    · have hsize : (m.store.setCell c v).scopes.size = m.store.scopes.size := rfl
      refine ⟨?_, ⟨hm.store.setCell hlive c, hm.globals_eq, hm.scopes_le⟩, hsize ▸ hlive⟩
      exact congrArg (fun s => EStateM.Result.ok v.unwrap (⟨s, _⟩ : Session))
        (m.store.setCell_unwrap c v).symm

/-- **Declaring a name.** -/
theorem runs_declare (host : Host) (name : String) {v : Value} (hv : v.Inside scopes)
    (const : Bool) :
    RunsSame scopes (Exec.declare host scope name v const)
      (Exec.declare host.untraced scope.unwrap name v.unwrap const) := by
  have hstore : RunsSame scopes (Action.onStore (·.declare scope name v const))
      (Action.onStore (·.declare scope.unwrap name v.unwrap const)) :=
    runs_onStore (fun s _ _ => s.declare_unwrap hscope.1 name v const) fun s hs hle =>
      ⟨hs.declare (hscope.mono hle) (hv.mono hle) name const,
        Nat.le_of_eq (s.scopes_size_declare scope name v const).symm, trivial⟩
  exact runs_bind hstore fun _ _ _ _ => runs_reports (reports_emit host _)

/-- **A new scope** inside the block. -/
theorem runs_newScope :
    RunsScope scopes (Action.onStore (·.newScope (some scope)))
      (Action.onStore (·.newScope (some scope.unwrap))) := by
  refine runs_onStore
    (fun s hs _ => s.newScope_unwrap (Nat.le_of_succ_le hs.two_le_size) hscope.1) fun s hs hle => ?_
  have hsize := s.scopes_size_newScope (some scope)
  refine ⟨hs.newScope (hscope.mono hle), by omega, ?_⟩
  rw [hsize]
  exact ⟨hs.two_le_size, Nat.lt_succ_self _⟩

/-- The scope of the next pass. -/
theorem runs_nextIteration {current : ScopeId} (hcurrent : current.Below scopes) :
    RunsScope scopes (Action.onStore (·.nextIteration scope current))
      (Action.onStore (·.nextIteration scope.unwrap current.unwrap)) := by
  refine runs_onStore (fun s hs _ => hs.nextIteration_unwrap hscope.1 hcurrent.1) fun s hs hle => ?_
  have hsize : (s.nextIteration scope current).2.scopes.size = s.scopes.size + 1 :=
    (Store.scopes_size_declareAll _ _ _).trans (s.scopes_size_newScope (some scope))
  refine ⟨hs.nextIteration (hscope.mono hle) current, by omega, ?_⟩
  rw [hsize]
  exact ⟨hs.two_le_size, Nat.lt_succ_self _⟩

/-- **Closures** that capture a scope inside the block. -/
theorem runs_newClosure (name : String) (parameters : List String) (body : List Stmt) :
    Runs scopes Closure.unwrap (fun n c => c.scope.Inside n)
      (Action.onStore (·.newClosure name parameters body scope))
      (Action.onStore (·.newClosure name parameters body scope.unwrap)) :=
  runs_onStore (fun _ _ _ => rfl) fun _ hs hle =>
    ⟨hs.newClosure name parameters body scope, Nat.le_refl _, hscope.mono hle⟩

end Names

theorem runs_print (text : String) : RunsSame scopes (Exec.print text) (Exec.print text) :=
  fun _ hm => ⟨rfl, ⟨hm.store, hm.globals_eq, hm.scopes_le⟩, trivial⟩

theorem runs_readClock (host : Host) :
    RunsValue scopes (Exec.readClock host) (Exec.readClock host.untraced) :=
  fun _ hm => ⟨rfl, ⟨hm.store, hm.globals_eq, hm.scopes_le⟩, trivial⟩

/-- The scope of a call. -/
theorem runs_activate {c : Closure} (hc : c.scope.Inside scopes) {arguments : List Value}
    (harguments : ∀ v ∈ arguments, v.Inside scopes) :
    RunsScope scopes (Action.onStore (·.activate c arguments))
      (Action.onStore (·.activate c.unwrap (arguments.map Value.unwrap))) := by
  refine runs_onStore (fun s hs _ => hs.activate_unwrap hc.1 arguments) fun s hs hle => ?_
  have hsize : (s.activate c arguments).2.scopes.size = s.scopes.size + 1 :=
    (Store.scopes_size_declareAll _ _ _).trans (s.scopes_size_newScope (some c.scope))
  refine ⟨hs.activate (hc.mono hle) fun v hv => (harguments v hv).mono hle, by omega, ?_⟩
  rw [hsize]
  exact ⟨hs.two_le_size, Nat.lt_succ_self _⟩

variable {α α' : Type} {onResult : α → α'} {good : Nat → α → Prop}

/-- What a call adds to errors. -/
theorem runs_located {act : Exec α} {act' : Exec α'} (h : Runs scopes onResult good act act')
    (line : Int) :
    Runs scopes onResult good (Exec.located line act) (Exec.located line act') := by
  intro m hm
  obtain ⟨hsame, hkept⟩ := h m hm
  unfold Conveys Exec.located
  rw [← hsame]
  cases hact : act m with
  | ok a m' =>
    rw [hact] at hkept
    exact ⟨rfl, hkept⟩
  | error e m' =>
    rw [hact] at hkept
    cases e <;> exact ⟨rfl, hkept⟩

/-- **One more call in progress.** -/
theorem runs_inFrame {act : Exec α} {act' : Exec α'} (h : Runs scopes onResult good act act') :
    Runs scopes onResult good (Exec.inFrame act) (Exec.inFrame act') := by
  intro m hm
  let inner : Session := { m with rest := { m.rest with frames := m.rest.frames + 1 } }
  have hinner : ({ m.unwrap with
      rest := { m.unwrap.rest with frames := m.unwrap.rest.frames + 1 } } : Session) =
    inner.unwrap := rfl
  obtain ⟨hsame, hkept⟩ := h inner ⟨hm.store, hm.globals_eq, hm.scopes_le⟩
  unfold Conveys
  rw [Exec.inFrame_eq, Exec.inFrame_eq, hinner, ← hsame]
  cases hact : act inner with
  | ok a m' =>
    rw [hact] at hkept
    exact ⟨rfl, ⟨hkept.1.store, hkept.1.globals_eq, hkept.1.scopes_le⟩, hkept.2⟩
  | error e m' =>
    rw [hact] at hkept
    exact ⟨rfl, ⟨hkept.1.store, hkept.1.globals_eq, hkept.1.scopes_le⟩, hkept.2⟩

/-- The value of a body. -/
theorem runs_valueOf {act act' : Exec Unit} (h : RunsSame scopes act act') :
    RunsValue scopes (Exec.valueOf act) (Exec.valueOf act') := by
  intro m hm
  obtain ⟨hsame, hkept⟩ := h m hm
  unfold Conveys Exec.valueOf
  rw [← hsame]
  cases hact : act m with
  | ok a m' =>
    rw [hact] at hkept
    exact ⟨rfl, hkept.1, trivial⟩
  | error e m' =>
    rw [hact] at hkept
    cases e <;> exact ⟨rfl, hkept⟩

end Steps

end Enclosure

end Lox
