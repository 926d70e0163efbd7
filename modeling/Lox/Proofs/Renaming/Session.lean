import Lox.Proofs.Relocation.Session
import Lox.Proofs.Renaming.Store

/-!
# Renamed sessions

What a renaming makes of a session in which programs have run, and of the way in which a run ends.
Runs are compared from sessions in whose closures all functions keep their names; and that is so in
every session that they lead to. Events are left out, because they tell the names that are declared.

* `Renaming.session`, `Renaming.interrupt` — renamed sessions and interrupts;
* `Renaming.Runs` — runs that do the same with everything renamed, with a rule for each way in which
  runs are put together and one for every small step.
-/

namespace Lox

namespace Renaming

variable (ρ : Renaming)

/-- **A renamed interrupt.** An error keeps its line. -/
def interrupt : Interrupt → Interrupt
  | .returning v => .returning (v.rename ρ)
  | .failed e => .failed { e with cause := e.cause.rename ρ }
  | .misplaced node => .misplaced node
  | .unfinished => .unfinished

/-- **A renamed session,** without its events. -/
def session (m : Session) : Session := ⟨m.store.rename ρ, { m.rest with events := [] }⟩

/-- **Sessions in which functions keep their names:** those declared in the bodies of closures. -/
def FixesSession (m : Session) : Prop := m.store.Keeps ρ.FixesValue

/-- Interrupts in which functions keep their names. -/
def FixesInterrupt : Interrupt → Prop
  | .returning v => ρ.FixesValue v
  | .failed _ | .misplaced _ | .unfinished => True

/-! ### Runs -/

section Runs

variable {α α' β β' : Type}

/-- **Runs that do the same** with everything renamed. The results satisfy `good`, and in the
sessions and interrupts to which the runs lead functions keep their names. -/
def Runs (onResult : α → α') (good : α → Prop) (act : Exec α) (act' : Exec α') : Prop :=
  ∀ m, ρ.FixesSession m →
    Outcome.map ρ.session ρ.interrupt onResult (act m) = act' (ρ.session m) ∧
      Outcome (fun a m => good a ∧ ρ.FixesSession m)
        (fun e m => ρ.FixesInterrupt e ∧ ρ.FixesSession m) (act m)

/-- Runs with renamed values. -/
abbrev RunsValue (act act' : Exec Value) : Prop := ρ.Runs (Value.rename ρ) ρ.FixesValue act act'

/-- Runs with the same results. -/
abbrev RunsSame (act act' : Exec α) : Prop := ρ.Runs id (fun _ => True) act act'

variable {ρ} {onResult : α → α'} {good : α → Prop} {onFirst : β → β'} {first : β → Prop}

theorem runs_pure {a : α} (h : good a) : ρ.Runs onResult good (pure a) (pure (onResult a)) :=
  fun _ hm => ⟨rfl, h, hm⟩

theorem runs_throw {e : Interrupt} (h : ρ.FixesInterrupt e) :
    ρ.Runs onResult good (throw e) (throw (ρ.interrupt e)) := fun _ hm => ⟨rfl, h, hm⟩

/-- **One run after the other.** -/
theorem runs_bind {act : Exec β} {act' : Exec β'} {next : β → Exec α} {next' : β' → Exec α'}
    (h : ρ.Runs onFirst first act act')
    (hnext : ∀ b, first b → ρ.Runs onResult good (next b) (next' (onFirst b))) :
    ρ.Runs onResult good (act >>= next) (act' >>= next') := fun m hm =>
  conveys_bind (Conveys.mono (h m hm) (fun b m' hb => hnext b hb.1 m' hb.2) fun _ _ he => he)

/-- A look at the session. -/
theorem runs_get_bind {next : Session → Exec α} {next' : Session → Exec α'}
    (hnext : ∀ m, ρ.Runs onResult good (next m) (next' (ρ.session m))) :
    ρ.Runs onResult good (get >>= next) (get >>= next') := fun m hm => hnext m m hm

theorem composes_runsSame : Composes fun _ (act act' : Exec _) => ρ.RunsSame act act' where
  pure _ := runs_pure trivial
  bind h hnext := runs_bind h fun b _ => hnext b

/-- **A step on the store** alone. -/
theorem runs_onStore {act : Store → α × Store} {act' : Store → α' × Store}
    (hsame : ∀ s, act' (s.rename ρ) = (onResult (act s).1, (act s).2.rename ρ))
    (hkept : ∀ s, s.Keeps ρ.FixesValue → good (act s).1 ∧ (act s).2.Keeps ρ.FixesValue) :
    ρ.Runs onResult good (Action.onStore act) (Action.onStore act') := by
  intro m hm
  refine ⟨?_, hkept m.store hm⟩
  change EStateM.Result.ok (onResult (act m.store).1) (ρ.session ⟨(act m.store).2, m.rest⟩) =
    EStateM.Result.ok (act' (m.store.rename ρ)).1
      ⟨(act' (m.store.rename ρ)).2, (ρ.session m).rest⟩
  rw [hsame]
  rfl

/-- Events are left out. -/
theorem runs_reports {act : Exec Unit} (h : Reports act) : ρ.RunsSame act (pure ()) := by
  intro m hm
  obtain ⟨events, hact⟩ := h m
  rw [hact]
  exact ⟨rfl, trivial, hm⟩

/-- Events in front are left out. -/
theorem runs_reports_bind {act : Exec Unit} {next : Unit → Exec α} {act' : Exec α'}
    (h : Reports act) (hnext : ρ.Runs onResult good (next ()) act') :
    ρ.Runs onResult good (act >>= next) act' := by
  change ρ.Runs onResult good (act >>= next) ((pure () : Exec Unit) >>= fun _ => act')
  exact runs_bind (runs_reports h) fun _ _ => hnext

end Runs

/-! ### Small steps -/

section Steps

variable {ρ} {α α' : Type} {onResult : α → α'} {good : α → Prop}

/-- The value of an operation, or its failure. -/
theorem runs_orFail (line : Int) {result : Except Cause α} (h : ∀ a, result = .ok a → good a) :
    ρ.Runs onResult good (Exec.orFail line result)
      (Exec.orFail line ((result.map onResult).mapError (Cause.rename ρ))) := by
  cases result with
  | ok a => exact runs_pure (h a rfl)
  | error cause => exact runs_throw trivial

/-- **Reading a variable.** -/
theorem runs_read (scope : ScopeId) (name : Token) :
    ρ.RunsValue (Exec.read scope name) (Exec.read scope (name.rename ρ)) := by
  intro m hm
  have hget : (m.store.rename ρ).get scope (ρ.name name.lexeme) =
      ((m.store.get scope name.lexeme).map (Value.rename ρ)).mapError (Cause.rename ρ) := by
    rw [Store.get, Store.get, Store.lookup_rename]
    cases m.store.lookup scope name.lexeme with
    | error cause => rfl
    | ok c => exact congrArg (fun cell => Except.ok cell.value) (Store.cell_rename ρ m.store c)
  change Outcome.map _ _ _ (Exec.orFail name.line (m.store.get scope name.lexeme) m) =
    Exec.orFail name.line ((m.store.rename ρ).get scope (ρ.name name.lexeme)) (ρ.session m) ∧ _
  rw [hget]
  exact runs_orFail name.line (fun v hv => hm.get trivial hv) m hm

/-- **Assigning to a variable.** -/
theorem runs_write (scope : ScopeId) (name : Token) {v : Value} (hv : ρ.FixesValue v) :
    ρ.RunsValue (Exec.write scope name v) (Exec.write scope (name.rename ρ) (v.rename ρ)) := by
  intro m hm
  have hlookup : (ρ.session m).store.lookup scope (name.rename ρ).lexeme =
      (m.store.lookup scope name.lexeme).mapError (Cause.rename ρ) :=
    Store.lookup_rename ρ m.store scope name.lexeme
  have hconst : ∀ c, ((ρ.session m).store.cell c).const = (m.store.cell c).const := fun c => by
    rw [show (ρ.session m).store = m.store.rename ρ from rfl, Store.cell_rename]
    rfl
  rw [Exec.write_eq, Exec.write_eq, hlookup]
  cases m.store.lookup scope name.lexeme with
  | error cause => exact ⟨rfl, trivial, hm⟩
  | ok c =>
    simp only [Except.mapError, hconst]
    split
    · exact ⟨rfl, trivial, hm⟩
    · refine ⟨?_, hv, Store.Keeps.setCell hm hv c⟩
      exact congrArg (fun s => EStateM.Result.ok (v.rename ρ) (⟨s, _⟩ : Session))
        (Store.setCell_rename ρ m.store c v).symm

theorem runs_print (text : String) : ρ.RunsSame (Exec.print text) (Exec.print text) :=
  fun _ hm => ⟨rfl, trivial, hm⟩

theorem runs_readClock (host : Host) :
    ρ.RunsValue (Exec.readClock host) (Exec.readClock host.untraced) :=
  fun _ hm => ⟨rfl, trivial, hm⟩

theorem runs_emit (host : Host) (event event' : Unit → Event) :
    ρ.RunsSame (Exec.emit host event) (Exec.emit host.untraced event') :=
  runs_reports (reports_emit host event)

/-- **Declaring a name.** -/
theorem runs_declare (host : Host) (scope : ScopeId) (name : String) {v : Value}
    (hv : ρ.FixesValue v) (const : Bool) :
    ρ.RunsSame (Exec.declare host scope name v const)
      (Exec.declare host.untraced scope (ρ.name name) (v.rename ρ) const) := by
  have hstore : ρ.RunsSame (Action.onStore (·.declare scope name v const))
      (Action.onStore (·.declare scope (ρ.name name) (v.rename ρ) const)) :=
    runs_onStore (fun s => Store.declare_rename ρ s scope name v const)
      fun s hs => ⟨trivial, hs.declare hv scope name const⟩
  exact runs_bind hstore fun _ _ => runs_emit host _ _

/-- A new scope. -/
theorem runs_newScope (parent : Option ScopeId) :
    ρ.RunsSame (Action.onStore (·.newScope parent)) (Action.onStore (·.newScope parent)) :=
  runs_onStore (fun s => Store.newScope_rename ρ s parent) fun _ hs => ⟨trivial, hs⟩

/-- The scope of the next pass. -/
theorem runs_nextIteration (enclosing current : ScopeId) :
    ρ.RunsSame (Action.onStore (·.nextIteration enclosing current))
      (Action.onStore (·.nextIteration enclosing current)) :=
  runs_onStore (fun s => Store.nextIteration_rename ρ s enclosing current)
    fun _ hs => ⟨trivial, hs.nextIteration trivial enclosing current⟩

/-- A scope binds as many names as before. -/
theorem runs_declares (scope : ScopeId) :
    ρ.RunsSame (ForLoop.declares scope) (ForLoop.declares scope) := by
  refine runs_onStore (fun s => ?_) fun _ hs => ⟨trivial, hs⟩
  rw [Store.bindings_rename, renameBindings, List.isEmpty_map]
  rfl

/-- The scope of a call. -/
theorem runs_activate (c : Closure) {arguments : List Value}
    (harguments : ∀ v ∈ arguments, ρ.FixesValue v) :
    ρ.RunsSame (Action.onStore (·.activate c arguments))
      (Action.onStore (·.activate (c.rename ρ) (arguments.map (Value.rename ρ)))) :=
  runs_onStore (fun s => Store.activate_rename ρ s c arguments)
    fun _ hs => ⟨trivial, hs.activate c harguments⟩

/-- **Closures.** Their own name is one that stays. -/
theorem runs_newClosure {name : String} (hname : ρ.name name = name) (parameters : List String)
    {body : List Stmt} (hbody : ρ.FixesAll body) (scope : ScopeId) :
    ρ.Runs (Closure.rename ρ) (fun c => ρ.FixesAll c.body)
      (Action.onStore (·.newClosure name parameters body scope))
      (Action.onStore (·.newClosure (ρ.name name) (parameters.map ρ.name) (Stmt.renameAll ρ body)
        scope)) := by
  rw [hname]
  exact runs_onStore (fun s => rfl) fun _ hs => ⟨hbody, hs⟩

/-- What a call adds to errors. -/
theorem runs_located {act : Exec α} {act' : Exec α'} (h : ρ.Runs onResult good act act')
    (line : Int) : ρ.Runs onResult good (Exec.located line act) (Exec.located line act') := by
  intro m hm
  obtain ⟨hsame, hkept⟩ := h m hm
  unfold Exec.located
  rw [← hsame]
  cases hact : act m with
  | ok a m' =>
    rw [hact] at hkept
    exact ⟨rfl, hkept⟩
  | error e m' =>
    rw [hact] at hkept
    cases e <;> exact ⟨rfl, hkept⟩

/-- **One more call in progress.** -/
theorem runs_inFrame {act : Exec α} {act' : Exec α'} (h : ρ.Runs onResult good act act') :
    ρ.Runs onResult good (Exec.inFrame act) (Exec.inFrame act') := by
  intro m hm
  let inner : Session := { m with rest := { m.rest with frames := m.rest.frames + 1 } }
  have hinner : ({ ρ.session m with
      rest := { (ρ.session m).rest with frames := (ρ.session m).rest.frames + 1 } } : Session) =
    ρ.session inner := rfl
  obtain ⟨hsame, hkept⟩ := h inner hm
  rw [Exec.inFrame_eq, Exec.inFrame_eq, hinner, ← hsame]
  cases hact : act inner with
  | ok a m' =>
    rw [hact] at hkept
    exact ⟨rfl, hkept⟩
  | error e m' =>
    rw [hact] at hkept
    exact ⟨rfl, hkept⟩

/-- The value of a body. -/
theorem runs_valueOf {act act' : Exec Unit} (h : ρ.RunsSame act act') :
    ρ.RunsValue (Exec.valueOf act) (Exec.valueOf act') := by
  intro m hm
  obtain ⟨hsame, hkept⟩ := h m hm
  unfold Exec.valueOf
  rw [← hsame]
  cases hact : act m with
  | ok a m' =>
    rw [hact] at hkept
    exact ⟨rfl, trivial, hkept.2⟩
  | error e m' =>
    rw [hact] at hkept
    cases e <;> exact ⟨rfl, hkept⟩

end Steps

end Renaming

end Lox
