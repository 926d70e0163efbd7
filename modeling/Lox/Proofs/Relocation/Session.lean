import Lox.Proofs.Monitor.Monitor
import Lox.Proofs.Parametricity
import Lox.Proofs.Relocation.Store

/-!
# Relocated sessions

What a relocation makes of a session in which programs have run. Where an error has the line of a
token, the relocated error has that of the moved token. Events are left out, because they tell where
tokens are.

* `Relocation.session`, `Relocation.monitor`, `Relocation.interrupt` — what this makes of a session, of
  the notes about it, and of how a run ends;
* `Relocation.Moves` — runs that do the same with everything relocated, with a rule for every step.
-/

namespace Lox

/-- The same host without a trace. -/
def Host.untraced (host : Host) : Host := { host with tracing := false }

namespace Relocation

variable (r : Relocation)

/-! ### Sessions -/

/-- A relocated value. -/
def value : Value → Value := Value.relocate r.move

/-- **A relocated interrupt.** An error is moved to another line. -/
def interrupt : Interrupt → Interrupt
  | .returning v => .returning (r.value v)
  | .failed e => .failed { e with line := e.line.map r.line }
  | .misplaced node => .misplaced node
  | .unfinished => .unfinished

/-- **A relocated session,** without its events. -/
def session (m : Session) : Session := ⟨m.store.relocate r.move, { m.rest with events := [] }⟩

/-- A relocated activity. -/
def activity : Activity → Activity
  | .node chunk node => .node chunk (node.relocate r.move)
  | .call paren => .call (r.move paren)

/-- A relocated snapshot. -/
def snapshot (s : Snapshot) : Snapshot := ⟨s.active.map r.activity, r.session s.session⟩

/-- **Relocated notes.** Whatever is known of an input by its number stays so. -/
def notes (n : Notes) : Notes where
  birth := n.birth
  active := n.active.map r.activity
  snapshots := n.snapshots.map r.snapshot
  culprit := n.culprit.map fun culprit => (culprit.1, culprit.2.relocate r.move)

/-- **A relocated session with its notes.** -/
def monitor (m : Monitor) : Monitor := (r.session m.plain).noted (r.notes m.notes)

/-! ### Runs of sessions -/

variable {r} {α α' β β' : Type} {onResult : α → α'} {onFirst : β → β'}

/-- **Runs that do the same** with everything relocated. -/
def Moves (r : Relocation) (onResult : α → α') (act : Monitored α) (act' : Monitored α') : Prop :=
  Carries r.monitor r.interrupt onResult act act'

/-- The same without notes. -/
def Shifts (r : Relocation) (onResult : α → α') (act : Exec α) (act' : Exec α') : Prop :=
  Carries r.session r.interrupt onResult act act'

theorem shifts_fail (cause : Cause) (line : Option Int) :
    r.Shifts onResult (Exec.fail cause line) (Exec.fail cause (line.map r.line)) := fun _ => rfl

/-- The value of an operation, or its failure. -/
theorem shifts_orFail (t : Token) (result : Except Cause α) :
    r.Shifts onResult (Exec.orFail t.line result)
      (Exec.orFail (r.move t).line (result.map onResult)) := by
  rw [r.line_eq]
  cases result with
  | ok a => exact fun _ => rfl
  | error cause => exact fun _ => rfl

/-- **Reading a variable.** -/
theorem shifts_read (scope : ScopeId) (name : Token) :
    r.Shifts r.value (Exec.read scope name) (Exec.read scope (r.move name)) := by
  intro m
  have horFail : r.Shifts r.value (Exec.orFail name.line (m.store.get scope name.lexeme))
      (Exec.orFail (r.move name).line ((m.store.get scope name.lexeme).map r.value)) :=
    shifts_orFail name _
  change Outcome.map _ _ _ (Exec.orFail name.line (m.store.get scope name.lexeme) m) =
    Exec.orFail (r.move name).line ((m.store.relocate r.move).get scope (r.move name).lexeme)
      (r.session m)
  rw [r.lexeme_eq, Store.get_relocate]
  exact horFail m

/-- **Assigning to a variable.** -/
theorem shifts_write (scope : ScopeId) (name : Token) (v : Value) :
    r.Shifts r.value (Exec.write scope name v) (Exec.write scope (r.move name) (r.value v)) := by
  intro m
  have hcell : ∀ c, ((r.session m).store.cell c).const = (m.store.cell c).const := fun c => by
    rw [show (r.session m).store = m.store.relocate r.move from rfl, Store.cell_relocate]
    rfl
  have hlookup : (r.session m).store.lookup scope name.lexeme = m.store.lookup scope name.lexeme :=
    Store.lookup_relocate r.move m.store scope name.lexeme
  rw [Exec.write_eq, Exec.write_eq, r.lexeme_eq, hlookup, r.line_eq]
  cases m.store.lookup scope name.lexeme with
  | error cause => rfl
  | ok c =>
    simp only [hcell]
    split
    · rfl
    · exact congrArg (fun s => EStateM.Result.ok (r.value v) (⟨s, _⟩ : Session))
        (Store.setCell_relocate r.move m.store c v).symm

theorem shifts_print (text : String) : r.Shifts id (Exec.print text) (Exec.print text) :=
  fun _ => rfl

theorem shifts_frames : r.Shifts id Exec.frames Exec.frames := fun _ => rfl

theorem shifts_readClock (host : Host) :
    r.Shifts r.value (Exec.readClock host) (Exec.readClock host.untraced) := fun _ => rfl

/-- Events are left out. -/
theorem shifts_reports {act : Exec Unit} (h : Reports act) : r.Shifts id act (pure ()) := by
  intro m
  obtain ⟨events, hact⟩ := h m
  rw [hact]
  rfl

/-- **Declaring a name.** -/
theorem shifts_declare (host : Host) (scope : ScopeId) (name : String) (v : Value) (const : Bool) :
    r.Shifts id (Exec.declare host scope name v const)
      (Exec.declare host.untraced scope name (r.value v) const) := by
  intro m
  have hdeclare : ((m.store.relocate r.move).declare scope name (r.value v) const).2 =
      (m.store.declare scope name v const).2.relocate r.move :=
    congrArg Prod.snd (Store.declare_relocate r.move m.store scope name v const)
  obtain ⟨events, hemit⟩ := reports_emit host (fun _ => .declared name v)
    { m with store := (m.store.declare scope name v const).2 }
  rw [Exec.declare_eq, Exec.declare_eq, hemit,
    show (r.session m).store = m.store.relocate r.move from rfl, hdeclare]
  rfl

/-! ### Runs with a monitor -/

open Monitor

theorem moves_lift {act : Exec α} {act' : Exec α'} (h : r.Shifts onResult act act') :
    r.Moves onResult (Annotating.lift act) (Annotating.lift act') := by
  intro m
  have hm := h m.plain
  change Outcome.map _ _ _ (Annotating.lift act m) = Annotating.lift act' (r.monitor m)
  unfold Annotating.lift
  rw [show (r.monitor m).plain = r.session m.plain from rfl, ← hm]
  cases act m.plain <;> rfl

/-- Events in front are left out. -/
theorem moves_reports_bind {act : Exec Unit} (h : Reports act) {next : Unit → Monitored α}
    {act' : Monitored α'} (hnext : r.Moves onResult (next ()) act') :
    r.Moves onResult (Annotating.lift act >>= next) act' := by
  refine carries_silent_bind (fun m => ?_) hnext
  obtain ⟨events, hact⟩ := h m.plain
  refine ⟨(Machine.mk m.store { m.rest.console with events := events }).noted m.notes, ?_, rfl⟩
  unfold Annotating.lift
  rw [hact]
  rfl

/-- **A step on the store** alone. -/
theorem moves_onStore {act : Store → α × Store} {act' : Store → α' × Store}
    (h : ∀ s, act' (s.relocate r.move) = (onResult (act s).1, (act s).2.relocate r.move)) :
    r.Moves onResult (Action.onStore act) (Action.onStore act') := by
  intro m
  change EStateM.Result.ok (onResult (act m.store).1) (r.monitor ⟨(act m.store).2, m.rest⟩) =
    EStateM.Result.ok (act' (m.store.relocate r.move)).1
      ⟨(act' (m.store.relocate r.move)).2, (r.monitor m).rest⟩
  rw [h]
  rfl

theorem composes_moves :
    Composes fun _ (act act' : Monitored _) => r.Moves id act act' where
  pure := carries_pure
  bind := carries_bind

/-- A new scope. -/
theorem moves_newScope (parent : Option ScopeId) :
    r.Moves id (Action.onStore (·.newScope parent)) (Action.onStore (·.newScope parent)) :=
  moves_onStore fun s => Store.newScope_relocate r.move s parent

/-- The scope of the next pass. -/
theorem moves_nextIteration (enclosing current : ScopeId) :
    r.Moves id (Action.onStore (·.nextIteration enclosing current))
      (Action.onStore (·.nextIteration enclosing current)) :=
  moves_onStore fun s => Store.nextIteration_relocate r.move s enclosing current

theorem moves_declares (scope : ScopeId) :
    r.Moves id (ForLoop.declares scope) (ForLoop.declares scope) := moves_onStore fun _ => rfl

/-- The scope of a call. -/
theorem moves_activate (c : Closure) (arguments : List Value) :
    r.Moves id (Action.onStore (·.activate c arguments))
      (Action.onStore (·.activate (c.relocate r.move) (arguments.map r.value))) :=
  moves_onStore fun s => Store.activate_relocate r.move s c arguments

theorem moves_newClosure (name : String) (parameters : List String) (body : List Stmt)
    (scope : ScopeId) :
    r.Moves (Closure.relocate r.move) (Action.onStore (·.newClosure name parameters body scope))
      (Action.onStore (·.newClosure name parameters (Stmt.relocateAll r.move body) scope)) :=
  moves_onStore fun s => Store.newClosure_relocate r.move s name parameters body scope

/-- **The birth of a function** is written down for its identity, which stays. -/
theorem moves_made {act : Monitored α} {act' : Monitored α'} (h : r.Moves onResult act act')
    (host : Host) (chunk : Nat) (f : Closure) :
    r.Moves onResult ((scribe.steps host).made chunk f act)
      ((scribe.steps host.untraced).made chunk (f.relocate r.move) act') :=
  fun m => h (scribe.told (.made chunk f) m)

/-- **The body of a function** is from the input in which the function was made. -/
theorem moves_inBody {act : Nat → Monitored Value} {act' : Nat → Monitored Value}
    (h : ∀ chunk, r.Moves r.value (act chunk) (act' chunk)) (host : Host) (f : Closure) :
    r.Moves r.value ((scribe.steps host).inBody f act)
      ((scribe.steps host.untraced).inBody (f.relocate r.move) act') :=
  fun m => h (m.notes.birth f.identity) m

theorem notes_finish (n : Notes) (m : Session) :
    r.notes (n.finish m) = (r.notes n).finish (r.session m) := by
  have hactive : n.active.tail.map r.activity = (n.active.map r.activity).tail := List.map_tail
  simp only [notes, Notes.finish, hactive, List.map_cons]
  rfl

theorem monitor_finish (m : Monitor) : r.monitor (finish m) = finish (r.monitor m) :=
  congrArg (Machine.noted (r.session m.plain)) (notes_finish m.notes m.plain)

theorem monitor_blame (m : Monitor) (chunk : Nat) (node : Node) :
    r.monitor (blame m chunk node) = blame (r.monitor m) chunk (node.relocate r.move) := by
  obtain ⟨s, console, birth, active, snapshots, culprit⟩ := m
  cases culprit <;> rfl

/-- **Nodes.** The culprit is relocated. -/
theorem moves_within {act : Monitored α} {act' : Monitored α'} (h : r.Moves onResult act act')
    (chunk : Nat) (node : Node) (scope : ScopeId) :
    r.Moves onResult (scribe.within chunk node scope act)
      (scribe.within chunk (node.relocate r.move) scope act') := by
  intro m
  have hm := h (scribe.told (.begins chunk node scope) m)
  change _ = act' (scribe.told (.begins chunk (node.relocate r.move) scope) (r.monitor m)) at hm
  change Outcome.map _ _ _ (scribe.within chunk node scope act m) =
    scribe.within chunk (node.relocate r.move) scope act' (r.monitor m)
  unfold Scribe.within
  rw [← hm]
  cases act (scribe.told (.begins chunk node scope) m) with
  | ok a m' => exact congrArg (EStateM.Result.ok _) (monitor_finish m')
  | error e m' =>
    cases e with
    | failed err =>
      refine congrArg (EStateM.Result.error _) ((monitor_finish _).trans ?_)
      exact congrArg finish (monitor_blame m' chunk node)
    | returning v => exact congrArg (EStateM.Result.error _) (monitor_finish m')
    | misplaced description => exact congrArg (EStateM.Result.error _) (monitor_finish m')
    | unfinished => exact congrArg (EStateM.Result.error _) (monitor_finish m')

/-- **Calls.** -/
theorem moves_inCall {act : Monitored Value} {act' : Monitored Value} (h : r.Moves r.value act act')
    (paren : Token) :
    r.Moves r.value (scribe.inCall paren act) (scribe.inCall (r.move paren) act') := by
  intro m
  have hm := h (scribe.told (.calls paren) m.entered)
  change _ = act' (scribe.told (.calls (r.move paren)) (r.monitor m).entered) at hm
  change Outcome.map _ _ _ (scribe.inCall paren act m) =
    scribe.inCall (r.move paren) act' (r.monitor m)
  unfold Scribe.inCall
  rw [← hm]
  cases act (scribe.told (.calls paren) m.entered) with
  | ok v m' =>
    exact congrArg (fun m : Monitor => EStateM.Result.ok (r.value v) m.left) (monitor_finish m')
  | error e m' =>
    exact congrArg (fun m : Monitor => EStateM.Result.error (r.interrupt e) m.left)
      (monitor_finish m')

/-- What a call adds to errors. -/
theorem moves_located {act : Monitored α} {act' : Monitored α'} (h : r.Moves onResult act act')
    (t : Token) :
    r.Moves onResult (Exec.located t.line act) (Exec.located (r.move t).line act') := by
  intro m
  have hm := h m
  change Outcome.map _ _ _ (Exec.located t.line act m) =
    Exec.located (r.move t).line act' (r.monitor m)
  unfold Exec.located
  rw [← hm, r.line_eq]
  cases act m with
  | ok a m' => rfl
  | error e m' =>
    cases e with
    | failed err =>
      obtain ⟨cause, line⟩ := err
      cases line <;> rfl
    | returning v => rfl
    | misplaced description => rfl
    | unfinished => rfl

/-- The value of a body. -/
theorem moves_valueOf {act act' : Monitored Unit} (h : r.Moves id act act') :
    r.Moves r.value (Exec.valueOf act) (Exec.valueOf act') := by
  intro m
  have hm := h m
  change Outcome.map _ _ _ (Exec.valueOf act m) = Exec.valueOf act' (r.monitor m)
  unfold Exec.valueOf
  rw [← hm]
  cases act m with
  | ok a m' => rfl
  | error e m' => cases e <;> rfl

end Relocation

end Lox
