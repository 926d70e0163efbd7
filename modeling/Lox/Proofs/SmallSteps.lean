import Lox.Evaluator
import Lox.Proofs.Outcome

/-!
# Small steps

What the steps that an evaluator is made of do to a session, whatever it is used for.

* `applyUnary_literal`, `applyBinary_literal` — operators give literals;
* `Exec.write_eq`, `Exec.write_eq_assign`, `Exec.declare_eq`, `Exec.inFrame_eq` — assignments,
  declarations and calls;
* `evaluateStep_assign`, `evaluateStep_call`, `callHooks_body`, `executeStep_block` — nodes of a
  session, in its own steps;
* `Exec.state_inFrame`, `Exec.state_located`, `Exec.state_valueOf` — what a call leaves behind;
* `Reports` — steps that leave nothing but events.
-/

namespace Lox

/-! ### Operators -/

theorem applyUnary_literal {kind : TokenKind} {v w : Value} (h : applyUnary kind v = .ok w) :
    ∃ l, w = .literal l := by
  unfold applyUnary at h
  split at h
  all_goals cases h
  all_goals exact ⟨_, rfl⟩

theorem applyArithmetic_literal {kind : TokenKind} {x y : Float} {w : Value}
    (h : applyArithmetic kind x y = .ok w) : ∃ l, w = .literal l := by
  unfold applyArithmetic at h
  split at h
  all_goals cases h
  all_goals exact ⟨_, rfl⟩

theorem applyBinary_literal {kind : TokenKind} {u v w : Value} (h : applyBinary kind u v = .ok w) :
    ∃ l, w = .literal l := by
  unfold applyBinary at h
  split at h
  · cases h
    exact ⟨_, rfl⟩
  · cases h
    exact ⟨_, rfl⟩
  · split at h
    all_goals cases h
    all_goals exact ⟨_, rfl⟩
  · split at h
    · exact applyArithmetic_literal h
    · cases h

/-! ### Names and calls -/

theorem Exec.write_eq (scope : ScopeId) (name : Token) (value : Value) (m : Session) :
    Exec.write scope name value m = match m.store.lookup scope name.lexeme with
      | .error cause => Exec.fail cause (some name.line) m
      | .ok c =>
        if (m.store.cell c).const then Exec.fail (.constAssignment name.lexeme) (some name.line) m
        else .ok value { m with store := m.store.setCell c value } := rfl

/-- **An assignment of a program** is one in the store. One that is refused fails on the line of the
name and leaves everything as it is. -/
theorem Exec.write_eq_assign (scope : ScopeId) (name : Token) (value : Value) (m : Session) :
    Exec.write scope name value m = match m.store.assign scope name.lexeme value with
      | .error cause => .error (.failed ⟨cause, some name.line⟩) m
      | .ok s' => .ok value ⟨s', m.rest⟩ := by
  rw [Exec.write_eq, Store.assign]
  cases m.store.lookup scope name.lexeme with
  | error cause => rfl
  | ok c =>
    cases hconst : (m.store.cell c).const with
    | true => simp only [hconst]; rfl
    | false => simp only [hconst]; rfl

theorem Exec.declare_eq (host : Host) (scope : ScopeId) (name : String) (value : Value)
    (const : Bool) (m : Session) :
    Exec.declare host scope name value const m = Exec.emit host (fun _ => .declared name value)
      { m with store := (m.store.declare scope name value const).2 } := rfl

/-- **One more call in progress,** as a run between two changes of the session. -/
theorem Exec.inFrame_eq {α : Type} (act : Exec α) (m : Session) :
    Exec.inFrame act m =
      Outcome.project
        (fun m : Session => { m with rest := { m.rest with frames := m.rest.frames - 1 } })
        (act { m with rest := { m.rest with frames := m.rest.frames + 1 } }) := by
  obtain ⟨s, rest⟩ := m
  unfold Exec.inFrame
  simp only
  cases act ⟨s, { rest with frames := rest.frames + 1 }⟩ <;> rfl

/-! ### Nodes of a session -/

section Nodes

variable (host : Host) (d : Nat → Evaluator) (scope : ScopeId)

theorem evaluateStep_assign (name : Token) (value : Expr) :
    evaluateStep host d (.assign name value) scope = (do
      let v ← (d 1).evaluate value scope
      Exec.write scope name v) := rfl

theorem evaluateStep_call (callee : Expr) (paren : Token) (arguments : List Expr) :
    evaluateStep host d (.call callee paren arguments) scope = (do
      let f ← (d 1).evaluate callee scope
      let vs ← evaluateAll (fun e => (d 2).evaluate e scope) arguments
      call host d paren f vs) := rfl

theorem callHooks_body (f : Closure) (arguments : List Value) (activation : ScopeId) :
    (callHooks host d).body f arguments activation = (do
      Exec.emit host fun _ => .called (.closure f) arguments
      if host.tracing then
        (f.parameters.zip arguments).forM fun item =>
          Exec.emit host fun _ => .declared item.1 item.2
      Exec.valueOf (executeAll (fun s => (d 4).execute s activation) f.body)) := rfl

theorem executeStep_block (body : List Stmt) :
    executeStep host d (.block body) scope = (do
      let inner ← Action.onStore (·.newScope (some scope))
      executeAll (fun s => (d 2).execute s inner) body) := rfl

end Nodes

/-! ### What a call leaves behind -/

section State

variable {α : Type}

theorem Exec.state_inFrame (act : Exec α) (m : Session) :
    (Outcome.state (Exec.inFrame act m)).store =
      (Outcome.state (act ⟨m.store, { m.rest with frames := m.rest.frames + 1 }⟩)).store := by
  rw [Exec.inFrame_eq, Outcome.state_project]

/-- A line that is added to an error leaves the state alone. -/
theorem Exec.state_located (line : Int) (act : Exec α) (m : Session) :
    Outcome.state (Exec.located line act m) = Outcome.state (act m) := by
  unfold Exec.located
  cases act m with
  | ok a m' => rfl
  | error e m' => cases e <;> rfl

/-- A return that is stopped leaves the state alone. -/
theorem Exec.state_valueOf (act : Exec Unit) (m : Session) :
    Outcome.state (Exec.valueOf act m) = Outcome.state (act m) := by
  unfold Exec.valueOf
  cases act m with
  | ok a m' => rfl
  | error e m' => cases e <;> rfl

end State

/-! ### Steps that leave nothing but events -/

/-- **A step that leaves nothing but events.** -/
def Reports (act : Exec Unit) : Prop :=
  ∀ m : Session, ∃ events, act m = .ok () { m with rest := { m.rest with events := events } }

theorem reports_pure : Reports (pure ()) := fun m => ⟨m.rest.events, rfl⟩

theorem reports_emit (host : Host) (event : Unit → Event) : Reports (Exec.emit host event) := by
  intro m
  unfold Exec.emit
  split
  · exact ⟨event () :: m.rest.events, rfl⟩
  · exact ⟨m.rest.events, rfl⟩

theorem Reports.bind {act : Exec Unit} {next : Unit → Exec Unit} (h : Reports act)
    (hnext : Reports (next ())) : Reports (act >>= next) := by
  intro m
  obtain ⟨events, hact⟩ := h m
  obtain ⟨events', hlast⟩ := hnext { m with rest := { m.rest with events := events } }
  refine ⟨events', ?_⟩
  change EStateM.bind act next m = _
  rw [EStateM.bind, hact]
  exact hlast

theorem reports_forM {ι : Type} {act : ι → Exec Unit} (h : ∀ i, Reports (act i)) (items : List ι) :
    Reports (items.forM act) := by
  induction items with
  | nil => exact reports_pure
  | cons i items ih => exact (h i).bind ih

theorem reports_emitContents (host : Host) (scope : ScopeId) :
    Reports (Exec.emitContents host scope) := by
  unfold Exec.emitContents
  split
  · intro m
    exact reports_forM (fun _ => reports_emit host _) (m.store.contents scope) m
  · exact reports_pure

end Lox
