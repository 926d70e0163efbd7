import Lox.Proofs.SmallSteps
import Lox.Proofs.Store.Growth

/-!
# Runs that end

A run ends if it comes to a result or to an error, and neither a loop is given up nor is there a want
of room. What a program does next depends on the closures that it finds in its variables; so those are
followed as well, wherever they are stored: their bodies have no loops and are of limited size.

* `Stmt.isLoopFree` — statements without loops;
* `Value.Limited`, `Session.Limited` — closures whose bodies have no loops and are not too large;
* `Ends` — runs that end, with one rule for each construct and for each small step.
-/

namespace Lox

/-! ### Statements without loops -/

mutual

/-- **A statement without loops,** also inside the functions that it declares. -/
def Stmt.isLoopFree : Stmt → Bool
  | .block body => Stmt.areLoopFree body
  | .conditional _ yes none => yes.isLoopFree
  | .conditional _ yes (some no) => yes.isLoopFree && no.isLoopFree
  | .whileLoop .. | .forLoop .. => false
  | .function _ _ body => Stmt.areLoopFree body
  | .expression _ | .print _ | .variable .. | .returning .. | .foreign _ => true

/-- Several statements without loops. -/
def Stmt.areLoopFree : List Stmt → Bool
  | [] => true
  | s :: ss => s.isLoopFree && Stmt.areLoopFree ss

end

theorem Stmt.areLoopFree_iff {ss : List Stmt} :
    Stmt.areLoopFree ss = true ↔ ∀ s ∈ ss, s.isLoopFree = true := by
  induction ss with
  | nil => simp [Stmt.areLoopFree]
  | cons s ss ih => simp [Stmt.areLoopFree, ih]

/-! ### What is stored -/

/-- **Values of limited size.** The body of a closure has no loops and is not too large. -/
def Value.Limited (size : Nat) : Value → Prop
  | .closure f => Stmt.areLoopFree f.body = true ∧ sizeOf f.body ≤ size
  | .literal _ | .native _ => True

/-- All closures of a session are limited. -/
def Session.Limited (size : Nat) (m : Session) : Prop := m.store.Keeps (Value.Limited size)

/-- **How a run that ends may be interrupted.** -/
def Interrupt.Limited (size : Nat) : Interrupt → Prop
  | .returning v => v.Limited size
  | .failed e => e.cause ≠ .roomExhausted
  | .misplaced _ => True
  | .unfinished => False

theorem Value.limited_of_literal {size : Nat} {v : Value} (h : ∃ l, v = .literal l) :
    v.Limited size := by
  obtain ⟨l, rfl⟩ := h
  trivial

/-! ### Runs -/

section Runs

variable {α β : Type} {size frames : Nat}

/-- **A run that ends** while so many calls are in progress, whatever is stored, as long as the
closures are limited. They still are afterwards. -/
def Ends (size frames : Nat) (good : α → Prop) (act : Exec α) : Prop :=
  ∀ m : Session, m.Limited size → m.rest.frames = frames →
    Outcome (fun a m' => good a ∧ Session.Limited size m' ∧ m'.rest.frames = frames)
      (fun e m' => e.Limited size ∧ Session.Limited size m' ∧ m'.rest.frames = frames) (act m)

/-- Runs whose value is limited. -/
abbrev EndsValue (size frames : Nat) (act : Exec Value) : Prop :=
  Ends size frames (Value.Limited size) act

variable {good : α → Prop} {first : β → Prop}

theorem ends_pure {a : α} (h : good a) : Ends size frames good (pure a) :=
  fun _ hm hframes => ⟨h, hm, hframes⟩

theorem ends_throw {e : Interrupt} (h : e.Limited size) : Ends size frames good (throw e) :=
  fun _ hm hframes => ⟨h, hm, hframes⟩

/-- **One run after the other.** -/
theorem ends_bind {act : Exec β} {next : β → Exec α} (h : Ends size frames first act)
    (hnext : ∀ b, first b → Ends size frames good (next b)) :
    Ends size frames good (act >>= next) := by
  intro m hm hframes
  refine outcome_bind (Outcome.mono (h m hm hframes) ?_ fun _ _ he => he)
  exact fun b m' ⟨hb, hm', hframes'⟩ => hnext b hb m' hm' hframes'

/-- A look at the session. -/
theorem ends_get_bind {next : Session → Exec α}
    (hnext : ∀ m : Session, m.rest.frames = frames → Ends size frames good (next m)) :
    Ends size frames good (get >>= next) := fun m hm hframes => hnext m hframes m hm hframes

/-- **A step on the store** alone. -/
theorem ends_onStore {act : Store → α × Store}
    (h : ∀ s, s.Keeps (Value.Limited size) → good (act s).1 ∧ (act s).2.Keeps (Value.Limited size)) :
    Ends size frames good (Action.onStore act) :=
  fun m hm hframes => ⟨(h m.store hm).1, (h m.store hm).2, hframes⟩

/-- Events are of no importance. -/
theorem ends_reports {act : Exec Unit} (h : Reports act) :
    Ends size frames (fun _ => True) act := by
  intro m hm hframes
  obtain ⟨events, hact⟩ := h m
  rw [hact]
  exact ⟨trivial, hm, hframes⟩

/-! ### Small steps -/

/-- An operation that fails names another cause than the lack of room. -/
theorem ends_orFail (line : Int) {result : Except Cause α} (hok : ∀ a, result = .ok a → good a)
    (herror : result ≠ .error .roomExhausted) :
    Ends size frames good (Exec.orFail line result) := by
  cases result with
  | ok a => exact ends_pure (hok a rfl)
  | error cause => exact ends_throw fun h => herror (congrArg Except.error h)

theorem ends_read (scope : ScopeId) (name : Token) :
    EndsValue size frames (Exec.read scope name) := by
  intro m hm hframes
  have hcause : m.store.get scope name.lexeme ≠ .error .roomExhausted := by
    unfold Store.get Store.lookup
    cases m.store.resolve scope name.lexeme <;> simp
  exact ends_orFail name.line (fun v hv => hm.get trivial hv) hcause m hm hframes

theorem ends_write (scope : ScopeId) (name : Token) {v : Value} (hv : v.Limited size) :
    EndsValue size frames (Exec.write scope name v) := by
  intro m hm hframes
  rw [Exec.write_eq, Store.lookup]
  cases m.store.resolve scope name.lexeme with
  | none => exact ⟨nofun, hm, hframes⟩
  | some c =>
    simp only
    split
    · exact ⟨nofun, hm, hframes⟩
    · exact ⟨hv, Store.Keeps.setCell hm hv c, hframes⟩

theorem ends_print (text : String) : Ends size frames (fun _ => True) (Exec.print text) :=
  fun _ hm hframes => ⟨trivial, hm, hframes⟩

theorem ends_readClock (host : Host) : EndsValue size frames (Exec.readClock host) :=
  fun _ hm hframes => ⟨trivial, hm, hframes⟩

theorem ends_declare (host : Host) (scope : ScopeId) (name : String) {v : Value}
    (hv : v.Limited size) (const : Bool) :
    Ends size frames (fun _ => True) (Exec.declare host scope name v const) := by
  have hstore : Ends size frames (fun _ : CellId => True)
      (Action.onStore (·.declare scope name v const)) :=
    ends_onStore fun s hs => ⟨trivial, hs.declare hv scope name const⟩
  exact ends_bind hstore fun _ _ => ends_reports (reports_emit host _)

/-! ### What surrounds a call -/

theorem ends_located {act : Exec α} (h : Ends size frames good act) (line : Int) :
    Ends size frames good (Exec.located line act) := by
  intro m hm hframes
  have hact := h m hm hframes
  unfold Exec.located
  cases hresult : act m with
  | ok a m' => rw [hresult] at hact; exact hact
  | error e m' =>
    rw [hresult] at hact
    -- a line is added to the error, and the cause stays
    cases e <;> exact hact

/-- The count of calls is restored. -/
theorem ends_inFrame {act : Exec α} (h : Ends size (frames + 1) good act) :
    Ends size frames good (Exec.inFrame act) := by
  intro m hm hframes
  have hact := h { m with rest := { m.rest with frames := m.rest.frames + 1 } } hm
    (congrArg (· + 1) hframes)
  rw [Exec.inFrame_eq]
  cases hresult : act { m with rest := { m.rest with frames := m.rest.frames + 1 } } with
  | ok a m' =>
    rw [hresult] at hact
    exact ⟨hact.1, hact.2.1, congrArg (· - 1) hact.2.2⟩
  | error e m' =>
    rw [hresult] at hact
    exact ⟨hact.1, hact.2.1, congrArg (· - 1) hact.2.2⟩

/-- A return ends here. -/
theorem ends_valueOf {body : Exec Unit} (h : Ends size frames (fun _ => True) body) :
    EndsValue size frames (Exec.valueOf body) := by
  intro m hm hframes
  have hbody := h m hm hframes
  unfold Exec.valueOf
  cases hresult : body m with
  | ok _ m' => rw [hresult] at hbody; exact ⟨trivial, hbody.2⟩
  | error e m' =>
    rw [hresult] at hbody
    cases e <;> exact hbody

end Runs

end Lox
