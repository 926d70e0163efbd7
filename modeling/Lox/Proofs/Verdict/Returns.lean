import Lox.Proofs.Grammar.Parts
import Lox.Proofs.Parametricity

/-!
# Where returns come from

A return on its way to its call is stopped by the body of a function, so that no expression lets one
out, whatever it calls. A statement lets one out only if it contains a return that is not inside a
function in it. This needs nothing of the session or of the tree.

* `ReturnsOnlyIf` — runs that let a return out under one condition only, `parametric_returnsOnlyIf`
  for all that happens in a run;
* `returnsOnlyIf_evaluate`, `returnsOnlyIf_execute` — expressions and statements in any session.
-/

namespace Lox

variable {α β : Type} {p q : Prop}

/-- **A return is let out** only under the condition. -/
def ReturnsOnlyIf (p : Prop) (act : Exec α) : Prop :=
  ∀ m, Outcome (fun _ _ => True) (fun e _ => ∀ value, e = .returning value → p) (act m)

theorem ReturnsOnlyIf.mono {act : Exec α} (h : ReturnsOnlyIf p act) (hpq : p → q) :
    ReturnsOnlyIf q act :=
  fun m => Outcome.mono (h m) (fun _ _ ha => ha) fun _ _ he value hvalue => hpq (he value hvalue)

theorem returnsOnlyIf_of_true {act : Exec α} (hp : p) : ReturnsOnlyIf p act := by
  intro m
  cases act m with
  | ok a m' => trivial
  | error e m' => exact fun _ _ => hp

theorem returnsOnlyIf_pure (a : α) : ReturnsOnlyIf p (pure a : Exec α) := fun _ => trivial

theorem returnsOnlyIf_throw {e : Interrupt} (he : ∀ value, e ≠ .returning value) :
    ReturnsOnlyIf p (throw e : Exec α) := fun _ value hvalue => absurd hvalue (he value)

theorem returnsOnlyIf_bind {act : Exec β} {next : β → Exec α} (h : ReturnsOnlyIf p act)
    (hnext : ∀ b, ReturnsOnlyIf p (next b)) : ReturnsOnlyIf p (act >>= next) := fun m =>
  outcome_bind (Outcome.mono (h m) (fun b m' _ => hnext b m') fun _ _ he => he)

/-! ### Small steps -/

theorem returnsOnlyIf_onStore (f : Store → α × Store) :
    ReturnsOnlyIf p (Action.onStore f : Exec α) := fun _ => trivial

theorem returnsOnlyIf_fail (cause : Cause) (line : Option Int) :
    ReturnsOnlyIf p (Exec.fail cause line : Exec α) := returnsOnlyIf_throw fun _ h => nomatch h

/-- A step that leaves nothing but events. -/
theorem returnsOnlyIf_of_reports {act : Exec Unit} (h : Reports act) : ReturnsOnlyIf p act := by
  intro m
  obtain ⟨events, hact⟩ := h m
  rw [hact]
  trivial

theorem returnsOnlyIf_inFrame {act : Exec α} (h : ReturnsOnlyIf p act) :
    ReturnsOnlyIf p (Exec.inFrame act) := by
  rintro ⟨s, rest⟩
  have hact := h ⟨s, { rest with frames := rest.frames + 1 }⟩
  unfold Exec.inFrame
  simp only
  cases hr : act ⟨s, { rest with frames := rest.frames + 1 }⟩ with
  | ok a m' => trivial
  | error e m' => rw [hr] at hact; exact hact

theorem returnsOnlyIf_located {act : Exec α} (line : Int) (h : ReturnsOnlyIf p act) :
    ReturnsOnlyIf p (Exec.located line act) := by
  intro m
  have hact := h m
  unfold Exec.located
  cases hr : act m with
  | ok a m' => trivial
  | error e m' =>
    rw [hr] at hact
    cases e with
    | failed error => exact fun value hvalue => nomatch hvalue
    | returning value => exact hact
    | misplaced node => exact hact
    | unfinished => exact hact

/-- **The body of a function** stops every return. -/
theorem returnsOnlyIf_valueOf (act : Exec Unit) : ReturnsOnlyIf p (Exec.valueOf act) := by
  intro m
  unfold Exec.valueOf
  cases act m with
  | ok a m' => trivial
  | error e m' =>
    cases e with
    | returning value => trivial
    | failed error => exact fun value hvalue => nomatch hvalue
    | misplaced node => exact fun value hvalue => nomatch hvalue
    | unfinished => exact fun value hvalue => nomatch hvalue

/-! ### Evaluators -/

/-- **Evaluators that let returns out** only of statements that contain one. -/
structure Evaluator.Returns (ev : Evaluator) : Prop where
  evaluate : ∀ e scope, ReturnsOnlyIf False (ev.evaluate e scope)
  execute : ∀ s scope, ReturnsOnlyIf (s.returns = true) (ev.execute s scope)

theorem composes_returnsOnlyIf : Composes fun _ (act _ : Exec _) => ReturnsOnlyIf p act where
  pure := returnsOnlyIf_pure
  bind := returnsOnlyIf_bind

/-- Small steps let no return out, so that they may be anywhere in a run. -/
theorem parametric_returnsOnlyIf (host : Host) (p : Prop) :
    Parametric host fun _ act _ => ReturnsOnlyIf p act where
  toComposes := composes_returnsOnlyIf
  interrupt _ := returnsOnlyIf_throw
  onStore := returnsOnlyIf_onStore
  frames := fun _ => trivial
  print _ := fun _ => trivial
  emit event := returnsOnlyIf_of_reports (reports_emit host event)
  readClock := fun _ => trivial
  inFrame := returnsOnlyIf_inFrame
  located line _ _ h := returnsOnlyIf_located line h

theorem Stmt.anyReturns_of_mem {s : Stmt} {ss : List Stmt} (hs : s ∈ ss) (h : s.returns = true) :
    Stmt.anyReturns ss = true := by
  induction hs with
  | head ss => simp [Stmt.anyReturns, h]
  | tail s _ ih => simp [Stmt.anyReturns, ih]

/-- **A return inside** a statement that is run inside another one is inside that one too. -/
theorem Stmt.returns_of_mem_inner {s part : Stmt} (hpart : part ∈ s.inner)
    (h : part.returns = true) : s.returns = true := by
  -- a statement has a return in it if one of its inner statements has
  cases s with
  | block body => exact Stmt.anyReturns_of_mem hpart h
  | conditional condition yes no =>
    cases no with
    | none =>
      obtain rfl := List.mem_singleton.1 hpart
      exact h
    | some no =>
      obtain rfl | hpart := List.mem_cons.1 hpart
      · simp [Stmt.returns, h]
      · obtain rfl := List.mem_singleton.1 hpart
        simp [Stmt.returns, h]
  | whileLoop condition body =>
    obtain rfl := List.mem_singleton.1 hpart
    exact h
  | forLoop start condition update body =>
    cases start with
    | none =>
      obtain rfl := List.mem_singleton.1 hpart
      exact h
    | some start =>
      obtain rfl | hpart := List.mem_cons.1 hpart
      · simp [Stmt.returns, h]
      · obtain rfl := List.mem_singleton.1 hpart
        simp [Stmt.returns, h]
  -- no other statement has inner ones: the body of a function is run by its calls
  | expression value | print value | «variable» name initial const | function name parameters body
  | returning keyword value | foreign description => contradiction

theorem returnsOnlyIf_executeAll {execute : Stmt → Exec Unit}
    (h : ∀ s, ReturnsOnlyIf (s.returns = true) (execute s)) (ss : List Stmt) :
    ReturnsOnlyIf (Stmt.anyReturns ss = true) (executeAll execute ss) :=
  composes_returnsOnlyIf.executeAll' execute execute fun s hs =>
    (h s).mono (Stmt.anyReturns_of_mem hs)

theorem returns_recurse (host : Host) (room cost : Nat) :
    (recurse .full (Evaluator.step host) room cost).Returns := by
  refine recurse_induction ⟨fun _ _ => returnsOnlyIf_fail _ _, fun _ _ => returnsOnlyIf_fail _ _⟩
    (fun inner hinner => ?_) room cost
  have hevaluate : ∀ {p : Prop} cost e scope, ReturnsOnlyIf p ((inner cost).evaluate e scope) :=
    fun cost e scope => ((hinner cost).evaluate e scope).mono False.elim
  constructor
  case evaluate =>
    -- the body of a function stops every return, whatever it contains
    exact (parametric_returnsOnlyIf host False).evaluateStep inner inner hevaluate
      fun _ _ => returnsOnlyIf_valueOf _
  case execute =>
    intro s scope
    refine (parametric_returnsOnlyIf host (s.returns = true)).executeStep inner inner hevaluate
      (fun cost part hpart scope => ?_) ?_ scope
    · exact ((hinner cost).execute part scope).mono (Stmt.returns_of_mem_inner hpart)
    · rintro keyword value rfl v
      exact returnsOnlyIf_of_true rfl

/-- **No expression lets a return out.** -/
theorem returnsOnlyIf_evaluate (host : Host) (e : Expr) (scope : ScopeId) :
    ReturnsOnlyIf False ((Evaluator.inRoom host).evaluate e scope) :=
  (returns_recurse host host.room 0).evaluate e scope

/-- **A statement lets a return out** only if it contains one outside the functions in it. -/
theorem returnsOnlyIf_execute (host : Host) (s : Stmt) (scope : ScopeId) :
    ReturnsOnlyIf (s.returns = true) ((Evaluator.inRoom host).execute s scope) :=
  (returns_recurse host host.room 0).execute s scope

end Lox
