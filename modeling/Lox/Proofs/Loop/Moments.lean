import Lox.Proofs.Projection
import Mathlib.Data.List.Chain

/-!
# Watching a loop

A loop is watched through its clauses: each of them notes when it begins, in which scope and with
which machine, and again when it has come to its end there. The loop itself stays as it is, and the
notes have no effect on what it does. Where the first clause declares a name they come in a fixed
order. The clauses of a pass take turns and hand on the machine as it is; and when a pass has ended,
the next one begins with a copy of its scope, before the update.

* `Moment`, `ForLoop.watched` — what is noted, and the loop whose clauses take notes;
* `ForLoop.watched_run` — the notes have no effect;
* `Moment.Leads` — which moment comes behind which;
* `ForLoop.trail_run` — what a whole run leaves behind.
-/

namespace Lox

variable {ω ε α : Type}

/-! ### Moments -/

/-- **The clauses of a loop.** -/
inductive Clause
  | start | condition | body | update

/-- The clause that is next in the same pass. Behind the body there is none. -/
def Clause.next? : Clause → Option Clause
  | start | update => some condition
  | condition => some body
  | body => none

/-- **Moments.** A clause begins in a scope, or it has ended there, with the machine as it is then. -/
structure Moment (ω : Type) where
  clause : Clause
  ended : Bool
  scope : ScopeId
  machine : Machine ω

/-- A pass is over when its body has ended. -/
def Moment.IsOver (a : Moment ω) : Prop := a.clause = .body ∧ a.ended = true

/-- What a host keeps, with the moments so far. -/
structure Watcher (ω : Type) where
  rest : ω
  moments : List (Moment ω)

namespace Machine

/-- A machine, without the moments. -/
def unwatched (w : Machine (Watcher ω)) : Machine ω := ⟨w.store, w.rest.rest⟩

/-- The moments so far, the first one first. -/
def moments (w : Machine (Watcher ω)) : List (Moment ω) := w.rest.moments

/-- A machine with moments. -/
def watched (m : Machine ω) (moments : List (Moment ω)) : Machine (Watcher ω) :=
  ⟨m.store, ⟨m.rest, moments⟩⟩

end Machine

/-- **A clause that takes notes:** one when it begins, and one when it has ended, if it does not
fail. -/
def watch (clause : Clause) (act : ScopeId → Action ω ε α) (scope : ScopeId) :
    Action (Watcher ω) ε α := fun w =>
  let begun := w.moments ++ [⟨clause, false, scope, w.unwatched⟩]
  match act scope w.unwatched with
  | .ok a m => .ok a (m.watched (begun ++ [⟨clause, true, scope, m⟩]))
  | .error e m => .error e (m.watched begun)

/-- An action that takes no notes. -/
def unnoted (act : Action ω ε α) : Action (Watcher ω) ε α := fun w =>
  match act w.unwatched with
  | .ok a m => .ok a (m.watched w.moments)
  | .error e m => .error e (m.watched w.moments)

theorem unnoted_of_ok {act : Action ω ε α} {w : Machine (Watcher ω)} {a : α} {m : Machine ω}
    (h : act w.unwatched = .ok a m) : unnoted act w = .ok a (m.watched w.moments) := by
  unfold unnoted
  rw [h]

theorem projects_watch (clause : Clause) (act : ScopeId → Action ω ε α) (scope : ScopeId) :
    Projects Machine.unwatched (watch clause act scope) (act scope) := by
  intro w
  unfold watch
  simp only
  cases act scope w.unwatched <;> rfl

theorem projects_unnoted (act : Action ω ε α) :
    Projects Machine.unwatched (unnoted act) act := by
  intro w
  unfold unnoted
  cases act w.unwatched <;> rfl

namespace ForLoop

variable (loop : ForLoop ω ε)

/-- The condition, which is true if there is none. -/
def test (scope : ScopeId) : Action ω ε Value :=
  match loop.condition with
  | none => pure (.bool true)
  | some test => test scope

/-- **The machine behind a clause,** however the clause ends. -/
def effect (clause : Clause) (scope : ScopeId) (m : Machine ω) : Machine ω :=
  match clause with
  | .start => Outcome.state (ForLoop.clause loop.start scope m)
  | .condition => Outcome.state (loop.test scope m)
  | .body => Outcome.state (loop.body scope m)
  | .update => Outcome.state (ForLoop.clause loop.update scope m)

/-- **The machine behind a moment:** that of the moment if the clause has ended, and the one that the
clause leaves behind if it has only begun. -/
def behind (a : Moment ω) : Machine ω :=
  if a.ended then a.machine else loop.effect a.clause a.scope a.machine

/-- **The loop whose clauses take notes.** -/
def watched : ForLoop (Watcher ω) ε where
  start := some (watch .start (ForLoop.clause loop.start))
  condition := some (watch .condition loop.test)
  update := some (watch .update (ForLoop.clause loop.update))
  body := watch .body loop.body
  copied scope := unnoted (loop.copied scope)

/-- **The notes have no effect.** -/
theorem watched_run (gaveUp : ε) (passes : Nat) (enclosing : ScopeId) :
    Projects Machine.unwatched (loop.watched.run gaveUp passes enclosing)
      (loop.run gaveUp passes enclosing) := by
  refine projects_forLoop (f := Machine.unwatched) (fun _ _ => rfl) (projects_watch .start _)
    (fun scope => ?_) (projects_watch .body _) (projects_watch .update _)
    (fun scope => projects_unnoted _) gaveUp passes enclosing
  have htest : loop.goesOn scope = loop.test scope >>= fun v => pure v.isTruthy := by
    unfold goesOn test
    cases loop.condition <;> rfl
  rw [htest]
  exact projects_bind (projects_watch .condition _ scope) fun v => projects_pure _

end ForLoop

/-! ### The order of moments -/

/-- **What comes behind a moment.** -/
inductive Moment.Leads (loop : ForLoop ω ε) (enclosing : ScopeId) : Moment ω → Moment ω → Prop
  /-- A clause that begins does what it does, and ends. -/
  | ran (clause : Clause) (scope : ScopeId) (m : Machine ω) :
    Leads loop enclosing ⟨clause, false, scope, m⟩ ⟨clause, true, scope, loop.effect clause scope m⟩
  /-- The next clause of the pass begins where that one has ended. -/
  | turned {clause next : Clause} (h : clause.next? = some next) (scope : ScopeId)
      (m : Machine ω) :
    Leads loop enclosing ⟨clause, true, scope, m⟩ ⟨next, false, scope, m⟩
  /-- Behind the body the update begins, in a copy of the scope. -/
  | copied {scope following : ScopeId} {m : Machine ω} {s : Store} {rest : ω}
      (hcopy : m.store.nextIteration enclosing scope = (following, s))
      (hreport : loop.copied following ⟨s, m.rest⟩ = .ok () ⟨s, rest⟩) :
    Leads loop enclosing ⟨.body, true, scope, m⟩ ⟨.update, false, following, ⟨s, rest⟩⟩

namespace ForLoop

variable (loop : ForLoop ω ε) (enclosing : ScopeId) (m : Machine ω)

/-- **The beginning:** the first clause, in a scope below the one around the loop. -/
def beginning : Moment ω where
  clause := .start
  ended := false
  scope := ⟨m.store.scopes.size⟩
  machine := ⟨(m.store.newScope (some enclosing)).2, m.rest⟩

/-- **The trail of a run** from its beginning on. -/
structure Trail (moments : List (Moment ω)) : Prop where
  head : moments.head? = some (beginning enclosing m)
  turns : moments.IsChain (Moment.Leads loop enclosing)

/-- A clause has just ended. -/
structure Stands (clause : Clause) (scope : ScopeId) (w : Machine (Watcher ω)) : Prop where
  trail : Trail loop enclosing m w.moments
  last : w.moments.getLast? = some ⟨clause, true, scope, w.unwatched⟩

/-- A clause may begin. -/
def Awaits (clause : Clause) (scope : ScopeId) (w : Machine (Watcher ω)) : Prop :=
  Trail loop enclosing m (w.moments ++ [⟨clause, false, scope, w.unwatched⟩])

/-- **The end of a run:** behind a clause, which has ended or failed; but not between two passes. -/
structure Ends (w : Machine (Watcher ω)) : Prop where
  trail : Trail loop enclosing m w.moments
  last : ∃ a, w.moments.getLast? = some a ∧ ¬ a.IsOver ∧ w.unwatched = loop.behind a

variable {loop enclosing m} {w : Machine (Watcher ω)} {clause next : Clause} {scope : ScopeId}

theorem Trail.concat {moments : List (Moment ω)} (h : Trail loop enclosing m moments)
    {a b : Moment ω} (ha : moments.getLast? = some a) (hleads : Moment.Leads loop enclosing a b) :
    Trail loop enclosing m (moments ++ [b]) := by
  constructor
  case head => rw [List.head?_append, h.head, Option.some_or]
  case turns =>
    refine h.turns.append (List.isChain_singleton b) fun x hx y hy => ?_
    rw [ha] at hx
    obtain rfl := Option.some.inj hx
    obtain rfl := Option.some.inj hy
    exact hleads

theorem Stands.ends (h : Stands loop enclosing m clause scope w) (hnext : clause.next? = some next) :
    Ends loop enclosing m w := by
  refine ⟨h.trail, _, h.last, fun hover => ?_, rfl⟩
  obtain rfl : clause = .body := hover.1
  contradiction

theorem Stands.awaits (h : Stands loop enclosing m clause scope w)
    (hnext : clause.next? = some next) : Awaits loop enclosing m next scope w :=
  h.trail.concat h.last (.turned hnext scope _)

/-- **A clause takes its turn.** -/
theorem outcome_watch {act : ScopeId → Action ω ε α}
    (heffect : ∀ m, loop.effect clause scope m = Outcome.state (act scope m))
    (h : Awaits loop enclosing m clause scope w) :
    Outcome (fun _ w' => Stands loop enclosing m clause scope w')
      (fun _ w' => Ends loop enclosing m w') (watch clause act scope w) := by
  have hend := heffect w.unwatched
  unfold watch
  simp only
  cases hact : act scope w.unwatched with
  | ok a m' =>
    rw [hact] at hend
    refine ⟨Trail.concat h (List.getLast?_concat ..) ?_, List.getLast?_concat ..⟩
    obtain rfl : loop.effect clause scope w.unwatched = m' := hend
    exact .ran clause scope w.unwatched
  | error e m' =>
    rw [hact] at hend
    exact ⟨h, _, List.getLast?_concat .., fun hover => (nomatch hover.2), hend.symm⟩

/-! ### Runs -/

/-- **Reports of copies** leave the store alone and do not fail. -/
def ReportsCopies (loop : ForLoop ω ε) : Prop :=
  ∀ scope m, ∃ rest, loop.copied scope m = .ok () ⟨m.store, rest⟩

/-- A pass may begin: behind the first clause, or behind an update. -/
def Rests (loop : ForLoop ω ε) (enclosing : ScopeId) (m : Machine ω) (scope : ScopeId)
    (w : Machine (Watcher ω)) : Prop :=
  ∃ clause : Clause, clause.next? = some .condition ∧ Stands loop enclosing m clause scope w

/-- **One pass** with copies. -/
theorem outcome_pass (hreports : loop.ReportsCopies) (h : Rests loop enclosing m scope w) :
    Outcome (Turn.Says (Rests loop enclosing m) fun _ => Ends loop enclosing m)
      (fun _ => Ends loop enclosing m) (loop.watched.pass enclosing true scope w) := by
  obtain ⟨clause, hnext, h⟩ := h
  refine outcome_bind (outcome_bind (Outcome.mono
    (outcome_watch (fun _ => rfl) (h.awaits hnext)) (fun v w₁ h₁ => ?_) fun _ _ he => he))
  change Outcome _ _ ((if v.isTruthy = true then _ else _ : Action (Watcher ω) ε _) w₁)
  split
  · refine outcome_bind (Outcome.mono (outcome_watch (fun _ => rfl) (h₁.awaits rfl))
      (fun _ w₂ h₂ => ?_) fun _ _ he => he)
    -- the scope is copied as it is when the body has ended
    have hadvance : Outcome (fun following w₃ => Awaits loop enclosing m .update following w₃)
        (fun _ => Ends loop enclosing m) (loop.watched.advance enclosing true scope w₂) := by
      let copy := w₂.store.nextIteration enclosing scope
      obtain ⟨rest, hcopied⟩ := hreports copy.1 ⟨copy.2, w₂.rest.rest⟩
      refine outcome_bind (outcome_bind (?_ : Outcome _ _ (unnoted (loop.copied copy.1)
        ⟨copy.2, w₂.rest⟩)))
      rw [unnoted_of_ok hcopied]
      exact h₂.trail.concat h₂.last (.copied rfl hcopied)
    refine outcome_bind (Outcome.mono hadvance (fun following w₃ h₃ => ?_) fun _ _ he => he)
    refine outcome_bind (Outcome.mono (outcome_watch (fun _ => rfl) h₃) (fun _ w₄ h₄ => ?_)
      fun _ _ he => he)
    exact ⟨.update, rfl, h₄⟩
  · exact h₁.ends rfl

/-- **The trail of a whole run,** where the first clause declares a name if it comes to its end. -/
theorem trail_run (hreports : loop.ReportsCopies)
    (hdeclares : Outcome (fun _ m' => m'.store.bindings ⟨m.store.scopes.size⟩ ≠ [])
      (fun _ _ => True) (ForLoop.clause loop.start ⟨m.store.scopes.size⟩
        (beginning enclosing m).machine)) (gaveUp : ε) (passes : Nat) :
    Ends loop enclosing m
      (Outcome.state (loop.watched.run gaveUp passes enclosing (m.watched []))) := by
  -- the trail begins with the first clause, in the scope that the loop has opened
  have hbegins : Awaits loop enclosing m .start ⟨m.store.scopes.size⟩
      ((beginning enclosing m).machine.watched []) := ⟨rfl, List.isChain_singleton _⟩
  have hprojects := projects_watch .start (ForLoop.clause loop.start) ⟨m.store.scopes.size⟩
    ((beginning enclosing m).machine.watched [])
  have hstart := outcome_watch (fun _ => rfl) hbegins
  have hrun : Outcome (fun _ => Ends loop enclosing m) (fun _ => Ends loop enclosing m)
      (loop.watched.run gaveUp passes enclosing (m.watched [])) := by
    refine outcome_bind (outcome_bind ?_)
    change Outcome _ _ (watch .start (ForLoop.clause loop.start) ⟨m.store.scopes.size⟩
      ((beginning enclosing m).machine.watched []))
    cases hresult : watch .start (ForLoop.clause loop.start) ⟨m.store.scopes.size⟩
        ((beginning enclosing m).machine.watched []) with
    | error e w =>
      rw [hresult] at hstart
      -- a first clause that fails is the last moment
      exact hstart
    | ok _ w =>
      rw [hresult] at hstart hprojects
      change .ok () w.unwatched = ForLoop.clause loop.start _ (beginning enclosing m).machine
        at hprojects
      rw [← hprojects] at hdeclares
      -- the first clause has declared a name, so that there are copies
      have hfresh : (!(w.store.bindings ⟨m.store.scopes.size⟩).isEmpty) = true := by
        rw [Bool.not_eq_true', List.isEmpty_eq_false_iff]
        exact hdeclares
      change Outcome _ _ (iterate gaveUp (loop.watched.pass enclosing
        (!(w.store.bindings ⟨m.store.scopes.size⟩).isEmpty)) passes ⟨m.store.scopes.size⟩ w)
      rw [hfresh]
      -- the passes go on from a trail that rests behind a clause
      refine outcome_iterate (Rests loop enclosing m) (fun scope w h => outcome_pass hreports h)
        (fun scope w ⟨_, hnext, h⟩ => h.ends hnext) passes _ w ⟨.start, rfl, hstart⟩
  exact hrun.of_state (fun _ _ h => h) fun _ _ h => h

end ForLoop

end Lox
