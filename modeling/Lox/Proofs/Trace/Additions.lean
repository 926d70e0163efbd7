import Lox.Interpreter
import Lox.Proofs.Parametricity

/-!
# Runs only add events

No run takes an event back or puts one in front of those that are there. This needs nothing of the
session or of the tree, and holds however a run ends.

* `Adds` — runs that only add events, `parametric_adds` for all that happens in a run;
* `Session.log`, `Session.exists_log_executeProgram` — the log of a session is the beginning of the
  one after a program.
-/

namespace Lox

variable {α β : Type}

/-- **A run that only adds events.** The latest event comes first. -/
def Adds (act : Exec α) : Prop :=
  ∀ m, m.rest.events <:+ (Outcome.state (act m)).rest.events

theorem adds_of_events_eq {act : Exec α}
    (h : ∀ m, (Outcome.state (act m)).rest.events = m.rest.events) : Adds act :=
  fun m => (h m).symm ▸ List.suffix_refl _

theorem adds_pure (a : α) : Adds (pure a : Exec α) := adds_of_events_eq fun _ => rfl

theorem adds_throw (e : Interrupt) : Adds (throw e : Exec α) := adds_of_events_eq fun _ => rfl

theorem adds_bind {act : Exec β} {next : β → Exec α} (h : Adds act) (hnext : ∀ b, Adds (next b)) :
    Adds (act >>= next) := by
  intro m
  have hm := h m
  change _ <:+ (Outcome.state (EStateM.bind act next m)).rest.events
  unfold EStateM.bind
  cases hact : act m with
  | ok b m' =>
    rw [hact] at hm
    exact hm.trans (hnext b m')
  | error e m' =>
    rw [hact] at hm
    exact hm

/-! ### Small steps -/

theorem adds_emit (host : Host) (event : Unit → Event) : Adds (Exec.emit host event) := by
  intro m
  unfold Exec.emit
  split
  · exact List.suffix_cons _ _
  · exact List.suffix_refl _

theorem adds_inFrame {act : Exec α} (h : Adds act) : Adds (Exec.inFrame act) := by
  intro m
  rw [Exec.inFrame_eq, Outcome.state_project]
  exact h { m with rest := { m.rest with frames := m.rest.frames + 1 } }

theorem adds_located {act : Exec α} (line : Int) (h : Adds act) :
    Adds (Exec.located line act) := by
  intro m
  rw [Exec.state_located]
  exact h m

theorem adds_valueOf {act : Exec Unit} (h : Adds act) : Adds (Exec.valueOf act) := by
  intro m
  rw [Exec.state_valueOf]
  exact h m

/-! ### Evaluators -/

/-- **Evaluators that only add events.** -/
structure Evaluator.Adds (ev : Evaluator) : Prop where
  evaluate : ∀ e scope, Lox.Adds (ev.evaluate e scope)
  execute : ∀ s scope, Lox.Adds (ev.execute s scope)

theorem composes_adds : Composes fun _ (act _ : Exec _) => Adds act where
  pure := adds_pure
  bind := adds_bind

theorem adds_executeAll {execute : Stmt → Exec Unit} (h : ∀ s, Adds (execute s)) (ss : List Stmt) :
    Adds (executeAll execute ss) :=
  composes_adds.executeAll' execute execute fun s _ => h s

/-- Whatever happens in a run only adds events. -/
theorem parametric_adds (host : Host) : Parametric host fun _ act _ => Adds act where
  toComposes := composes_adds
  interrupt e _ := adds_throw e
  onStore _ := adds_of_events_eq fun _ => rfl
  frames := adds_of_events_eq fun _ => rfl
  print _ := adds_of_events_eq fun _ => rfl
  emit := adds_emit host
  readClock := adds_of_events_eq fun _ => rfl
  inFrame := adds_inFrame
  located line _ _ h := adds_located line h

theorem adds_inRoom (host : Host) : (Evaluator.inRoom host).Adds := by
  have hadds := parametric_adds host
  refine recurse_induction ⟨fun _ _ => adds_throw _, fun _ _ => adds_throw _⟩ (fun inner h => ?_)
    host.room 0
  have hbody : ∀ body activation,
      Adds (Exec.valueOf (executeAll (fun s => (inner 4).execute s activation) body)) :=
    fun body activation => adds_valueOf (adds_executeAll (fun s => (h 4).execute s activation) body)
  have hevaluate := fun cost => (h cost).evaluate
  exact ⟨hadds.evaluateStep inner inner hevaluate hbody,
    fun s => hadds.executeStep inner inner hevaluate (fun cost s _ => (h cost).execute s)
      fun _ _ _ _ => adds_throw _⟩

/-! ### Sessions -/

namespace Session

/-- **The log of a session:** its events in order. -/
def log (m : Session) : List Event := m.rest.events.reverse

theorem log_record {host : Host} (htracing : host.tracing = true) (m : Session)
    (events : List Event) : (m.record host events).log = m.log ++ events := by
  rw [record, if_pos htracing, log, log, List.reverse_append, List.reverse_reverse]

/-- **A program** adds to the log. -/
theorem exists_log_executeProgram (host : Host) (m : Session) (program : List Stmt) :
    ∃ later, (m.executeProgram host program).2.log = m.log ++ later := by
  have hadds := adds_executeAll (fun s => (adds_inRoom host).execute s m.rest.globals) program m
  have hstate : ∀ result : EStateM.Result Interrupt Session Unit,
      (conclude result).2 = Outcome.state result := by
    intro result
    cases result <;> rfl
  obtain ⟨later, hlater⟩ := hadds
  refine ⟨later.reverse, ?_⟩
  rw [executeProgram, hstate, log, log, ← hlater, List.reverse_append]

end Session

end Lox
