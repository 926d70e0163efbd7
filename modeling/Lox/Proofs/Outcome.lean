import Lox.Loop

/-!
# Outcomes

What is said about the outcome of an action: one thing if it comes to a result, another if it fails,
in either case together with the state in which it leaves the machine. Rules for the ways in which
actions are put together make such statements compose, and a projection of states turns one action
into another.

* `Outcome` — a statement about an outcome, `outcome_bind` and `outcome_iterate` its rules;
* `Advances` — an outcome that is later than the state in which the action began, with
  `advances_bind` and `advances_iterate`;
* `Projects` — an action over a richer state that does exactly what another does over the plainer
  one, `projects_bind` its rule;
* `Carries` — the same with results and errors that are changed as well as the state;
* `Conveys` — the same from one state, with a statement about the outcome.
-/

namespace Lox

variable {ε σ τ α β γ : Type}

/-! ### Statements about one outcome -/

/-- **A statement about an outcome.** `done` is said of a result and `failed` of an error, each with
the state in which the action ends. -/
def Outcome (done : α → σ → Prop) (failed : ε → σ → Prop) : EStateM.Result ε σ α → Prop
  | .ok a s => done a s
  | .error e s => failed e s

/-- The state in which an action ends, one way or the other. -/
def Outcome.state : EStateM.Result ε σ α → σ
  | .ok _ s => s
  | .error _ s => s

variable {done : α → σ → Prop} {failed : ε → σ → Prop}

/-- What is said of both ends is said of the state. -/
theorem Outcome.of_state {P : σ → Prop} {r : EStateM.Result ε σ α}
    (h : Outcome done failed r) (hdone : ∀ a s, done a s → P s)
    (hfailed : ∀ e s, failed e s → P s) : P (Outcome.state r) := by
  cases r with
  | ok a s => exact hdone a s h
  | error e s => exact hfailed e s h

/-- An action that begins with a look at the state. -/
theorem get_bind_apply (next : σ → EStateM ε σ α) (s : σ) :
    (get >>= next : EStateM ε σ α) s = next s s := rfl

/-- A change of the result is no change of the state. -/
theorem Outcome.state_bind_pure (act : EStateM ε σ β) (f : β → α) (s : σ) :
    Outcome.state ((act >>= fun b => pure (f b)) s) = Outcome.state (act s) := by
  change Outcome.state (EStateM.bind act (fun b => pure (f b)) s) = _
  unfold EStateM.bind
  cases act s <;> rfl

/-- A weaker statement about the same outcome. -/
theorem Outcome.mono {done' : α → σ → Prop} {failed' : ε → σ → Prop}
    {r : EStateM.Result ε σ α} (h : Outcome done failed r)
    (hdone : ∀ a s, done a s → done' a s) (hfailed : ∀ e s, failed e s → failed' e s) :
    Outcome done' failed' r := by
  cases r with
  | ok a s => exact hdone a s h
  | error e s => exact hfailed e s h

/-- **One action after the other.** The second begins in whatever state the first ends in. -/
theorem outcome_bind {act : EStateM ε σ β} {next : β → EStateM ε σ α} {s : σ}
    (h : Outcome (fun b s' => Outcome done failed (next b s')) failed (act s)) :
    Outcome done failed ((act >>= next) s) := by
  change Outcome done failed (EStateM.bind act next s)
  unfold EStateM.bind
  cases hact : act s with
  | ok b s' => rw [hact] at h; exact h
  | error e s' => rw [hact] at h; exact h

/-- **A statement about a turn.** One thing is said of a turn that goes on, another of the last. -/
def Turn.Says (again : β → σ → Prop) (done : γ → σ → Prop) : Turn β γ → σ → Prop
  | .again b => again b
  | .done c => done c

/-- **Bounded repetition** keeps what every turn keeps. -/
theorem outcome_iterate {unfinished : ε} {step : β → EStateM ε σ (Turn β γ)}
    (keeps : β → σ → Prop) {done : γ → σ → Prop}
    (hstep : ∀ b s, keeps b s → Outcome (Turn.Says keeps done) failed (step b s))
    (hunfinished : ∀ b s, keeps b s → failed unfinished s) (passes : Nat) :
    ∀ b s, keeps b s → Outcome done failed (iterate unfinished step passes b s) := by
  induction passes with
  | zero => exact fun b s hb => hunfinished b s hb
  | succ passes ih =>
    intro b s hb
    have hturn := hstep b s hb
    rw [iterate]
    cases hact : step b s with
    | error e s' => rw [hact] at hturn; exact hturn
    | ok turn s' =>
      rw [hact] at hturn
      cases turn with
      | again b' => exact ih b' s' hturn
      | done c => exact hturn

/-! ### Runs that lead on -/

section Advances

/-- **An outcome that is later** than `s`. A run that succeeds leaves a state from which it can go on,
and one that fails a state in which it stops. -/
def Advances (ready stopped : σ → Prop) (later : σ → σ → Prop) (done : α → σ → Prop)
    (failed : ε → σ → Prop) (s : σ) : EStateM.Result ε σ α → Prop :=
  Outcome (fun a s' => ready s' ∧ later s s' ∧ done a s')
    fun e s' => stopped s' ∧ later s s' ∧ failed e s'

variable {ready stopped : σ → Prop} {later : σ → σ → Prop} [Trans later later later]

/-- What is later than a later state is later than the first. -/
theorem advances_of_later {s s' : σ} (hlater : later s s') {r : EStateM.Result ε σ α}
    (h : Advances ready stopped later done failed s' r) :
    Advances ready stopped later done failed s r :=
  Outcome.mono h (fun _ _ ha => ⟨ha.1, Trans.trans hlater ha.2.1, ha.2.2⟩)
    fun _ _ he => ⟨he.1, Trans.trans hlater he.2.1, he.2.2⟩

/-- **One run after the other.** -/
theorem advances_bind {said : β → σ → Prop} {act : EStateM ε σ β} {next : β → EStateM ε σ α} {s : σ}
    (h : Advances ready stopped later said failed s (act s))
    (hnext : ∀ b s', ready s' → later s s' → said b s' →
      Advances ready stopped later done failed s' (next b s')) :
    Advances ready stopped later done failed s ((act >>= next) s) := by
  refine outcome_bind (Outcome.mono h ?_ fun _ _ he => he)
  rintro b s' ⟨hs', hlater, hb⟩
  exact advances_of_later hlater (hnext b s' hs' hlater hb)

/-- **Bounded repetition** leads on if every turn does. -/
theorem advances_iterate {unfinished : ε} {step : β → EStateM ε σ (Turn β α)}
    (keeps : β → σ → Prop) {s : σ}
    (hstep : ∀ b s', ready s' → later s s' → keeps b s' →
      Advances ready stopped later (Turn.Says keeps done) failed s' (step b s'))
    (hunfinished : ∀ s', ready s' → stopped s' ∧ failed unfinished s') (passes : Nat) {b : β}
    (hs : ready s) (hrefl : later s s) (hb : keeps b s) :
    Advances ready stopped later done failed s (iterate unfinished step passes b s) := by
  -- every turn starts at a later moment than the first
  refine outcome_iterate (fun b s' => ready s' ∧ later s s' ∧ keeps b s') ?_ ?_ passes b s
    ⟨hs, hrefl, hb⟩
  · rintro b s' ⟨hs', hlater, hb⟩
    refine Outcome.mono (advances_of_later hlater (hstep b s' hs' hlater hb)) ?_
      fun _ _ he => he
    rintro turn s'' ⟨hs'', hlater', hturn⟩
    cases turn <;> exact ⟨hs'', hlater', hturn⟩
  · rintro b s' ⟨hs', hlater, -⟩
    exact ⟨(hunfinished s' hs').1, hlater, (hunfinished s' hs').2⟩

end Advances

/-! ### Projections -/

/-- The outcome over a richer state, seen over a plainer one. -/
def Outcome.project (f : σ → τ) : EStateM.Result ε σ α → EStateM.Result ε τ α
  | .ok a s => .ok a (f s)
  | .error e s => .error e (f s)

/-- The state in which a projected run ends. -/
theorem Outcome.state_project (f : σ → τ) (r : EStateM.Result ε σ α) :
    Outcome.state (Outcome.project f r) = f (Outcome.state r) := by
  cases r <;> rfl

/-- **Projection.** The action over the richer state does exactly what the other does over the
plainer one, with the same result or error, and whatever else it keeps has no effect on that. -/
def Projects (f : σ → τ) (rich : EStateM ε σ α) (plain : EStateM ε τ α) : Prop :=
  ∀ s, Outcome.project f (rich s) = plain (f s)

variable {f : σ → τ}

theorem projects_pure (a : α) : Projects f (pure a : EStateM ε σ α) (pure a) := fun _ => rfl

theorem projects_throw (e : ε) : Projects f (throw e : EStateM ε σ α) (throw e) := fun _ => rfl

/-- A projection of both parts is one of the whole. -/
theorem projects_bind {rich : EStateM ε σ β} {plain : EStateM ε τ β}
    {next : β → EStateM ε σ α} {next' : β → EStateM ε τ α} (h : Projects f rich plain)
    (hnext : ∀ b, Projects f (next b) (next' b)) :
    Projects f (rich >>= next) (plain >>= next') := by
  intro s
  have hs := h s
  change Outcome.project f (EStateM.bind rich next s) = EStateM.bind plain next' (f s)
  unfold EStateM.bind
  rw [← hs]
  cases rich s with
  | ok b s' => exact hnext b s'
  | error e s' => rfl

/-! ### Changes of states, errors and results -/

section Carries

variable {δ α' β' γ' : Type}

/-- **The outcome with everything in it changed.** -/
def Outcome.map (onState : σ → τ) (onError : ε → δ) (onResult : α → α') :
    EStateM.Result ε σ α → EStateM.Result δ τ α'
  | .ok a s => .ok (onResult a) (onState s)
  | .error e s => .error (onError e) (onState s)

/-- **The changes are carried through.** From the changed state the second action does what the first
does from the state itself, with its result or its error changed. -/
def Carries (onState : σ → τ) (onError : ε → δ) (onResult : α → α') (act : EStateM ε σ α)
    (act' : EStateM δ τ α') : Prop :=
  ∀ s, Outcome.map onState onError onResult (act s) = act' (onState s)

variable {onState : σ → τ} {onError : ε → δ} {onResult : α → α'} {onFirst : β → β'}

theorem carries_pure (a : α) :
    Carries onState onError onResult (pure a : EStateM ε σ α) (pure (onResult a)) := fun _ => rfl

theorem carries_throw (e : ε) :
    Carries onState onError onResult (throw e : EStateM ε σ α) (throw (onError e)) := fun _ => rfl

/-- **One action after the other.** -/
theorem carries_bind {act : EStateM ε σ β} {act' : EStateM δ τ β'} {next : β → EStateM ε σ α}
    {next' : β' → EStateM δ τ α'} (h : Carries onState onError onFirst act act')
    (hnext : ∀ b, Carries onState onError onResult (next b) (next' (onFirst b))) :
    Carries onState onError onResult (act >>= next) (act' >>= next') := by
  intro s
  have hs := h s
  change Outcome.map _ _ _ (EStateM.bind act next s) = EStateM.bind act' next' (onState s)
  unfold EStateM.bind
  rw [← hs]
  cases act s with
  | ok b s' => exact hnext b s'
  | error e s' => rfl

/-- An action that only changes what is left out on the other side can stand in front. -/
theorem carries_silent_bind {silent : EStateM ε σ β} {next : β → EStateM ε σ α} {b : β}
    {act' : EStateM δ τ α'} (h : ∀ s, ∃ s', silent s = .ok b s' ∧ onState s' = onState s)
    (hnext : Carries onState onError onResult (next b) act') :
    Carries onState onError onResult (silent >>= next) act' := by
  intro s
  obtain ⟨s', hsilent, hsame⟩ := h s
  change Outcome.map _ _ _ (EStateM.bind silent next s) = act' (onState s)
  unfold EStateM.bind
  rw [hsilent, ← hsame]
  exact hnext s'

/-- A turn with its state and its result changed. -/
def Turn.map (onNext : β → β') (onDone : γ → γ') : Turn β γ → Turn β' γ'
  | .again b => .again (onNext b)
  | .done c => .done (onDone c)

theorem Turn.map_id : (Turn.map id id : Turn β γ → Turn β γ) = id := by
  funext turn
  cases turn <;> rfl

/-- **The changes are carried through from one state,** and what is said of the outcome holds. -/
def Conveys (onState : σ → τ) (onError : ε → δ) (onResult : α → α') (done : α → σ → Prop)
    (failed : ε → σ → Prop) (act : EStateM ε σ α) (act' : EStateM δ τ α') (s : σ) : Prop :=
  Outcome.map onState onError onResult (act s) = act' (onState s) ∧ Outcome done failed (act s)

/-- A weaker statement about the outcome. -/
theorem Conveys.mono {done' : α → σ → Prop} {failed' : ε → σ → Prop} {act : EStateM ε σ α}
    {act' : EStateM δ τ α'} {s : σ} (h : Conveys onState onError onResult done failed act act' s)
    (hdone : ∀ a s, done a s → done' a s) (hfailed : ∀ e s, failed e s → failed' e s) :
    Conveys onState onError onResult done' failed' act act' s :=
  ⟨h.1, h.2.mono hdone hfailed⟩

/-- **One action after the other,** the second from whatever state the first ends in. -/
theorem conveys_bind {act : EStateM ε σ β} {act' : EStateM δ τ β'} {next : β → EStateM ε σ α}
    {next' : β' → EStateM δ τ α'} {s : σ}
    (h : Conveys onState onError onFirst
      (fun b => Conveys onState onError onResult done failed (next b) (next' (onFirst b))) failed
      act act' s) :
    Conveys onState onError onResult done failed (act >>= next) (act' >>= next') s := by
  obtain ⟨hsame, hsaid⟩ := h
  change Outcome.map _ _ _ (EStateM.bind act next s) = EStateM.bind act' next' (onState s) ∧
    Outcome _ _ (EStateM.bind act next s)
  unfold EStateM.bind
  rw [← hsame]
  cases hact : act s with
  | ok b s' => rw [hact] at hsaid; exact hsaid
  | error e s' => rw [hact] at hsaid; exact ⟨rfl, hsaid⟩

/-- **Bounded repetition.** -/
theorem conveys_iterate {unfinished : ε} {step : β → EStateM ε σ (Turn β α)}
    {step' : β' → EStateM δ τ (Turn β' α')} (keeps : β → σ → Prop)
    (hstep : ∀ b s, keeps b s → Conveys onState onError (Turn.map onFirst onResult)
      (Turn.Says keeps done) failed (step b) (step' (onFirst b)) s)
    (hunfinished : ∀ b s, keeps b s → failed unfinished s) (passes : Nat) :
    ∀ b s, keeps b s → Conveys onState onError onResult done failed
      (iterate unfinished step passes b) (iterate (onError unfinished) step' passes (onFirst b))
      s := by
  induction passes with
  | zero => exact fun b s hb => ⟨rfl, hunfinished b s hb⟩
  | succ passes ih =>
    intro b s hb
    obtain ⟨hsame, hsaid⟩ := hstep b s hb
    unfold Conveys
    rw [iterate, iterate, ← hsame]
    -- both sides take the same turn, so that they go on alike
    cases hact : step b s with
    | error e s' => rw [hact] at hsaid; exact ⟨rfl, hsaid⟩
    | ok turn s' =>
      rw [hact] at hsaid
      cases turn with
      | again b' => exact ih b' s' hsaid
      | done c => exact ⟨rfl, hsaid⟩

end Carries

end Lox
