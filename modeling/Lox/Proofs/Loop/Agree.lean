import Lox.Evaluator
import Lox.Proofs.Loop.Upkeep

/-!
# Runs side by side

Two runs agree if they end in the same way, with values that nobody can tell apart and in sessions
that are paired again. One host or either may have too little room; a run that is cut short there
agrees with every other.

* `Side.Excuses` — runs that are cut short;
* `Pairing.Ends` — two outcomes that are alike, `Agree` such outcomes of two runs;
* `Agree.bind`, `Agree.iterate` — composition;
* `Agree.located`, `Agree.inFrame`, `Agree.valueOf` — what surrounds a call.
-/

namespace Lox

variable {α β γ α' β' γ' : Type}

/-! ### Outcomes -/

/-- **A run that was cut short** for want of room. -/
def Exhausted (r : EStateM.Result Interrupt Session α) : Prop :=
  ∃ line m, r = .error (.failed ⟨.roomExhausted, line⟩) m

/-- The side whose host may have too little room. -/
inductive Side
  | left
  | right
  | either

/-- The run on that side was cut short. -/
def Side.Excuses (side : Side) (r : EStateM.Result Interrupt Session α)
    (r' : EStateM.Result Interrupt Session β) : Prop :=
  match side with
  | left => Exhausted r
  | right => Exhausted r'
  | either => Exhausted r ∨ Exhausted r'

theorem Side.excuses_left {side : Side} {r : EStateM.Result Interrupt Session α}
    {r' : EStateM.Result Interrupt Session β} (hside : side ≠ .right) (h : Exhausted r) :
    side.Excuses r r' := by
  cases side with
  | left => exact h
  | right => exact absurd rfl hside
  | either => exact .inl h

theorem Side.excuses_right {side : Side} {r : EStateM.Result Interrupt Session α}
    {r' : EStateM.Result Interrupt Session β} (hside : side ≠ .left) (h : Exhausted r') :
    side.Excuses r r' := by
  cases side with
  | left => exact absurd rfl hside
  | right => exact h
  | either => exact .inr h

theorem Side.Excuses.cases {side : Side} {r : EStateM.Result Interrupt Session α}
    {r' : EStateM.Result Interrupt Session β} (h : side.Excuses r r') :
    side ≠ .right ∧ Exhausted r ∨ side ≠ .left ∧ Exhausted r' := by
  cases side with
  | left => exact .inl ⟨nofun, h⟩
  | right => exact .inr ⟨nofun, h⟩
  | either => exact h.imp (⟨nofun, ·⟩) (⟨nofun, ·⟩)

theorem Side.Excuses.imp {side : Side} {r : EStateM.Result Interrupt Session α}
    {r' : EStateM.Result Interrupt Session β} {t : EStateM.Result Interrupt Session α'}
    {t' : EStateM.Result Interrupt Session β'} (h : side.Excuses r r')
    (hleft : Exhausted r → Exhausted t) (hright : Exhausted r' → Exhausted t') :
    side.Excuses t t' := by
  cases side with
  | left => exact hleft h
  | right => exact hright h
  | either => exact Or.imp hleft hright h

namespace Pairing

/-- **Interrupts that nobody can tell apart.** -/
inductive Interrupts (p : Pairing) : Interrupt → Interrupt → Prop
  | returning {v v' : Value} (h : p.Values v v') : Interrupts p (.returning v) (.returning v')
  | failed (e : RuntimeError) : Interrupts p (.failed e) (.failed e)
  | misplaced (node : Misplaced) : Interrupts p (.misplaced node) (.misplaced node)
  | unfinished : Interrupts p .unfinished .unfinished

theorem Interrupts.mono {p q : Pairing} {inner : Bool} {e e' : Interrupt} (h : p.Interrupts e e')
    (hpq : p.Extends inner q) : q.Interrupts e e' := by
  cases h with
  | returning h => exact .returning (h.mono hpq)
  | failed e => exact .failed e
  | misplaced node => exact .misplaced node
  | unfinished => exact .unfinished

/-- **Outcomes that are alike,** in the sessions of a pairing. -/
inductive Ends (q : Pairing) (post : α → β → Prop) : EStateM.Result Interrupt Session α →
    EStateM.Result Interrupt Session β → Prop
  | done {a : α} {b : β} (h : post a b) : Ends q post (.ok a q.left) (.ok b q.right)
  | failed {e e' : Interrupt} (h : q.Interrupts e e') :
    Ends q post (.error e q.left) (.error e' q.right)

end Pairing

/-- **Two runs agree** that began in the sessions of `p`, or one of them was cut short. -/
def Agree (side : Side) (p : Pairing) (post : Pairing → α → β → Prop)
    (r : EStateM.Result Interrupt Session α) (r' : EStateM.Result Interrupt Session β) : Prop :=
  side.Excuses r r' ∨ ∃ q, p.Extends true q ∧ q.Valid ∧ q.Ends (post q) r r'

/-! ### Nothing catches the lack of room -/

section Exhausted

variable {act : Exec α} {m : Session}

theorem Exhausted.bind {next : α → Exec β} (h : Exhausted (act m)) :
    Exhausted ((act >>= next) m) := by
  obtain ⟨line, m', h⟩ := h
  refine ⟨line, m', ?_⟩
  change EStateM.bind act next m = _
  rw [EStateM.bind, h]

theorem Exhausted.iterate {step : β → Exec (Turn β γ)} {b : β} (h : Exhausted (step b m))
    (passes : Nat) : Exhausted (Lox.iterate .unfinished step (passes + 1) b m) := by
  obtain ⟨line, m', h⟩ := h
  exact ⟨line, m', by rw [Lox.iterate, h]⟩

/-- The error gets a line at most. -/
theorem Exhausted.located (h : Exhausted (act m)) (line : Int) :
    Exhausted (Exec.located line act m) := by
  obtain ⟨line', m', h⟩ := h
  exact ⟨line'.or (some line), m', by rw [Exec.located, h]; rfl⟩

theorem Exhausted.valueOf {body : Exec Unit} (h : Exhausted (body m)) :
    Exhausted (Exec.valueOf body m) := by
  obtain ⟨line, m', h⟩ := h
  exact ⟨line, m', by rw [Exec.valueOf, h]⟩

theorem Exhausted.inFrame
    (h : Exhausted (act { m with rest := { m.rest with frames := m.rest.frames + 1 } })) :
    Exhausted (Exec.inFrame act m) := by
  obtain ⟨line, m', h⟩ := h
  exact ⟨line, _, by rw [Exec.inFrame, h]⟩

end Exhausted

/-! ### Composition -/

namespace Agree

variable {side : Side} {p q : Pairing} {post : Pairing → α → β → Prop}
  {post' : Pairing → α' → β' → Prop}

theorem pure (hp : p.Valid) {a : α} {b : β} (h : post p a b) :
    Agree side p post ((Pure.pure a : Exec α) p.left) ((Pure.pure b : Exec β) p.right) :=
  .inr ⟨p, .refl p, hp, .done h⟩

theorem throw (hp : p.Valid) {e e' : Interrupt} (h : p.Interrupts e e') :
    Agree side p post ((MonadExcept.throw e : Exec α) p.left)
      ((MonadExcept.throw e' : Exec β) p.right) :=
  .inr ⟨p, .refl p, hp, .failed h⟩

/-- Runs that began later. -/
theorem imp {post₂ : Pairing → α → β → Prop} {r : EStateM.Result Interrupt Session α}
    {r' : EStateM.Result Interrupt Session β} (hpq : p.Extends true q)
    (h : Agree side q post r r')
    (hpost : ∀ v a b, q.Extends true v → post v a b → post₂ v a b) : Agree side p post₂ r r' := by
  obtain h | ⟨v, hext, hv, hends⟩ := h
  · exact .inl h
  · refine .inr ⟨v, hpq.trans hext, hv, ?_⟩
    cases hends with
    | done h => exact .done (hpost _ _ _ hext h)
    | failed h => exact .failed h

theorem rebase {r : EStateM.Result Interrupt Session α} {r' : EStateM.Result Interrupt Session β}
    (hpq : p.Extends true q) (h : Agree side q post r r') : Agree side p post r r' :=
  imp hpq h fun _ _ _ _ hab => hab

/-- **One run after the other.** What is left of `q` in the end need not be known, as long as what
is older than `q` is kept. -/
theorem bindFrom {act : Exec α} {act' : Exec β} {next : α → Exec α'} {next' : β → Exec β'}
    {m m' : Session} (hpq : p.Extends true q) (h : Agree side q post (act m) (act' m'))
    (hnext : ∀ r a b, q.Extends true r → p.Extends true r → r.Valid → post r a b →
      Agree side p post' (next a r.left) (next' b r.right)) :
    Agree side p post' ((act >>= next) m) ((act' >>= next') m') := by
  obtain h | ⟨r, hext, hr, hends⟩ := h
  · exact .inl (h.imp Exhausted.bind Exhausted.bind)
  · change Agree side p post' (EStateM.bind act next m) (EStateM.bind act' next' m')
    unfold EStateM.bind
    -- an interrupt on one side is one on the other, and both skip what follows
    generalize act m = o at hends
    generalize act' m' = o' at hends
    cases hends with
    | done h => exact hnext r _ _ hext (hpq.trans hext) hr h
    | failed h => exact .inr ⟨r, hpq.trans hext, hr, .failed h⟩

theorem bind {act : Exec α} {act' : Exec β} {next : α → Exec α'} {next' : β → Exec β'}
    {m m' : Session} (h : Agree side p post (act m) (act' m'))
    (hnext : ∀ q a b, p.Extends true q → q.Valid → post q a b →
      Agree side q post' (next a q.left) (next' b q.right)) :
    Agree side p post' ((act >>= next) m) ((act' >>= next') m') :=
  bindFrom (.refl p) h fun q a b hext _ hq hab => (hnext q a b hext hq hab).rebase hext

/-- **A statement about two turns.** Both go on, or both are the last. -/
inductive Turns (again : Pairing → β → β' → Prop) (done : Pairing → γ → γ' → Prop) (q : Pairing) :
    Turn β γ → Turn β' γ' → Prop
  | again {b : β} {b' : β'} (h : again q b b') : Turns again done q (.again b) (.again b')
  | done {c : γ} {c' : γ'} (h : done q c c') : Turns again done q (.done c) (.done c')

theorem again {keeps : Pairing → β → β' → Prop} {act : Exec β} {act' : Exec β'} {m m' : Session}
    (h : Agree side p keeps (act m) (act' m')) (done : Pairing → γ → γ' → Prop) :
    Agree side p (Turns keeps done) ((act >>= fun b => Pure.pure (.again b)) m)
      ((act' >>= fun b => Pure.pure (.again b)) m') := by
  refine bind h ?_
  intro q b b' _ hq hb
  exact pure hq (.again hb)

/-- **Bounded repetition.** What every pass keeps need not grow with the pairing; it is enough that
everything from before the loop is kept. -/
theorem iterate {step : β → Exec (Turn β γ)} {step' : β' → Exec (Turn β' γ')}
    (keeps : Pairing → β → β' → Prop) {done : Pairing → γ → γ' → Prop}
    (hstep : ∀ q b b', p.Extends true q → q.Valid → keeps q b b' →
      Agree side p (Turns keeps done) (step b q.left) (step' b' q.right)) (passes : Nat) :
    ∀ q b b', p.Extends true q → q.Valid → keeps q b b' →
      Agree side p done (Lox.iterate .unfinished step passes b q.left)
        (Lox.iterate .unfinished step' passes b' q.right) := by
  induction passes with
  | zero =>
    intro q b b' hext hq _
    exact .inr ⟨q, hext, hq, .failed .unfinished⟩
  | succ passes ih =>
    intro q b b' hext hq hkeeps
    -- a pass that is cut short ends the loop, and otherwise both sides go on or both are done
    obtain hexcused | ⟨q', hext', hq', hends⟩ := hstep q b b' hext hq hkeeps
    · exact .inl (hexcused.imp (·.iterate passes) (·.iterate passes))
    · rw [Lox.iterate, Lox.iterate]
      generalize step b q.left = r at hends
      generalize step' b' q.right = r' at hends
      cases hends with
      | failed h => exact .inr ⟨q', hext', hq', .failed h⟩
      | done h =>
        cases h with
        | again h => exact ih q' _ _ hext' hq' h
        | done h => exact .inr ⟨q', hext', hq', .done h⟩

/-! ### What surrounds a call -/

theorem located {act : Exec α} {act' : Exec β} {m m' : Session} (line : Int)
    (h : Agree side p post (act m) (act' m')) :
    Agree side p post (Exec.located line act m) (Exec.located line act' m') := by
  obtain h | ⟨q, hext, hq, hends⟩ := h
  · exact .inl (h.imp (·.located line) (·.located line))
  · refine .inr ⟨q, hext, hq, ?_⟩
    unfold Exec.located
    generalize act m = r at hends
    generalize act' m' = r' at hends
    cases hends with
    | done h => exact .done h
    | failed h =>
      cases h with
      | returning h => exact .failed (.returning h)
      | failed e => exact .failed (.failed _)
      | misplaced node => exact .failed (.misplaced node)
      | unfinished => exact .failed .unfinished

/-- The value of a body. -/
theorem valueOf {body body' : Exec Unit} {m m' : Session}
    (h : Agree side p (fun _ _ _ => True) (body m) (body' m')) :
    Agree side p Pairing.Values (Exec.valueOf body m) (Exec.valueOf body' m') := by
  obtain h | ⟨q, hext, hq, hends⟩ := h
  · exact .inl (h.imp Exhausted.valueOf Exhausted.valueOf)
  · refine .inr ⟨q, hext, hq, ?_⟩
    unfold Exec.valueOf
    generalize body m = r at hends
    generalize body' m' = r' at hends
    -- a return ends here, and every other interrupt goes on
    cases hends with
    | done h => exact .done (.literal .nil)
    | failed h =>
      cases h with
      | returning h => exact .done h
      | failed e => exact .failed (.failed _)
      | misplaced node => exact .failed (.misplaced node)
      | unfinished => exact .failed .unfinished

/-- **One more call in progress** on both sides. -/
theorem inFrame (hp : p.Valid) {call call' : Exec Value}
    (h : ∀ q, p.Extends true q → q.Valid →
      q.left = { p.left with rest := { p.left.rest with frames := p.left.rest.frames + 1 } } →
      q.right = { p.right with rest := { p.right.rest with frames := p.right.rest.frames + 1 } } →
      Agree side q Pairing.Values (call q.left) (call' q.right)) :
    Agree side p Pairing.Values (Exec.inFrame call p.left) (Exec.inFrame call' p.right) := by
  let framed : Pairing := p.change
    -- both sides count one more call
    { p.left with rest := { p.left.rest with frames := p.left.rest.frames + 1 } }
    { p.right with rest := { p.right.rest with frames := p.right.rest.frames + 1 } }
  have hframed : framed.Valid := hp.change hp.undisturbed_left hp.undisturbed_right
    hp.functions_eq { hp.consoles with frames_eq := congrArg (· + 1) hp.consoles.frames_eq }
  have hext : p.Extends true framed :=
    Pairing.extends_change (Store.Grown.refl _) (Store.Grown.refl _)
  obtain h | ⟨q, hextq, hq, hends⟩ := h framed hext hframed rfl rfl
  · exact .inl (h.imp Exhausted.inFrame Exhausted.inFrame)
  · -- afterwards there is one call less
    let last : Pairing := q.change
      { q.left with rest := { q.left.rest with frames := q.left.rest.frames - 1 } }
      { q.right with rest := { q.right.rest with frames := q.right.rest.frames - 1 } }
    have hlast : last.Valid := hq.change hq.undisturbed_left hq.undisturbed_right
      hq.functions_eq { hq.consoles with frames_eq := congrArg (· - 1) hq.consoles.frames_eq }
    have hextl : q.Extends true last :=
      Pairing.extends_change (Store.Grown.refl _) (Store.Grown.refl _)
    refine .inr ⟨last, (hext.trans hextq).trans hextl, hlast, ?_⟩
    rw [Exec.inFrame, Exec.inFrame]
    generalize hr : call framed.left = r at hends
    generalize hr' : call' framed.right = r' at hends
    change call ⟨p.left.store, { p.left.rest with frames := p.left.rest.frames + 1 }⟩ = r at hr
    change call' ⟨p.right.store, { p.right.rest with frames := p.right.rest.frames + 1 }⟩ = r' at hr'
    rw [hr, hr']
    cases hends with
    | done h => exact .done (h.mono hextl)
    | failed h => exact .failed (h.mono hextl)

end Agree

end Lox
