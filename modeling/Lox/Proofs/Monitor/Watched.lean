import Lox.Proofs.Monitor.Soundness

/-!
# Evaluators that are watched

All evaluators do what a monitor expects of a run, whatever nodes they are given: every construct by
the rules for the runs of its parts, and the recursion by induction on the room.

* `Monitor.Evaluator.Watched` — what is expected of an evaluator;
* `Monitor.runs_call` — calls;
* `Monitor.runs_evaluateStep`, `Monitor.runs_executeStep` — expressions and statements;
* `Monitor.watched_evaluator` — evaluators in any room.
-/

namespace Lox

namespace Monitor

variable {T : Premises} {m m' : Monitor} {α : Type} {new : RuntimeError → Prop}

/-! ### Evaluators -/

/-- **Evaluators that can be watched,** whatever node that fits they are given. -/
structure Evaluator.Watched (T : Premises) (ev : Evaluator) : Prop where
  evaluate : ∀ {m chunk e scope}, Ready T m → T.fits chunk (.expr e) →
    Runs T m (Accepted T) (fun _ => False) (ev.evaluate chunk e scope)
  execute : ∀ {m chunk s scope}, Ready T m → T.fits chunk (.stmt s) →
    Runs T m (fun _ _ => True) (fun _ => False) (ev.execute chunk s scope)

variable {host : Host} {d : Nat → Evaluator} {chunk : Nat} {scope : ScopeId}

/-- Inside a node the parts have been blamed already. -/
theorem Evaluator.Watched.evaluate' {ev : Evaluator} (hev : ev.Watched T) (hm : Ready T m) {e : Expr}
    (he : T.fits chunk (.expr e)) : Runs T m (Accepted T) new (ev.evaluate chunk e scope) :=
  (hev.evaluate hm he).mono fun _ hfalse => hfalse.elim

theorem Evaluator.Watched.execute' {ev : Evaluator} (hev : ev.Watched T) (hm : Ready T m) {s : Stmt}
    (hs : T.fits chunk (.stmt s)) :
    Runs T m (fun _ _ => True) new (ev.execute chunk s scope) :=
  (hev.execute hm hs).mono fun _ hfalse => hfalse.elim

/-- Several expressions. -/
theorem runs_evaluateAll {ev : Evaluator} (hev : ev.Watched T) {es : List Expr}
    (hes : ∀ e ∈ es, T.fits chunk (.expr e)) (hm : Ready T m) :
    Runs T m (fun vs m' => ∀ v ∈ vs, Accepted T v m') new
      (Steps.evaluateAll scribe.next (fun p e => ev.evaluate p e scope) chunk es) := by
  induction es generalizing m with
  | nil => exact runs_pure hm fun v hv => nomatch hv
  | cons e es ih =>
    refine runs_bind (hev.evaluate' hm (hes e List.mem_cons_self)) fun v m₁ hm₁ _ hv => ?_
    refine runs_bind (ih (fun e' he' => hes e' (List.mem_cons_of_mem _ he')) hm₁)
      fun vs m₂ hm₂ h₂ hvs => runs_pure hm₂ fun w hw => ?_
    obtain rfl | hw := List.mem_cons.1 hw
    · exact Vouched.later hv h₂
    · exact hvs w hw

/-- Several statements. -/
theorem runs_executeAll {ev : Evaluator} (hev : ev.Watched T) {ss : List Stmt}
    (hss : ∀ s ∈ ss, T.fits chunk (.stmt s)) (hm : Ready T m) :
    Runs T m (fun _ _ => True) new
      (Steps.executeAll scribe.next (fun p s => ev.execute p s scope) chunk ss) := by
  induction ss generalizing m with
  | nil => exact runs_pure hm trivial
  | cons s ss ih =>
    refine runs_bind (hev.execute' hm (hss s List.mem_cons_self)) fun _ m₁ hm₁ _ _ => ?_
    exact ih (fun s' hs' => hss s' (List.mem_cons_of_mem _ hs')) hm₁

/-- An expression that may be absent. -/
theorem runs_evaluateOption {ev : Evaluator} (hev : ev.Watched T) {e : Option Expr}
    (he : ∀ e' ∈ e, T.fits chunk (.expr e')) (hm : Ready T m) :
    Runs T m (Accepted T) new
      (Steps.evaluateOption (fun e => ev.evaluate chunk e scope) e) := by
  cases e with
  | none => exact runs_pure hm trivial
  | some e => exact hev.evaluate' hm (he e rfl)

/-- **The body of a function** comes from the input in which the function was made. -/
theorem runs_body (hd : ∀ cost, (d cost).Watched T) (hm : Ready T m) {f : Closure}
    (hf : Accepted T (.closure f) m) (arguments : List Value) (activation : ScopeId) :
    Runs T m (Accepted T) new
      (((scribe.steps host).callHooks host d).body f arguments activation) := by
  set chunk := m.notes.birth f.identity
  have hvalue : ∀ m', Ready T m' → Runs T m' (Accepted T) new (Exec.valueOf
      (Steps.executeAll scribe.next (fun p s => (d 4).execute p s activation) chunk f.body)) :=
    fun m' hm' => runs_valueOf (runs_executeAll (hd 4) (Vouched.body hf) hm')
  change Runs T m _ _ (do
    Annotating.lift (Exec.emit host fun _ => .called (.closure f) arguments)
    if host.tracing then
      Annotating.lift ((f.parameters.zip arguments).forM fun item =>
        Exec.emit host fun _ => .declared item.1 item.2)
    Exec.valueOf
      (Steps.executeAll scribe.next (fun p s => (d 4).execute p s activation) chunk f.body))
  refine runs_bind (runs_reports hm (reports_emit host _)) fun _ m₁ hm₁ _ _ => ?_
  split
  · exact runs_bind (runs_reports hm₁ (reports_forM (fun item => reports_emit host _) _))
      fun _ m₂ hm₂ _ _ => hvalue m₂ hm₂
  · exact hvalue m₁ hm₁

/-- **The activation of a function** and its body. -/
theorem runs_activation (hd : ∀ cost, (d cost).Watched T) (hm : Ready T m) {f : Closure}
    (hf : Accepted T (.closure f) m) {arguments : List Value}
    (harguments : ∀ v ∈ arguments, Accepted T v m) :
    Runs T m (Accepted T) new (do
      let activation ← Action.onStore (·.activate f arguments)
      ((scribe.steps host).callHooks host d).body f arguments activation) := by
  have hitems : ∀ item ∈ (f.parameters.zip arguments).map fun item => (item.1, item.2, false),
      Vouched T m item.2.1 := by
    intro item hitem
    -- the parameters hold the arguments
    obtain ⟨⟨parameter, value⟩, hmem, rfl⟩ := List.mem_map.mp hitem
    exact harguments value (List.of_mem_zip hmem).2
  exact runs_bind (runs_opened hm hitems rfl) fun activation m₁ hm₁ h₁ _ =>
    runs_body hd hm₁ (Vouched.later hf h₁) arguments activation

/-- **Calls** of values that are vouched for. -/
theorem runs_call (hd : ∀ cost, (d cost).Watched T) (hm : Ready T m) (callee : Expr) (paren : Token)
    (es : List Expr) {f : Value} (hf : Accepted T f m) {arguments : List Value}
    (harguments : ∀ v ∈ arguments, Accepted T v m) :
    Runs T m (Accepted T) (Node.expr (.call callee paren es)).Accounts
      ((scribe.steps host).call host d paren f arguments) := by
  -- what the invocation itself complains about has no line yet
  have hinvoke : ∀ m', Ready T m' → (∀ v, Vouched T m v → Vouched T m' v) → Runs T m' (Accepted T)
      (fun err => err.line = none ∧ (Node.expr (.call callee paren es)).Blames err.cause paren)
      (invoke ((scribe.steps host).callHooks host d) f arguments) := by
    intro m' hm' hvouched
    have hf' := hvouched f hf
    have harguments' := fun v hv => hvouched v (harguments v hv)
    cases f with
    | literal value =>
      -- the call itself complains: about what is called, or about the number of arguments
      exact runs_throw hm' (.inr ⟨hm'.blameless, _, rfl, rfl, .notCallable callee paren es⟩)
    | native g =>
      unfold invoke
      simp only
      split
      · obtain ⟨events, hemit⟩ := reports_emit host (fun _ => .called (.native g) arguments) m'.plain
        refine runs_lift hm' (a := .number (host.clock m'.rest.console.readings))
          (s := ⟨m'.store, { m'.rest.console with
            events := events, readings := m'.rest.console.readings + 1 }⟩) ?_ rfl (.refl _)
          hm'.vouched trivial
        change EStateM.bind _ _ m'.plain = _
        rw [EStateM.bind, hemit]
        rfl
      · exact runs_throw hm' (.inr ⟨hm'.blameless, _, rfl, rfl, .arity callee paren es _ _ _⟩)
    | closure g =>
      unfold invoke
      simp only
      split
      · exact runs_activation hd hm' hf' harguments'
      · exact runs_throw hm' (.inr ⟨hm'.blameless, _, rfl, rfl, .arity callee paren es _ _ _⟩)
  -- the depth of calls is looked at before anything else
  change Runs T m _ _ (if m.rest.console.frames = maxFrames then _ else _)
  split
  · exact runs_fail hm (.inr ⟨paren, .depth callee paren es, rfl⟩)
  · next hroom =>
    exact runs_inCall hm hroom fun m' hm' hvouched => runs_located (hinvoke m' hm' hvouched)

/-! ### Expressions -/

theorem category_of_applyUnary {kind : TokenKind} {v : Value} {cause : Cause}
    (h : applyUnary kind v = .error cause) : cause.category = .operand := by
  unfold applyUnary at h
  split at h
  all_goals first
    | contradiction
    | (obtain rfl := Except.error.inj h; rfl)

theorem category_of_applyBinary {kind : TokenKind} {v w : Value} {cause : Cause}
    (h : applyBinary kind v w = .error cause) : cause.category = .operand := by
  unfold applyBinary at h
  split at h
  · contradiction
  · contradiction
  · split at h
    · contradiction
    · contradiction
    · obtain rfl := Except.error.inj h
      rfl
  · split at h
    · unfold applyArithmetic at h
      split at h
      all_goals first
        | contradiction
        | (obtain rfl := Except.error.inj h; rfl)
    · obtain rfl := Except.error.inj h
      rfl

/-- **Expressions.** -/
theorem runs_evaluateStep (hd : ∀ cost, (d cost).Watched T) (hm : Ready T m) {e : Expr}
    (he : T.fits chunk (.expr e)) :
    Runs T m (Accepted T) (fun _ => False)
      (((scribe.steps host).step host d).evaluate chunk e scope) := by
  -- the parts of what fits its place fit theirs
  have hpart := fun i part => T.inherited chunk _ i part he
  refine runs_within hm he scope (fun m hm => ?_) fun _ _ hv => hv
  cases e with
  | literal value => exact runs_pure hm trivial
  | grouping inner => exact (hd 1).evaluate' hm (hpart 0 _ rfl)
  | «variable» name => exact runs_read hm scope name
  | assign name value =>
    refine runs_bind ((hd 1).evaluate' hm (hpart 0 _ rfl)) fun v m₁ hm₁ _ hv => ?_
    exact runs_write hm₁ host scope name value hv
  | logical left operator right =>
    refine runs_bind ((hd 1).evaluate' hm (hpart 0 _ rfl)) fun v m₁ hm₁ _ hv => ?_
    split
    · exact runs_pure hm₁ hv
    · exact (hd 1).evaluate' hm₁ (hpart 1 _ rfl)
  | unary operator right =>
    refine runs_bind ((hd 1).evaluate' hm (hpart 0 _ rfl)) fun v m₁ hm₁ _ hv => ?_
    -- a result is a literal, which anybody vouches for; a complaint names the operator
    exact runs_orFail hm₁ operator.line
      (fun w hw => vouched_of_literal (applyUnary_literal hw))
      fun cause hcause => .inr ⟨operator, .operand operator right (category_of_applyUnary hcause), rfl⟩
  | binary left operator right =>
    refine runs_bind ((hd 1).evaluate' hm (hpart 0 _ rfl)) fun v m₁ hm₁ _ hv => ?_
    refine runs_bind ((hd 1).evaluate' hm₁ (hpart 1 _ rfl)) fun w m₂ hm₂ _ hw => ?_
    exact runs_orFail hm₂ operator.line
      (fun u hu => vouched_of_literal (applyBinary_literal hu))
      fun cause hcause =>
        .inr ⟨operator, .operands left operator right (category_of_applyBinary hcause), rfl⟩
  | call callee paren arguments =>
    refine runs_bind ((hd 1).evaluate' hm (hpart 0 _ rfl)) fun f m₁ hm₁ _ hf => ?_
    -- the callee has the number zero, and the arguments come behind it
    have harguments : ∀ e ∈ arguments, T.fits chunk (.expr e) := by
      intro e hmem
      obtain ⟨i, hi⟩ := List.mem_iff_getElem?.1 hmem
      exact hpart (i + 1) _ (Option.map_eq_some_iff.mpr ⟨e, hi, rfl⟩)
    refine runs_bind (runs_evaluateAll (hd 2) harguments hm₁) fun vs m₂ hm₂ h₂ hvs => ?_
    exact runs_call hd hm₂ callee paren arguments (Vouched.later hf h₂) hvs
  | foreign description => exact runs_throw hm (.inl hm.blameless)

/-! ### For loops -/

section ForLoop

variable {start : Option Stmt} {condition update : Option Expr} {body : Stmt} {current : ScopeId}

theorem runs_goesOn (hd : ∀ cost, (d cost).Watched T) (hm : Ready T m)
    (hcondition : ∀ e ∈ condition, T.fits chunk (.expr e)) :
    Runs T m (fun _ _ => True) new
      (((scribe.steps host).forLoop host d chunk start condition update body).goesOn current) := by
  cases condition with
  | none => exact runs_pure hm trivial
  | some e =>
    refine runs_bind ((hd 4).evaluate' hm (hcondition e rfl)) fun v m' hm' _ _ => ?_
    exact runs_pure hm' trivial

theorem runs_update (hd : ∀ cost, (d cost).Watched T) (hm : Ready T m)
    (hupdate : ∀ e ∈ update, T.fits chunk (.expr e)) :
    Runs T m (fun _ _ => True) new
      (ForLoop.clause
        ((scribe.steps host).forLoop host d chunk start condition update body).update current) := by
  cases update with
  | none => exact runs_pure hm trivial
  | some e =>
    refine runs_bind ((hd 4).evaluate' hm (hupdate e rfl)) fun v m' hm' _ _ => ?_
    exact runs_pure hm' trivial

/-- **From one pass to the next.** -/
theorem runs_advance (hm : Ready T m) (fresh : Bool) :
    Runs T m (fun _ _ => True) new
      (((scribe.steps host).forLoop host d chunk start condition update body).advance scope fresh
        current) := by
  cases fresh with
  | false => exact runs_pure hm trivial
  | true =>
    refine runs_bind (runs_opened hm (hm.vouched.contents trivial current) rfl)
      fun following m₁ hm₁ _ _ => ?_
    exact runs_bind (runs_reports hm₁ (reports_emitContents host following))
      fun _ m₂ hm₂ _ _ => runs_pure hm₂ trivial

/-- **A pass.** -/
theorem runs_pass (hd : ∀ cost, (d cost).Watched T) (hm : Ready T m)
    (hfits : T.fits chunk (.stmt (.forLoop start condition update body))) (fresh : Bool) :
    Runs T m (Turn.Says (fun _ _ => True) fun _ _ => True) new
      (((scribe.steps host).forLoop host d chunk start condition update body).pass scope fresh
        current) := by
  have hpart := fun i part => T.inherited chunk _ i part hfits
  have hcondition : ∀ e ∈ condition, T.fits chunk (.expr e) := by
    rintro e rfl
    exact hpart 1 _ rfl
  have hupdate : ∀ e ∈ update, T.fits chunk (.expr e) := by
    rintro e rfl
    exact hpart 2 _ rfl
  refine runs_bind (runs_goesOn hd hm hcondition) fun goesOn m₁ hm₁ _ _ => ?_
  cases goesOn with
  | false => exact runs_pure hm₁ trivial
  | true =>
    refine runs_bind ((hd 4).execute' hm₁ (hpart 3 _ rfl)) fun _ m₂ hm₂ _ _ => ?_
    refine runs_bind (runs_advance hm₂ fresh) fun following m₃ hm₃ _ _ => ?_
    exact runs_bind (runs_update hd hm₃ hupdate) fun _ m₄ hm₄ _ _ => runs_pure hm₄ trivial

/-- **For loops.** -/
theorem runs_forLoop (hd : ∀ cost, (d cost).Watched T) (hm : Ready T m)
    (hfits : T.fits chunk (.stmt (.forLoop start condition update body))) :
    Runs T m (fun _ _ => True) new
      (((scribe.steps host).forLoop host d chunk start condition update body).run .unfinished host.passes
        scope) := by
  refine runs_bind (runs_newScope hm _) fun first m₁ hm₁ _ _ => ?_
  have hstart : Runs T m₁ (fun _ _ => True) new
      (ForLoop.clause
        ((scribe.steps host).forLoop host d chunk start condition update body).start first) := by
    cases start with
    | none => exact runs_pure hm₁ trivial
    | some s => exact (hd 4).execute' hm₁ (T.inherited chunk _ 0 _ hfits rfl)
  refine runs_bind hstart fun _ m₂ hm₂ _ _ => ?_
  exact runs_iterate (fun current m₃ hm₃ _ => runs_pass hd hm₃ hfits _) host.passes first hm₂

end ForLoop

/-! ### Statements -/

/-- **Statements.** -/
theorem runs_executeStep (hd : ∀ cost, (d cost).Watched T) (hm : Ready T m) {s : Stmt}
    (hs : T.fits chunk (.stmt s)) :
    Runs T m (fun _ _ => True) (fun _ => False)
      (((scribe.steps host).step host d).execute chunk s scope) := by
  -- the parts of what fits its place fit theirs
  have hpart := fun i part => T.inherited chunk _ i part hs
  refine runs_within hm hs scope (fun m hm => ?_) fun _ _ _ => trivial
  cases s with
  | expression value =>
    exact runs_bind ((hd 1).evaluate' hm (hpart 0 _ rfl)) fun v m₁ hm₁ _ _ => runs_pure hm₁ trivial
  | print value =>
    refine runs_bind ((hd 1).evaluate' hm (hpart 0 _ rfl)) fun v m₁ hm₁ _ _ => ?_
    -- printing leaves the store and the frames alone
    have hprint : Runs T m₁ (fun _ _ => True) (Node.stmt (.print value)).Accounts
        (Annotating.lift (Exec.print v.display)) :=
      runs_lift (s := ⟨m₁.store, { m₁.rest.console with
        output := m₁.rest.console.output ++ v.display ++ "\n" }⟩) hm₁ rfl rfl (.refl _)
        hm₁.vouched trivial
    exact hprint
  | «variable» name initial const =>
    have hinitial : ∀ e ∈ initial, T.fits chunk (.expr e) := by
      rintro e rfl
      exact hpart 0 _ rfl
    refine runs_bind (runs_evaluateOption (hd 1) hinitial hm) fun v m₁ hm₁ _ hv => ?_
    exact runs_declare hm₁ host scope name.lexeme hv const
  | block body =>
    refine runs_bind (runs_newScope hm _) fun inner m₁ hm₁ _ _ => ?_
    refine runs_executeAll (hd 2) (fun s hmem => ?_) hm₁
    obtain ⟨i, hi⟩ := List.mem_iff_getElem?.1 hmem
    exact hpart i _ (Option.map_eq_some_iff.mpr ⟨s, hi, rfl⟩)
  | conditional condition yes no =>
    refine runs_bind ((hd 1).evaluate' hm (hpart 0 _ rfl)) fun v m₁ hm₁ _ _ => ?_
    split
    · exact (hd 1).execute' hm₁ (hpart 1 _ rfl)
    · cases no with
      | none => exact runs_pure hm₁ trivial
      | some no => exact (hd 1).execute' hm₁ (hpart 2 _ rfl)
  | whileLoop condition body =>
    refine runs_iterate (fun _ m₁ hm₁ _ => ?_) host.passes () hm
    refine runs_bind ((hd 1).evaluate' hm₁ (hpart 0 _ rfl)) fun v m₂ hm₂ _ _ => ?_
    split
    · exact runs_bind ((hd 1).execute' hm₂ (hpart 1 _ rfl))
        fun _ m₃ hm₃ _ _ => runs_pure hm₃ trivial
    · exact runs_pure hm₂ trivial
  | forLoop start condition update body => exact runs_forLoop hd hm hs
  | function name parameters body =>
    -- the body is looked at when the closure is called, and is vouched for from now on
    have hbody : ∀ st ∈ body, T.fits chunk (.stmt st) := by
      intro st hmem
      obtain ⟨i, hi⟩ := List.mem_iff_getElem?.1 hmem
      exact hpart i _ (Option.map_eq_some_iff.mpr ⟨st, hi, rfl⟩)
    exact runs_function hm host hbody name.lexeme (parameters.map (·.lexeme)) scope
  | returning keyword value =>
    have hvalue : ∀ e ∈ value, T.fits chunk (.expr e) := by
      rintro e rfl
      exact hpart 0 _ rfl
    refine runs_bind (runs_evaluateOption (hd 1) hvalue hm) fun v m₁ hm₁ _ hv => ?_
    exact runs_throw hm₁ (.inl ⟨hm₁.blameless, hv⟩)
  | foreign description => exact runs_throw hm (.inl hm.blameless)

/-! ### The evaluator of a host -/

/-- Without room every node is to blame itself. -/
theorem watched_full (host : Host) : Evaluator.Watched T (scribe.steps host).full where
  evaluate hm he :=
    runs_within hm he _ (fun _ hm => runs_fail hm (.inl rfl)) fun _ _ hv => hv
  execute hm hs :=
    runs_within hm hs _ (fun _ hm => runs_fail hm (.inl rfl)) fun _ _ _ => trivial

/-- **Evaluators in any room** can be watched. -/
theorem watched_evaluator (host : Host) (room cost : Nat) :
    Evaluator.Watched T (scribe.evaluator host room cost) := by
  refine recurse_induction (watched_full host) (fun inner hinner => ?_) room cost
  exact ⟨fun hm he => runs_evaluateStep hinner hm he, fun hm hs => runs_executeStep hinner hm hs⟩

end Monitor

end Lox
