import Lox.Proofs.Enclosure.Session

/-!
# Evaluation inside a block

A node that is run in a scope inside a block does the same there as in the corresponding scope without
the block. Whatever it creates, calls or captures is inside the block as well, since every scope that a
node makes is below its own or below one that a function has captured.

* `Enclosure.Evaluators` — evaluators that do the same without the block;
* `Enclosure.runs_call`, `Enclosure.runs_forStatement` — calls and loops;
* `Enclosure.runs_evaluateStep`, `Enclosure.runs_executeStep` — expressions and statements;
* `Enclosure.evaluators_recurse` — the evaluators in the same room.
-/

namespace Lox

namespace Enclosure

/-- **Evaluators that do the same without the block.** -/
structure Evaluators (ev ev' : Evaluator) : Prop where
  evaluate : ∀ {scopes : Nat} {scope : ScopeId} (e : Expr), scope.Inside scopes →
    RunsValue scopes (ev.evaluate e scope) (ev'.evaluate e scope.unwrap)
  execute : ∀ {scopes : Nat} {scope : ScopeId} (s : Stmt), scope.Inside scopes →
    RunsSame scopes (ev.execute s scope) (ev'.execute s scope.unwrap)

variable {scopes : Nat} {scope : ScopeId} {host : Host} {d d' : Nat → Evaluator}

/-- Nothing to be said about a result. -/
theorem runs_pure_same {α : Type} (a : α) : RunsSame scopes (pure a : Exec α) (pure a) :=
  runs_pure fun _ _ => trivial

/-- A literal has captured nothing. -/
theorem runs_pure_literal (l : Literal) :
    RunsValue scopes (pure (.literal l)) (pure (.literal l)) :=
  runs_pure (a := Value.literal l) fun _ _ => trivial

/-! ### Several parts -/

section Parts

variable (hscope : scope.Inside scopes) {ev ev' : Evaluator} (hev : Evaluators ev ev')

include hscope hev

theorem runs_evaluateAll (es : List Expr) :
    Runs scopes (List.map Value.unwrap) (fun n vs => ∀ v ∈ vs, v.Inside n)
      (evaluateAll (fun e => ev.evaluate e scope) es)
      (evaluateAll (fun e => ev'.evaluate e scope.unwrap) es) := by
  induction es generalizing scopes with
  | nil => exact runs_pure fun _ _ => by simp
  | cons e es ih =>
    refine runs_bind (hev.evaluate e hscope) fun _ v hle hv => ?_
    refine runs_bind (ih (hscope.mono hle)) fun _ vs hle' hvs => runs_pure fun _ hmore => ?_
    exact List.forall_mem_cons.2 ⟨hv.mono (Nat.le_trans hle' hmore),
      fun w hw => (hvs w hw).mono hmore⟩

theorem runs_executeAll (ss : List Stmt) :
    RunsSame scopes (executeAll (fun s => ev.execute s scope) ss)
      (executeAll (fun s => ev'.execute s scope.unwrap) ss) := by
  induction ss generalizing scopes with
  | nil => exact runs_pure_same ()
  | cons s ss ih =>
    exact runs_bind (hev.execute s hscope) fun _ _ hle _ => ih (hscope.mono hle)

theorem runs_evaluateOption (e : Option Expr) :
    RunsValue scopes (evaluateOption (fun e => ev.evaluate e scope) e)
      (evaluateOption (fun e => ev'.evaluate e scope.unwrap) e) := by
  cases e with
  | none => exact runs_pure_literal .nil
  | some e => exact hev.evaluate e hscope

end Parts

/-! ### Calls -/

section Calls

variable (hd : ∀ cost, Evaluators (d cost) (d' cost))

include hd

/-- **The body of a function.** -/
theorem runs_body (f : Closure) (arguments : List Value) {activation : ScopeId}
    (hactivation : activation.Inside scopes) :
    RunsValue scopes ((callHooks host d).body f arguments activation)
      ((callHooks host.untraced d').body f.unwrap (arguments.map Value.unwrap)
        activation.unwrap) := by
  have hvalue : ∀ more, scopes ≤ more → RunsValue more
      (Exec.valueOf (executeAll (fun s => (d 4).execute s activation) f.body))
      (Exec.valueOf (executeAll (fun s => (d' 4).execute s activation.unwrap) f.body)) :=
    fun _ hle => runs_valueOf (runs_executeAll (hactivation.mono hle) (hd 4) f.body)
  rw [callHooks_body]
  refine runs_reports_bind (reports_emit host _) fun more hle => ?_
  split
  · exact runs_reports_bind (reports_forM (fun _ => reports_emit host _) _) fun _ hle' =>
      hvalue _ (Nat.le_trans hle hle')
  · exact hvalue more hle

/-- **Calls of values.** -/
theorem runs_invoke {f : Value} (hf : f.Inside scopes) {arguments : List Value}
    (harguments : ∀ v ∈ arguments, v.Inside scopes) :
    RunsValue scopes (invoke (callHooks host d) f arguments)
      (invoke (callHooks host.untraced d') f.unwrap (arguments.map Value.unwrap)) := by
  have hlength : (arguments.map Value.unwrap).length = arguments.length := List.length_map _
  -- the number of arguments is the same on both sides, and so is the refusal
  cases f with
  | literal l => exact runs_throw trivial
  | native g =>
    change RunsValue scopes (if (arguments.length : Int) = g.arity then _ else throw _)
      (if ((arguments.map Value.unwrap).length : Int) = g.arity then _
        else throw (.failed ⟨.arityMismatch g.name g.arity (arguments.map Value.unwrap).length,
          none⟩))
    rw [hlength]
    split
    · exact runs_bind (runs_reports (reports_emit host _)) fun _ _ _ _ => runs_readClock host
    · exact runs_throw trivial
  | closure g =>
    change RunsValue scopes (if arguments.length = g.arity then _ else throw _)
      (if (arguments.map Value.unwrap).length = g.arity then _
        else throw (.failed ⟨.arityMismatch g.name g.arity (arguments.map Value.unwrap).length,
          none⟩))
    rw [hlength]
    split
    · exact runs_bind (runs_activate hf harguments) fun _ activation _ hactivation =>
        runs_body hd g arguments hactivation.inside
    · exact runs_throw trivial

/-- **Calls.** -/
theorem runs_call (paren : Token) {f : Value} (hf : f.Inside scopes) {arguments : List Value}
    (harguments : ∀ v ∈ arguments, v.Inside scopes) :
    RunsValue scopes (call host d paren f arguments)
      (call host.untraced d' paren f.unwrap (arguments.map Value.unwrap)) := by
  refine runs_get_bind fun m => ?_
  change RunsValue scopes (if m.rest.frames = maxFrames then _ else _)
    (if m.rest.frames = maxFrames then _ else _)
  split
  · exact runs_throw trivial
  · exact runs_inFrame (runs_located (runs_invoke hd hf harguments) paren.line)

end Calls

/-! ### Expressions -/

/-- **Operators** give literals. -/
theorem runs_applied (line : Int) {result : Except Cause Value}
    (hliteral : ∀ v, result = .ok v → ∃ l, v = .literal l) :
    RunsValue scopes (Exec.orFail line result) (Exec.orFail line result) := by
  cases result with
  | error cause => exact runs_throw trivial
  | ok v =>
    obtain ⟨l, rfl⟩ := hliteral v rfl
    exact runs_pure_literal l

section Nodes

variable (hd : ∀ cost, Evaluators (d cost) (d' cost)) (hscope : scope.Inside scopes)

include hd hscope

/-- **Expressions.** -/
theorem runs_evaluateStep (e : Expr) :
    RunsValue scopes (evaluateStep host d e scope)
      (evaluateStep host.untraced d' e scope.unwrap) := by
  -- the scopes that a part adds are behind all others, so that whatever was inside before still is
  cases e with
  | literal l => exact runs_pure_literal l
  | grouping inner => exact (hd 1).evaluate inner hscope
  | «variable» name => exact runs_read hscope name
  | assign name value =>
    exact runs_bind ((hd 1).evaluate value hscope) fun _ v hle hv =>
      runs_write (hscope.mono hle) name hv
  | logical left operator right =>
    refine runs_bind ((hd 1).evaluate left hscope) fun _ v hle hv => ?_
    rw [v.resembles_unwrap.isTruthy_eq]
    split
    · exact runs_pure fun _ hmore => hv.mono hmore
    · exact (hd 1).evaluate right (hscope.mono hle)
  | unary operator right =>
    refine runs_bind ((hd 1).evaluate right hscope) fun _ v _ _ => ?_
    -- operators do not look at what a function captures
    rw [v.resembles_unwrap.applyUnary_eq]
    exact runs_applied operator.line fun _ => applyUnary_literal
  | binary left operator right =>
    refine runs_bind ((hd 1).evaluate left hscope) fun _ v hle _ => ?_
    refine runs_bind ((hd 1).evaluate right (hscope.mono hle)) fun _ w _ _ => ?_
    rw [v.resembles_unwrap.applyBinary_eq w.resembles_unwrap]
    exact runs_applied operator.line fun _ => applyBinary_literal
  | call callee paren arguments =>
    refine runs_bind ((hd 1).evaluate callee hscope) fun _ f hle hf => ?_
    exact runs_bind (runs_evaluateAll (hscope.mono hle) (hd 2) arguments) fun _ vs hle' hvs =>
      runs_call hd paren (hf.mono hle') hvs
  | foreign description => exact runs_throw trivial

/-! ### Loops -/

section ForLoop

variable (start : Option Stmt) (condition update : Option Expr) (body : Stmt)

/-- **A pass of a loop.** Its scope is below that of the block, as is the one of the next pass. -/
theorem runs_pass (fresh : Bool) {current : ScopeId} (hcurrent : current.Below scopes) :
    Runs scopes (Turn.map ScopeId.unwrap id)
      (fun n turn => turn.Says (fun b n => b.Below n) (fun _ _ => True) n)
      ((forLoop host d start condition update body).pass scope fresh current)
      ((forLoop host.untraced d' start condition update body).pass scope.unwrap fresh
        current.unwrap) := by
  -- the condition has the same truth, because values resemble each other
  have hgoesOn : RunsSame scopes ((forLoop host d start condition update body).goesOn current)
      ((forLoop host.untraced d' start condition update body).goesOn current.unwrap) := by
    cases condition with
    | none => exact runs_pure_same true
    | some e =>
      refine runs_bind ((hd 4).evaluate e hcurrent.inside) fun _ v _ _ => ?_
      rw [v.resembles_unwrap.isTruthy_eq]
      exact runs_pure_same v.isTruthy
  have hupdate : ∀ {more : Nat} {following : ScopeId}, following.Below more → RunsSame more
      (ForLoop.clause (forLoop host d start condition update body).update following)
      (ForLoop.clause (forLoop host.untraced d' start condition update body).update
        following.unwrap) := by
    intro more following hfollowing
    cases update with
    | none => exact runs_pure_same ()
    | some e =>
      exact runs_bind ((hd 4).evaluate e hfollowing.inside) fun _ _ _ _ => runs_pure_same ()
  -- a copy is made below the block on one side and below the global scope on the other
  have hadvance : ∀ {more : Nat}, scopes ≤ more → RunsScope more
      ((forLoop host d start condition update body).advance scope fresh current)
      ((forLoop host.untraced d' start condition update body).advance scope.unwrap fresh
        current.unwrap) := by
    intro more hle
    cases fresh with
    | false => exact runs_pure fun _ hmore => hcurrent.mono (Nat.le_trans hle hmore)
    | true =>
      refine runs_bind (runs_nextIteration (hscope.mono hle) (hcurrent.mono hle))
        fun _ following _ hfollowing => ?_
      refine runs_bind (runs_reports (reports_emitContents host following)) fun _ _ hle' _ => ?_
      exact runs_pure fun _ hmore => hfollowing.mono (Nat.le_trans hle' hmore)
  -- what one part has left, the next one begins with
  refine runs_bind hgoesOn fun _ goesOn hle _ => ?_
  cases goesOn with
  | false => exact runs_pure fun _ _ => trivial
  | true =>
    refine runs_bind ((hd 4).execute body (hcurrent.mono hle).inside) fun _ _ hle' _ => ?_
    refine runs_bind (hadvance (Nat.le_trans hle hle')) fun _ following _ hfollowing => ?_
    refine runs_bind (hupdate hfollowing) fun _ _ hle'' _ => ?_
    exact runs_pure fun _ hmore => hfollowing.mono (Nat.le_trans hle'' hmore)

/-- **For statements.** -/
theorem runs_forStatement :
    RunsSame scopes ((forLoop host d start condition update body).run .unfinished host.passes scope)
      ((forLoop host.untraced d' start condition update body).run .unfinished host.passes
        scope.unwrap) := by
  have hstart : ∀ {more : Nat} {first : ScopeId}, first.Below more → RunsSame more
      (ForLoop.clause (forLoop host d start condition update body).start first)
      (ForLoop.clause (forLoop host.untraced d' start condition update body).start
        first.unwrap) := by
    intro more first hfirst
    cases start with
    | none => exact runs_pure_same ()
    | some s => exact (hd 4).execute s hfirst.inside
  refine runs_bind (runs_newScope hscope) fun _ first hle hfirst => ?_
  refine runs_bind (hstart hfirst) fun _ _ hle' _ => ?_
  -- below the scope of the block, a scope has the same names
  have hstore : ∀ more, first.Below more → Runs more Store.unwrap
      (fun _ s => s.unwrap.bindings first.unwrap = s.bindings first) Action.store Action.store :=
    fun _ hfirst _ hm => ⟨rfl, hm, hm.store.bindings_unwrap_of_below hfirst.1⟩
  refine runs_bind (hstore _ (hfirst.mono hle')) fun _ s hle'' hs => ?_
  rw [hs]
  refine runs_iterate ScopeId.unwrap (fun n current => current.Below n)
    (fun more current hmore hcurrent => ?_) host.passes
    fun _ hmore => hfirst.mono (Nat.le_trans hle' (Nat.le_trans hle'' hmore))
  have hlater := hscope.mono (Nat.le_trans hle (Nat.le_trans hle' (Nat.le_trans hle'' hmore)))
  exact runs_pass hd hlater start condition update body _ hcurrent

end ForLoop

/-! ### Statements -/

/-- **Statements.** -/
theorem runs_executeStep (s : Stmt) :
    RunsSame scopes (executeStep host d s scope) (executeStep host.untraced d' s scope.unwrap) := by
  cases s with
  | expression value =>
    exact runs_bind ((hd 1).evaluate value hscope) fun _ _ _ _ => runs_pure_same ()
  | print value =>
    refine runs_bind ((hd 1).evaluate value hscope) fun _ v _ _ => ?_
    rw [v.resembles_unwrap.display_eq]
    exact runs_print v.display
  | «variable» name initial const =>
    exact runs_bind (runs_evaluateOption hscope (hd 1) initial) fun _ v hle hv =>
      runs_declare (hscope.mono hle) host name.lexeme hv const
  | block body =>
    exact runs_bind (runs_newScope hscope) fun _ inner _ hinner =>
      -- the scope of a block is inside because the one around it is
      runs_executeAll hinner.inside (hd 2) body
  | conditional condition yes no =>
    refine runs_bind ((hd 1).evaluate condition hscope) fun _ v hle _ => ?_
    rw [v.resembles_unwrap.isTruthy_eq]
    split
    · exact (hd 1).execute yes (hscope.mono hle)
    · cases no with
      | none => exact runs_pure_same ()
      | some no => exact (hd 1).execute no (hscope.mono hle)
  | whileLoop condition body =>
    -- nothing has to be kept from pass to pass, as the scopes only become more
    refine runs_iterate id (fun _ _ => True) (fun _ _ hle _ => ?_) host.passes fun _ _ => trivial
    refine runs_bind ((hd 1).evaluate condition (hscope.mono hle)) fun _ v hle' _ => ?_
    rw [v.resembles_unwrap.isTruthy_eq]
    split
    · exact runs_bind ((hd 1).execute body (hscope.mono (Nat.le_trans hle hle'))) fun _ _ _ _ =>
        runs_pure fun _ _ => trivial
    · exact runs_pure fun _ _ => trivial
  | forLoop start condition update body =>
    exact runs_forStatement hd hscope start condition update body
  | function name parameters body =>
    exact runs_bind (runs_newClosure hscope name.lexeme (parameters.map (·.lexeme)) body)
      fun _ f hle hf => runs_declare (hscope.mono hle) host name.lexeme (v := .closure f) hf false
  | returning keyword value =>
    exact runs_bind (runs_evaluateOption hscope (hd 1) value) fun _ v _ hv =>
      runs_throw (e := .returning v) hv
  | foreign description => exact runs_throw trivial

end Nodes

/-! ### Evaluators -/

theorem evaluators_full : Evaluators .full .full where
  evaluate _ _ := runs_throw trivial
  execute _ _ := runs_throw trivial

/-- **The evaluators in the same room.** -/
theorem evaluators_recurse (host : Host) (room cost : Nat) :
    Evaluators (recurse .full (Evaluator.step host) room cost)
      (recurse .full (Evaluator.step host.untraced) room cost) :=
  recurse_induction₂ evaluators_full
    (fun _ _ hd => ⟨fun e hscope => runs_evaluateStep hd hscope e,
      fun s hscope => runs_executeStep hd hscope s⟩) room cost

end Enclosure

end Lox
