import Lox.Proofs.Renaming.Session

/-!
# Evaluation does not see what names are called

A renamed node, run in a renamed session, does what the node itself does. Names are looked at only
where a variable is read, written or declared, and there a renamed store gives the same answer; the
name of a function is also printed, so that declarations of functions must keep theirs.

* `Renaming.Evaluators` — evaluators that do the same with everything renamed;
* `Renaming.runs_call`, `Renaming.runs_forStatement` — calls and loops;
* `Renaming.runs_evaluateStep`, `Renaming.runs_executeStep` — expressions and statements;
* `Renaming.evaluators_recurse` — the evaluators in the same room.
-/

namespace Lox

namespace Renaming

/-- **Evaluators that do the same** with everything renamed. -/
structure Evaluators (ρ : Renaming) (ev ev' : Evaluator) : Prop where
  evaluate : ∀ e scope, ρ.RunsValue (ev.evaluate e scope) (ev'.evaluate (e.rename ρ) scope)
  execute : ∀ s scope, ρ.Fixes s → ρ.RunsSame (ev.execute s scope) (ev'.execute (s.rename ρ) scope)

variable {ρ : Renaming} {host : Host} {d d' : Nat → Evaluator}

/-! ### Several parts -/

theorem runs_evaluateAll {act act' : Expr → Exec Value}
    (h : ∀ e, ρ.RunsValue (act e) (act' (e.rename ρ))) (es : List Expr) :
    ρ.Runs (List.map (Value.rename ρ)) (fun vs => ∀ v ∈ vs, ρ.FixesValue v) (evaluateAll act es)
      (evaluateAll act' (Expr.renameAll ρ es)) := by
  induction es with
  | nil => exact runs_pure (by simp)
  | cons e es ih =>
    exact runs_bind (h e) fun v hv => runs_bind ih fun vs hvs =>
      runs_pure (List.forall_mem_cons.2 ⟨hv, hvs⟩)

theorem runs_executeAll {act act' : Stmt → Exec Unit}
    (h : ∀ s, ρ.Fixes s → ρ.RunsSame (act s) (act' (s.rename ρ))) {ss : List Stmt}
    (hss : ρ.FixesAll ss) :
    ρ.RunsSame (executeAll act ss) (executeAll act' (Stmt.renameAll ρ ss)) := by
  induction ss with
  | nil => exact runs_pure trivial
  | cons s ss ih =>
    obtain ⟨hs, hss⟩ := fixesAll_cons.1 hss
    exact runs_bind (h s hs) fun _ _ => ih hss

theorem runs_evaluateOption {act act' : Expr → Exec Value}
    (h : ∀ e, ρ.RunsValue (act e) (act' (e.rename ρ))) (e : Option Expr) :
    ρ.RunsValue (evaluateOption act e) (evaluateOption act' (e.map (Expr.rename ρ))) := by
  cases e with
  | none => exact runs_pure trivial
  | some e => exact h e

/-! ### Calls -/

/-- **The body of a function.** -/
theorem runs_body (hd : ∀ cost, ρ.Evaluators (d cost) (d' cost)) {f : Closure}
    (hf : ρ.FixesAll f.body) (arguments : List Value) (activation : ScopeId) :
    ρ.RunsValue ((callHooks host d).body f arguments activation)
      ((callHooks host.untraced d').body (f.rename ρ) (arguments.map (Value.rename ρ))
        activation) := by
  have hall : ρ.RunsSame (executeAll (fun s => (d 4).execute s activation) f.body)
      (executeAll (fun s => (d' 4).execute s activation) (Stmt.renameAll ρ f.body)) :=
    runs_executeAll (fun s hs => (hd 4).execute s activation hs) hf
  have hvalue := runs_valueOf hall
  rw [callHooks_body]
  refine runs_reports_bind (reports_emit host _) ?_
  split
  · exact runs_reports_bind (reports_forM (fun _ => reports_emit host _) _) hvalue
  · exact hvalue

/-- **Calls of values.** The number of parameters is what it was, duplicates counted. -/
theorem runs_invoke (hd : ∀ cost, ρ.Evaluators (d cost) (d' cost)) {f : Value}
    (hf : ρ.FixesValue f) {arguments : List Value} (harguments : ∀ v ∈ arguments, ρ.FixesValue v) :
    ρ.RunsValue (invoke (callHooks host d) f arguments)
      (invoke (callHooks host.untraced d') (f.rename ρ) (arguments.map (Value.rename ρ))) := by
  have hlength : (arguments.map (Value.rename ρ)).length = arguments.length := List.length_map _
  cases f with
  | literal l => exact runs_throw trivial
  | native g =>
    change ρ.RunsValue (if (arguments.length : Int) = g.arity then _ else throw _)
      (if ((arguments.map (Value.rename ρ)).length : Int) = g.arity then _
        else throw (.failed ⟨.arityMismatch g.name g.arity (arguments.map (Value.rename ρ)).length,
          none⟩))
    -- how many arguments there are does not depend on the names in them
    rw [hlength]
    split
    · exact runs_bind (runs_emit host _ _) fun _ _ => runs_readClock host
    · exact runs_throw trivial
  | closure g =>
    change ρ.RunsValue (if arguments.length = g.arity then _ else throw _)
      (if (arguments.map (Value.rename ρ)).length = (g.rename ρ).arity then _
        else throw (.failed ⟨.arityMismatch g.name (g.rename ρ).arity
          (arguments.map (Value.rename ρ)).length, none⟩))
    rw [hlength, Closure.arity_rename]
    split
    · exact runs_bind (runs_activate g harguments) fun activation _ =>
        runs_body hd hf arguments activation
    · exact runs_throw trivial

/-- **Calls.** -/
theorem runs_call (hd : ∀ cost, ρ.Evaluators (d cost) (d' cost)) (paren : Token) {f : Value}
    (hf : ρ.FixesValue f) {arguments : List Value} (harguments : ∀ v ∈ arguments, ρ.FixesValue v) :
    ρ.RunsValue (call host d paren f arguments)
      (call host.untraced d' paren (f.rename ρ) (arguments.map (Value.rename ρ))) := by
  refine runs_get_bind fun m => ?_
  change ρ.RunsValue (if m.rest.frames = maxFrames then _ else _)
    (if m.rest.frames = maxFrames then _ else _)
  split
  · exact runs_throw trivial
  · exact runs_inFrame (runs_located (runs_invoke hd hf harguments) paren.line)

/-! ### Expressions -/

/-- **Operators.** They give literals, and no operator fails for a reason that is about a name. -/
theorem runs_applied (line : Int) {result : Except Cause Value}
    (hliteral : ∀ v, result = .ok v → ∃ l, v = .literal l)
    (hcause : result.mapError (Cause.rename ρ) = result) :
    ρ.RunsValue (Exec.orFail line result) (Exec.orFail line result) := by
  have hresult : (result.map (Value.rename ρ)).mapError (Cause.rename ρ) = result := by
    cases result with
    | ok v => exact congrArg Except.ok (Value.rename_of_literal ρ (hliteral v rfl))
    | error cause => exact hcause
  have hruns : ρ.RunsValue (Exec.orFail line result)
      (Exec.orFail line ((result.map (Value.rename ρ)).mapError (Cause.rename ρ))) :=
    runs_orFail line fun v hv => fixesValue_of_literal (hliteral v hv)
  rwa [hresult] at hruns

theorem runs_unary (operator : Token) (v : Value) :
    ρ.RunsValue (Exec.orFail operator.line (applyUnary operator.kind v))
      (Exec.orFail operator.line (applyUnary operator.kind (v.rename ρ))) := by
  rw [applyUnary_rename]
  refine runs_applied operator.line (fun _ => applyUnary_literal) ?_
  unfold applyUnary
  split <;> rfl

theorem runs_binary (operator : Token) (v w : Value) :
    ρ.RunsValue (Exec.orFail operator.line (applyBinary operator.kind v w))
      (Exec.orFail operator.line (applyBinary operator.kind (v.rename ρ) (w.rename ρ))) := by
  rw [applyBinary_rename]
  refine runs_applied operator.line (fun _ => applyBinary_literal) ?_
  unfold applyBinary
  split
  · rfl
  · rfl
  · split <;> rfl
  · split
    · unfold applyArithmetic
      split <;> rfl
    · rfl

/-- **Expressions.** -/
theorem runs_evaluateStep (hd : ∀ cost, ρ.Evaluators (d cost) (d' cost)) (e : Expr)
    (scope : ScopeId) :
    ρ.RunsValue (evaluateStep host d e scope)
      (evaluateStep host.untraced d' (e.rename ρ) scope) := by
  cases e with
  | literal l => exact runs_pure trivial
  | grouping inner => exact (hd 1).evaluate inner scope
  | «variable» name => exact runs_read scope name
  | assign name value =>
    exact runs_bind ((hd 1).evaluate value scope) fun v hv => runs_write scope name hv
  | logical left operator right =>
    refine runs_bind ((hd 1).evaluate left scope) fun v hv => ?_
    rw [Value.isTruthy_rename]
    split
    · exact runs_pure hv
    · exact (hd 1).evaluate right scope
  | unary operator right =>
    exact runs_bind ((hd 1).evaluate right scope) fun v _ => runs_unary operator v
  | binary left operator right =>
    exact runs_bind ((hd 1).evaluate left scope) fun v _ =>
      runs_bind ((hd 1).evaluate right scope) fun w _ => runs_binary operator v w
  | call callee paren arguments =>
    rw [Expr.rename, evaluateStep_call, evaluateStep_call]
    exact runs_bind ((hd 1).evaluate callee scope) fun f hf =>
      runs_bind (runs_evaluateAll (fun e => (hd 2).evaluate e scope) arguments) fun vs hvs =>
        runs_call hd paren hf hvs
  | foreign description => exact runs_throw trivial

/-! ### Loops -/

section ForLoop

variable (hd : ∀ cost, ρ.Evaluators (d cost) (d' cost)) {start : Option Stmt}
  (hstart : ∀ s ∈ start, ρ.Fixes s) (condition update : Option Expr) {body : Stmt}
  (hbody : ρ.Fixes body) (scope : ScopeId)

/-- **The clauses of a for statement,** renamed. -/
def forLoop (ρ : Renaming) (host : Host) (d : Nat → Evaluator) (start : Option Stmt)
    (condition update : Option Expr) (body : Stmt) : ForLoop Console Interrupt :=
  Lox.forLoop host.untraced d (start.map (Stmt.rename ρ)) (condition.map (Expr.rename ρ))
    (update.map (Expr.rename ρ)) (body.rename ρ)

include hd

include hstart hbody in
/-- **For statements.** A later pass gets its variables under their new names. -/
theorem runs_forStatement :
    ρ.RunsSame
      ((Lox.forLoop host d start condition update body).run .unfinished host.passes scope)
      ((ρ.forLoop host d' start condition update body).run .unfinished host.passes scope) := by
  -- the loop does the same with related clauses, so that these are all there is to compare
  have hrelated : (Lox.forLoop host d start condition update body).Related
      (fun _ act act' => ρ.RunsSame act act') scope
      (ρ.forLoop host d' start condition update body) := by
    constructor
    case opened => exact runs_newScope (some scope)
    case declares => exact runs_declares
    case body => exact fun current => (hd 4).execute body current hbody
    case following => exact runs_nextIteration scope
    case copied => exact fun following => runs_reports (reports_emitContents host following)
    case start =>
      intro first
      cases start with
      | none => exact runs_pure trivial
      | some s => exact (hd 4).execute s first (hstart s rfl)
    case goesOn =>
      intro current
      cases condition with
      | none => exact runs_pure trivial
      | some e =>
        refine runs_bind ((hd 4).evaluate e current) fun v _ => ?_
        -- one pass more on both sides or on neither
        rw [Value.isTruthy_rename]
        exact runs_pure trivial
    case update =>
      intro following
      cases update with
      | none => exact runs_pure trivial
      | some e => exact runs_bind ((hd 4).evaluate e following) fun _ _ => runs_pure trivial
  exact composes_runsSame.run hrelated (runs_throw (e := .unfinished) trivial) host.passes

end ForLoop

/-! ### Statements -/

/-- **Statements.** -/
theorem runs_executeStep (hd : ∀ cost, ρ.Evaluators (d cost) (d' cost)) {s : Stmt} (hs : ρ.Fixes s)
    (scope : ScopeId) :
    ρ.RunsSame (executeStep host d s scope) (executeStep host.untraced d' (s.rename ρ) scope) := by
  cases s with
  | expression value => exact runs_bind ((hd 1).evaluate value scope) fun _ _ => runs_pure trivial
  | print value =>
    refine runs_bind ((hd 1).evaluate value scope) fun v _ => ?_
    -- what is printed does not tell the names apart, because functions keep theirs
    rw [Value.display_rename]
    exact runs_print v.display
  | «variable» name initial const =>
    exact runs_bind (runs_evaluateOption (fun e => (hd 1).evaluate e scope) initial) fun v hv =>
      runs_declare host scope name.lexeme hv const
  | block body =>
    rw [Stmt.rename, executeStep_block, executeStep_block]
    exact runs_bind (runs_newScope (some scope)) fun inner _ =>
      runs_executeAll (fun s hs => (hd 2).execute s inner hs) (fixes_block.1 hs)
  | conditional condition yes no =>
    obtain ⟨hyes, hno⟩ := fixes_conditional.1 hs
    rw [Stmt.rename_conditional]
    refine runs_bind ((hd 1).evaluate condition scope) fun v _ => ?_
    -- the same branch is taken
    rw [Value.isTruthy_rename]
    split
    · exact (hd 1).execute yes scope hyes
    · cases no with
      | none => exact runs_pure trivial
      | some no => exact (hd 1).execute no scope (hno no rfl)
  | whileLoop condition body =>
    refine composes_runsSame.iterate (runs_throw (e := .unfinished) trivial) (fun _ => ?_)
      host.passes ()
    refine runs_bind ((hd 1).evaluate condition scope) fun v _ => ?_
    rw [Value.isTruthy_rename]
    split
    · exact runs_bind ((hd 1).execute body scope (fixes_whileLoop.1 hs)) fun _ _ =>
        runs_pure trivial
    · exact runs_pure trivial
  | forLoop start condition update body =>
    obtain ⟨hstart, hbody⟩ := fixes_forLoop.1 hs
    rw [Stmt.rename_forLoop]
    exact runs_forStatement hd hstart condition update hbody scope
  | function name parameters body =>
    obtain ⟨hname, hbody⟩ := fixes_function.1 hs
    have hparameters : (parameters.map (Token.rename ρ)).map (·.lexeme) =
        (parameters.map (·.lexeme)).map ρ.name := by
      rw [List.map_map, List.map_map]
      rfl
    rw [Stmt.rename]
    -- the closure is given the name of the function, which is one that stays
    change ρ.RunsSame _ (do
      let f ← Action.onStore (·.newClosure (ρ.name name.lexeme)
        ((parameters.map (Token.rename ρ)).map (·.lexeme)) (Stmt.renameAll ρ body) scope)
      Exec.declare host.untraced scope (ρ.name name.lexeme) (.closure f) false)
    rw [hparameters]
    exact runs_bind (runs_newClosure hname _ hbody scope) fun f hf =>
      runs_declare host scope name.lexeme (v := .closure f) hf false
  | returning keyword value =>
    exact runs_bind (runs_evaluateOption (fun e => (hd 1).evaluate e scope) value)
      fun v hv => runs_throw hv
  | foreign description => exact runs_throw trivial

/-! ### Evaluators -/

theorem evaluators_full : ρ.Evaluators .full .full where
  evaluate _ _ := runs_throw trivial
  execute _ _ _ := runs_throw trivial

/-- **The evaluators in the same room.** -/
theorem evaluators_recurse (host : Host) (room cost : Nat) :
    ρ.Evaluators (recurse .full (Evaluator.step host) room cost)
      (recurse .full (Evaluator.step host.untraced) room cost) :=
  recurse_induction₂ evaluators_full
    (fun _ _ hd => ⟨runs_evaluateStep hd, fun _ scope hs => runs_executeStep hd hs scope⟩) room cost

end Renaming

end Lox
