import Lox.Proofs.Relocation.Session

/-!
# Evaluation does not see where tokens are

A relocated node, run in a relocated session, does what the node itself does: it has the relocated
value, or it fails for the same reason, on the line to which that of the failure is moved.

* `Relocation.Evaluators` — evaluators that do the same with everything relocated;
* `Relocation.moves_call`, `Relocation.moves_forStatement` — calls and loops;
* `Relocation.moves_evaluateStep`, `Relocation.moves_executeStep` — expressions and statements;
* `Relocation.evaluators_evaluator` — the evaluators in the same room.
-/

namespace Lox

namespace Relocation

open Monitor

variable {r : Relocation} {α : Type}

/-- **Evaluators that do the same** with everything relocated. -/
structure Evaluators (r : Relocation) (ev ev' : Monitor.Evaluator) : Prop where
  evaluate : ∀ chunk e scope,
    r.Moves r.value (ev.evaluate chunk e scope) (ev'.evaluate chunk (e.relocate r.move) scope)
  execute : ∀ chunk s scope,
    r.Moves id (ev.execute chunk s scope) (ev'.execute chunk (s.relocate r.move) scope)

variable {host : Host} {d d' : Nat → Monitor.Evaluator}

@[simp] theorem isTruthy_value (r : Relocation) (v : Value) : (r.value v).isTruthy = v.isTruthy :=
  Value.isTruthy_relocate r.move v

section Lists

variable {ev ev' : Monitor.Evaluator} (h : r.Evaluators ev ev') (chunk : Nat) (scope : ScopeId)

include h

theorem moves_evaluateAll (es : List Expr) :
    r.Moves (List.map r.value)
      (Steps.evaluateAll scribe.next (fun p e => ev.evaluate p e scope) chunk es)
      (Steps.evaluateAll scribe.next (fun p e => ev'.evaluate p e scope) chunk
        (Expr.relocateAll r.move es)) := by
  induction es with
  | nil => exact carries_pure _
  | cons e es ih =>
    exact carries_bind (h.evaluate chunk e scope) fun _ => carries_bind ih fun _ => carries_pure _

theorem moves_executeAll (ss : List Stmt) :
    r.Moves id (Steps.executeAll scribe.next (fun p s => ev.execute p s scope) chunk ss)
      (Steps.executeAll scribe.next (fun p s => ev'.execute p s scope) chunk
        (Stmt.relocateAll r.move ss)) := by
  induction ss with
  | nil => exact carries_pure _
  | cons s ss ih => exact carries_bind (h.execute chunk s scope) fun _ => ih

theorem moves_evaluateOption (e : Option Expr) :
    r.Moves r.value (Steps.evaluateOption (fun e => ev.evaluate chunk e scope) e)
      (Steps.evaluateOption (fun e => ev'.evaluate chunk e scope)
        (e.map (Expr.relocate r.move))) := by
  cases e with
  | none => exact carries_pure _
  | some e => exact h.evaluate chunk e scope

end Lists

/-! ### Calls -/

/-- **The body of a function.** It is known by its identity in which input the function was made. -/
theorem moves_body (hd : ∀ cost, r.Evaluators (d cost) (d' cost)) (f : Closure)
    (arguments : List Value) (activation : ScopeId) :
    r.Moves r.value (((scribe.steps host).callHooks host d).body f arguments activation)
      (((scribe.steps host.untraced).callHooks host.untraced d').body (f.relocate r.move)
        (arguments.map r.value) activation) := by
  rw [Scribe.callHooks_body, Scribe.callHooks_body]
  refine moves_inBody (fun chunk => ?_) host f
  rw [opened_eq, opened_eq]
  have hvalue := moves_valueOf (moves_executeAll (hd 4) chunk activation f.body)
  refine carries_bind (moves_lift (shifts_reports (reports_emit host _))) fun _ => ?_
  split
  · exact moves_reports_bind (reports_forM (fun _ => reports_emit host _) _) hvalue
  · exact hvalue

/-- **A native function.** The call itself is an event, which is left out. -/
theorem shifts_native (f : Native) (arguments : List Value) :
    r.Shifts r.value ((Lox.callHooks host fun _ => .full).native f arguments)
      ((Lox.callHooks host.untraced fun _ => .full).native f (arguments.map r.value)) := by
  have hreports : r.Shifts id (Exec.emit host fun _ => .called (.native f) arguments)
      (Exec.emit host.untraced fun _ => .called (.native f) (arguments.map r.value)) :=
    shifts_reports (reports_emit host _)
  exact carries_bind hreports fun _ => shifts_readClock host

/-- **Calls of values.** -/
theorem moves_invoke (hd : ∀ cost, r.Evaluators (d cost) (d' cost)) (f : Value)
    (arguments : List Value) :
    r.Moves r.value (invoke ((scribe.steps host).callHooks host d) f arguments)
      (invoke ((scribe.steps host.untraced).callHooks host.untraced d') (r.value f)
        (arguments.map r.value)) := by
  have hlength : (arguments.map r.value).length = arguments.length := List.length_map _
  cases f with
  | literal l => exact carries_throw _
  | native g =>
    change r.Moves r.value (if (arguments.length : Int) = g.arity then _ else throw _)
      (if ((arguments.map r.value).length : Int) = g.arity then _
        else throw (.failed ⟨.arityMismatch g.name g.arity (arguments.map r.value).length, none⟩))
    -- how many arguments there are does not depend on where their tokens stand
    rw [hlength]
    split
    · exact moves_lift (shifts_native g arguments)
    · exact carries_throw _
  | closure g =>
    change r.Moves r.value (if arguments.length = g.arity then _ else throw _)
      (if (arguments.map r.value).length = g.arity then _
        else throw (.failed ⟨.arityMismatch g.name g.arity (arguments.map r.value).length, none⟩))
    rw [hlength]
    split
    · exact carries_bind (moves_activate g arguments) fun activation =>
        moves_body hd g arguments activation
    · exact carries_throw _

/-- **Calls.** -/
theorem moves_call (hd : ∀ cost, r.Evaluators (d cost) (d' cost)) (paren : Token) (f : Value)
    (arguments : List Value) :
    r.Moves r.value ((scribe.steps host).call host d paren f arguments)
      ((scribe.steps host.untraced).call host.untraced d' (r.move paren) (r.value f)
        (arguments.map r.value)) := by
  refine carries_bind (moves_lift shifts_frames) fun frames => ?_
  change r.Moves _ (if frames = maxFrames then _ else _) (if frames = maxFrames then _ else _)
  split
  · rw [r.line_eq]
    exact moves_lift (shifts_fail .callDepthExceeded (some paren.line))
  · exact moves_inCall (moves_located (moves_invoke hd f arguments) paren) paren

/-! ### Expressions -/

theorem shifts_unary (operator : Token) (v : Value) :
    r.Shifts r.value (Exec.orFail operator.line (applyUnary operator.kind v))
      (Exec.orFail (r.move operator).line (applyUnary (r.move operator).kind (r.value v))) := by
  have hresult : applyUnary (r.move operator).kind (r.value v) =
      (applyUnary operator.kind v).map r.value := by
    change applyUnary (r.move operator).kind (Value.relocate r.move v) = _
    rw [r.kind_eq, applyUnary_relocate]
    cases h : applyUnary operator.kind v with
    | ok w => exact congrArg Except.ok (Value.relocate_of_literal r.move (applyUnary_literal h)).symm
    | error cause => rfl
  rw [hresult]
  exact shifts_orFail operator _

theorem shifts_binary (operator : Token) (v w : Value) :
    r.Shifts r.value (Exec.orFail operator.line (applyBinary operator.kind v w))
      (Exec.orFail (r.move operator).line
        (applyBinary (r.move operator).kind (r.value v) (r.value w))) := by
  have hresult : applyBinary (r.move operator).kind (r.value v) (r.value w) =
      (applyBinary operator.kind v w).map r.value := by
    change applyBinary (r.move operator).kind (Value.relocate r.move v) (Value.relocate r.move w) = _
    rw [r.kind_eq, applyBinary_relocate]
    cases h : applyBinary operator.kind v w with
    | ok u => exact congrArg Except.ok (Value.relocate_of_literal r.move (applyBinary_literal h)).symm
    | error cause => rfl
  rw [hresult]
  exact shifts_orFail operator _

/-- **Expressions.** -/
theorem moves_evaluateStep (hd : ∀ cost, r.Evaluators (d cost) (d' cost)) (chunk : Nat) (e : Expr)
    (scope : ScopeId) :
    r.Moves r.value (((scribe.steps host).step host d).evaluate chunk e scope)
      (((scribe.steps host.untraced).step host.untraced d').evaluate chunk (e.relocate r.move)
        scope) := by
  -- the notes that the node takes are those of its relocated form, so that the rest is left
  refine moves_within ?_ chunk (.expr e) scope
  cases e with
  | literal l => exact carries_pure _
  | grouping inner => exact (hd 1).evaluate chunk inner scope
  | «variable» name => exact moves_lift (shifts_read scope name)
  | assign name value =>
    refine carries_bind ((hd 1).evaluate chunk value scope) fun v => ?_
    rw [write_eq, write_eq]
    exact moves_lift (shifts_write scope name v)
  | logical left operator right =>
    refine carries_bind ((hd 1).evaluate chunk left scope) fun v => ?_
    -- the same branch is taken, because truth does not depend on where a value is written
    rw [r.kind_eq, isTruthy_value]
    split
    · exact carries_pure v
    · exact (hd 1).evaluate chunk right scope
  | unary operator right =>
    exact carries_bind ((hd 1).evaluate chunk right scope) fun v =>
      moves_lift (shifts_unary operator v)
  | binary left operator right =>
    exact carries_bind ((hd 1).evaluate chunk left scope) fun v =>
      carries_bind ((hd 1).evaluate chunk right scope) fun w =>
        moves_lift (shifts_binary operator v w)
  | call callee paren arguments =>
    exact carries_bind ((hd 1).evaluate chunk callee scope) fun f =>
      carries_bind (moves_evaluateAll (hd 2) chunk scope arguments) fun vs =>
        moves_call hd paren f vs
  | foreign description => exact carries_throw _

/-! ### Loops -/

/-- **The clauses of a for statement,** relocated. -/
def forLoop (r : Relocation) (host : Host) (d : Nat → Monitor.Evaluator) (chunk : Nat)
    (start : Option Stmt) (condition update : Option Expr) (body : Stmt) :
    ForLoop (AnnotatedConsole Notes) Interrupt :=
  (scribe.steps host.untraced).forLoop host.untraced d chunk (start.map (Stmt.relocate r.move))
    (condition.map (Expr.relocate r.move)) (update.map (Expr.relocate r.move)) (body.relocate r.move)

section ForLoop

variable (hd : ∀ cost, r.Evaluators (d cost) (d' cost)) (chunk : Nat) (start : Option Stmt)
  (condition update : Option Expr) (body : Stmt) (scope : ScopeId)

include hd

/-- **For statements.** -/
theorem moves_forStatement :
    r.Moves id
      (((scribe.steps host).forLoop host d chunk start condition update body).run .unfinished
        host.passes scope)
      ((r.forLoop host d' chunk start condition update body).run .unfinished host.passes scope) := by
  -- the loop does the same with related clauses, so that these are all there is to compare
  have hrelated : ((scribe.steps host).forLoop host d chunk start condition update body).Related
      (fun _ act act' => r.Moves id act act') scope
      (r.forLoop host d' chunk start condition update body) := by
    constructor
    case opened => exact moves_newScope (some scope)
    case declares => exact moves_declares
    case body => exact fun current => (hd 4).execute chunk body current
    case following => exact moves_nextIteration scope
    case copied =>
      exact fun following => moves_lift (shifts_reports (reports_emitContents host following))
    case start =>
      intro first
      cases start with
      | none => exact carries_pure _
      | some s => exact (hd 4).execute chunk s first
    case goesOn =>
      intro current
      cases condition with
      | none => exact carries_pure _
      | some e =>
        refine carries_bind ((hd 4).evaluate chunk e current) fun v => ?_
        -- one pass more on both sides or on neither
        rw [isTruthy_value]
        exact carries_pure _
    case update =>
      intro following
      cases update with
      | none => exact carries_pure _
      | some e => exact carries_bind ((hd 4).evaluate chunk e following) fun v => carries_pure _
  exact composes_moves.run hrelated (carries_throw .unfinished) host.passes

end ForLoop

/-! ### Statements -/

/-- **Statements.** -/
theorem moves_executeStep (hd : ∀ cost, r.Evaluators (d cost) (d' cost)) (chunk : Nat) (s : Stmt)
    (scope : ScopeId) :
    r.Moves id (((scribe.steps host).step host d).execute chunk s scope)
      (((scribe.steps host.untraced).step host.untraced d').execute chunk (s.relocate r.move)
        scope) := by
  -- the notes that the node takes are those of its relocated form, so that the rest is left
  refine moves_within ?_ chunk (.stmt s) scope
  cases s with
  | expression value => exact carries_bind ((hd 1).evaluate chunk value scope) fun v => carries_pure _
  | print value =>
    refine carries_bind ((hd 1).evaluate chunk value scope) fun v => ?_
    -- what is printed names no line
    rw [show (r.value v).display = v.display from Value.display_relocate r.move v]
    exact moves_lift (shifts_print v.display)
  | «variable» name initial const =>
    refine carries_bind (moves_evaluateOption (hd 1) chunk scope initial) fun v => ?_
    rw [r.lexeme_eq, declare_eq, declare_eq]
    exact moves_lift (shifts_declare host scope name.lexeme v const)
  | block body =>
    exact carries_bind (moves_newScope (some scope)) fun inner =>
      moves_executeAll (hd 2) chunk inner body
  | conditional condition yes no =>
    rw [Stmt.relocate_conditional]
    refine carries_bind ((hd 1).evaluate chunk condition scope) fun v => ?_
    -- the same branch is taken
    rw [isTruthy_value]
    split
    · exact (hd 1).execute chunk yes scope
    · cases no with
      | none => exact carries_pure _
      | some no => exact (hd 1).execute chunk no scope
  | whileLoop condition body =>
    refine composes_moves.iterate (carries_throw .unfinished) (fun _ => ?_) host.passes ()
    refine carries_bind ((hd 1).evaluate chunk condition scope) fun v => ?_
    rw [isTruthy_value]
    split
    · exact carries_bind ((hd 1).execute chunk body scope) fun _ => carries_pure _
    · exact carries_pure _
  | forLoop start condition update body =>
    rw [Stmt.relocate_forLoop]
    exact moves_forStatement hd chunk start condition update body scope
  | function name parameters body =>
    have hparameters : (parameters.map r.move).map (·.lexeme) = parameters.map (·.lexeme) := by
      rw [List.map_map]
      exact List.map_congr_left fun t _ => r.lexeme_eq t
    rw [Stmt.relocate]
    -- the names are the same wherever they stand
    change r.Moves id _ (do
      let f ← Action.onStore (·.newClosure (r.move name).lexeme
        ((parameters.map r.move).map (·.lexeme)) (Stmt.relocateAll r.move body) scope)
      (scribe.steps host.untraced).made chunk f
        ((scribe.steps host.untraced).declare scope (r.move name).lexeme (.closure f) false))
    rw [hparameters, r.lexeme_eq]
    refine carries_bind (moves_newClosure name.lexeme _ body scope) fun f => ?_
    rw [declare_eq, declare_eq]
    exact moves_made (moves_lift (shifts_declare host scope name.lexeme (.closure f) false)) host
      chunk f
  | returning keyword value =>
    exact carries_bind (moves_evaluateOption (hd 1) chunk scope value) fun v => carries_throw _
  | foreign description => exact carries_throw _

/-! ### Evaluators -/

theorem evaluators_full (host : Host) :
    r.Evaluators (scribe.steps host).full (scribe.steps host.untraced).full where
  evaluate chunk e scope :=
    moves_within (moves_lift (shifts_fail .roomExhausted none)) chunk (.expr e) scope
  execute chunk s scope :=
    moves_within (moves_lift (shifts_fail .roomExhausted none)) chunk (.stmt s) scope

/-- **The evaluators in the same room.** -/
theorem evaluators_evaluator (host : Host) (room cost : Nat) :
    r.Evaluators (scribe.evaluator host room cost) (scribe.evaluator host.untraced room cost) :=
  recurse_induction₂ (evaluators_full host)
    (fun _ _ hd => ⟨moves_evaluateStep hd, moves_executeStep hd⟩) room cost

end Relocation

end Lox
