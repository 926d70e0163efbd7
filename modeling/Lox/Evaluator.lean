import Lox.Call
import Lox.Loop
import Lox.Operator
import Lox.Session

/-!
# Evaluation

What expressions and statements do in a scope. Either is described one step at a time, in terms of
the evaluator for their parts; `Evaluator.inRoom` ties the recursion.

A step is put together of smaller ones, which are left to the machine. That of a session does no more
than what the step is about. Another one may take notes of the same run beside it: it is told which
node is run at which place, and what becomes of scopes, names and functions.

Nesting is bounded. Every node in progress takes a unit of room; on the way to its parts a block or
a list of arguments takes one more, and a loop or the body of a call three more. Apart from that no
more than `maxFrames` calls are in progress at once.

* `Steps` — the small steps of a machine, `Steps.session` those of a session;
* `Steps.evaluateStep`, `Steps.call`, `Steps.executeStep` — expressions, calls and statements;
* `evaluateStep`, `call`, `executeStep` — the same in a session;
* `Evaluator.inRoom` — the evaluator of a session, tied together.
-/

namespace Lox

/-- The most calls in progress at once. -/
def maxFrames : Nat := 64

/-! ### Small steps -/

/-- **The small steps of a machine.** The places `π` are those of nodes. What a machine is given to
do around an action, it does before the action or behind it. -/
structure Steps (ω π : Type) where
  /-- The place of a part, by its number, -/
  part (p : π) (i : Nat) : π
  /-- and that of the next part. -/
  next (p : π) : π
  /-- What a session does in one of its own steps. -/
  lift {α : Type} (act : Exec α) : Action ω Interrupt α
  /-- What is done around an expression, -/
  expression (p : π) (e : Expr) (scope : ScopeId) (act : Action ω Interrupt Value) :
    Action ω Interrupt Value
  /-- a statement, -/
  statement (p : π) (s : Stmt) (scope : ScopeId) (act : Action ω Interrupt Unit) :
    Action ω Interrupt Unit
  /-- a call, -/
  inCall (paren : Token) (act : Action ω Interrupt Value) : Action ω Interrupt Value
  /-- and the body of a function, which is told the place where the function was made. -/
  inBody (f : Closure) (act : π → Action ω Interrupt Value) : Action ω Interrupt Value
  /-- The first clause of the loop at a place. It is run in a scope that has been opened for it. -/
  first (p : π) (clause : Option (ScopeId → Action ω Interrupt Unit)) :
    Option (ScopeId → Action ω Interrupt Unit)
  /-- A scope has been opened for the node at a place, with some items declared in it. -/
  opened {α : Type} (p : π) (scope : ScopeId) (items : Store → List (String × Value × Bool))
    (act : Action ω Interrupt α) : Action ω Interrupt α
  /-- A function has been made at a place. -/
  made {α : Type} (p : π) (f : Closure) (act : Action ω Interrupt α) : Action ω Interrupt α
  /-- A declaration. -/
  declare (scope : ScopeId) (name : String) (value : Value) (const : Bool) :
    Action ω Interrupt Unit
  /-- An assignment. -/
  write (scope : ScopeId) (name : Token) (value : Value) : Action ω Interrupt Value

/-- **Evaluators** on a machine. They are told the place of what they run. -/
structure PlacedEvaluator (ω π : Type) where
  evaluate : π → Expr → ScopeId → Action ω Interrupt Value
  execute : π → Stmt → ScopeId → Action ω Interrupt Unit

namespace Steps

variable {ω π : Type}

/-- The values of several expressions, from left to right. -/
@[specialize] def evaluateAll (next : π → π) (evaluate : π → Expr → Action ω Interrupt Value) :
    π → List Expr → Action ω Interrupt (List Value)
  | _, [] => pure []
  | p, e :: es => do
    let v ← evaluate p e
    let vs ← evaluateAll next evaluate (next p) es
    return v :: vs

/-- The effects of several statements, one after the other. -/
@[specialize] def executeAll (next : π → π) (execute : π → Stmt → Action ω Interrupt Unit) :
    π → List Stmt → Action ω Interrupt Unit
  | _, [] => pure ()
  | p, s :: ss => do
    execute p s
    executeAll next execute (next p) ss

/-- The value of an expression that may be absent. -/
@[inline] def evaluateOption (evaluate : Expr → Action ω Interrupt Value) :
    Option Expr → Action ω Interrupt Value
  | none => pure .nil
  | some e => evaluate e

variable (steps : Steps ω π) (host : Host) (d : Nat → PlacedEvaluator ω π)

/-! ### Calls -/

/-- **What a call does.** The only native function of a session is its clock. -/
@[inline] def callHooks : CallHooks ω Interrupt where
  refuse cause := .failed ⟨cause, none⟩
  native f arguments := steps.lift do
    Exec.emit host fun _ => .called (.native f) arguments
    Exec.readClock host
  body f arguments activation := steps.inBody f fun p =>
    steps.opened p activation (fun _ => f.items arguments) do
      steps.lift (Exec.emit host fun _ => .called (.closure f) arguments)
      -- the activation has declared its parameters, one after the other
      if host.tracing then
        steps.lift ((f.parameters.zip arguments).forM fun (name, value) =>
          Exec.emit host fun _ => .declared name value)
      Exec.valueOf
        (executeAll steps.next (fun p s => (d 4).execute p s activation) (steps.part p 0) f.body)

/-- **Calls.** A call beyond the limit is refused before anything is invoked. Errors without a line
get that of the parenthesis. -/
@[inline] def call (paren : Token) (callee : Value) (arguments : List Value) :
    Action ω Interrupt Value := do
  -- calls made by the arguments are over by now and do not count
  if (← steps.lift Exec.frames) = maxFrames then
    steps.lift (Exec.fail .callDepthExceeded (some paren.line))
  else
    steps.inCall paren (Exec.located paren.line (invoke (steps.callHooks host d) callee arguments))

variable (p : π)

/-! ### Expressions -/

/-- **The value of an expression** at a place. -/
@[inline] def evaluateStep (e : Expr) (scope : ScopeId) : Action ω Interrupt Value :=
  match e with
  | .literal value => pure (.literal value)
  | .grouping inner => (d 1).evaluate (steps.part p 0) inner scope
  | .variable name => steps.lift (Exec.read scope name)
  | .assign name value => do
    let v ← (d 1).evaluate (steps.part p 0) value scope
    steps.write scope name v
  | .logical left operator right => do
    let v ← (d 1).evaluate (steps.part p 0) left scope
    -- the left operand decides: a truthy one for `or`, any other for `and`
    if v.isTruthy == (operator.kind == .orWord) then return v
    (d 1).evaluate (steps.part p 1) right scope
  | .unary operator right => do
    let v ← (d 1).evaluate (steps.part p 0) right scope
    steps.lift (Exec.orFail operator.line (applyUnary operator.kind v))
  | .binary left operator right => do
    let v ← (d 1).evaluate (steps.part p 0) left scope
    let w ← (d 1).evaluate (steps.part p 1) right scope
    steps.lift (Exec.orFail operator.line (applyBinary operator.kind v w))
  | .call callee paren arguments => do
    let f ← (d 1).evaluate (steps.part p 0) callee scope
    let vs ← evaluateAll steps.next (fun p e => (d 2).evaluate p e scope) (steps.part p 1) arguments
    steps.call host d paren f vs
  | .foreign description => throw (.misplaced (.expression description))

/-! ### Statements -/

/-- **The clauses of a for statement** as clauses of a loop. -/
@[inline] def forLoop (start : Option Stmt) (condition update : Option Expr) (body : Stmt) :
    ForLoop ω Interrupt where
  start := steps.first p (start.map fun s scope => (d 4).execute (steps.part p 0) s scope)
  condition := condition.map fun e scope => (d 4).evaluate (steps.part p 1) e scope
  update := update.map fun e scope => do let _ ← (d 4).evaluate (steps.part p 2) e scope
  body := fun scope => (d 4).execute (steps.part p 3) body scope
  copied := fun following => steps.opened p following (·.contents following)
    (steps.lift (Exec.emitContents host following))

/-- **The effect of a statement** at a place. -/
@[inline] def executeStep (s : Stmt) (scope : ScopeId) : Action ω Interrupt Unit :=
  match s with
  | .expression value => do
    let _ ← (d 1).evaluate (steps.part p 0) value scope
  | .print value => do
    let v ← (d 1).evaluate (steps.part p 0) value scope
    steps.lift (Exec.print v.display)
  | .variable name initial const => do
    let v ← evaluateOption (fun e => (d 1).evaluate (steps.part p 0) e scope) initial
    steps.declare scope name.lexeme v const
  | .block body => do
    let inner ← Action.onStore (·.newScope (some scope))
    steps.opened p inner (fun _ => [])
      (executeAll steps.next (fun p s => (d 2).execute p s inner) (steps.part p 0) body)
  | .conditional condition yes no => do
    let v ← (d 1).evaluate (steps.part p 0) condition scope
    if v.isTruthy then (d 1).execute (steps.part p 1) yes scope
    else match no with
      | none => pure ()
      | some no => (d 1).execute (steps.part p 2) no scope
  | .whileLoop condition body =>
    iterate .unfinished (fun () => do
      let v ← (d 1).evaluate (steps.part p 0) condition scope
      if v.isTruthy then
        (d 1).execute (steps.part p 1) body scope
        return .again ()
      return .done ()) host.passes ()
  | .forLoop start condition update body =>
    (steps.forLoop host d p start condition update body).run .unfinished host.passes scope
  | .function name parameters body => do
    -- the closure captures the scope itself, in which it is declared next
    let f ← Action.onStore (·.newClosure name.lexeme (parameters.map (·.lexeme)) body scope)
    steps.made p f (steps.declare scope name.lexeme (.closure f) false)
  | .returning _ value => do
    let v ← evaluateOption (fun e => (d 1).evaluate (steps.part p 0) e scope) value
    throw (.returning v)
  | .foreign description => throw (.misplaced (.statement description))

/-! ### Evaluators -/

/-- Without room everything fails. -/
def full : PlacedEvaluator ω π where
  evaluate p e scope := steps.expression p e scope (steps.lift (Exec.fail .roomExhausted none))
  execute p s scope := steps.statement p s scope (steps.lift (Exec.fail .roomExhausted none))

/-- The evaluator one step further up. -/
def step : PlacedEvaluator ω π where
  evaluate p e scope := steps.expression p e scope (steps.evaluateStep host d p e scope)
  execute p s scope := steps.statement p s scope (steps.executeStep host d p s scope)

end Steps

/-! ### Sessions -/

/-- **The small steps of a session.** It does not care about places, and takes no notes. -/
abbrev Steps.session (host : Host) : Steps Console Unit where
  part _ _ := ()
  next _ := ()
  lift act := act
  expression _ _ _ act := act
  statement _ _ _ act := act
  inCall _ act := Exec.inFrame act
  inBody _ act := act ()
  first _ clause := clause
  opened _ _ _ act := act
  made _ _ act := act
  declare := Exec.declare host
  write := Exec.write

/-- **Evaluators** of sessions. -/
structure Evaluator where
  evaluate : Expr → ScopeId → Exec Value
  execute : Stmt → ScopeId → Exec Unit

/-- The same evaluator at every place. -/
abbrev Evaluator.placed (ev : Evaluator) : PlacedEvaluator Console Unit where
  evaluate _ := ev.evaluate
  execute _ := ev.execute

/-- The values of several expressions, from left to right. -/
@[inline] def evaluateAll (evaluate : Expr → Exec Value) (es : List Expr) : Exec (List Value) :=
  Steps.evaluateAll (fun _ => ()) (fun _ => evaluate) () es

/-- The effects of several statements, one after the other. -/
@[inline] def executeAll (execute : Stmt → Exec Unit) (ss : List Stmt) : Exec Unit :=
  Steps.executeAll (fun _ => ()) (fun _ => execute) () ss

/-- The value of an expression that may be absent. -/
abbrev evaluateOption (evaluate : Expr → Exec Value) : Option Expr → Exec Value :=
  Steps.evaluateOption evaluate

section Session

variable (host : Host) (d : Nat → Evaluator)

/-- What a call does in a session. -/
def callHooks : CallHooks Console Interrupt :=
  (Steps.session host).callHooks host fun cost => (d cost).placed

/-- **Calls** in a session. -/
def call (paren : Token) (callee : Value) (arguments : List Value) : Exec Value :=
  (Steps.session host).call host (fun cost => (d cost).placed) paren callee arguments

/-- **The value of an expression** in a session. -/
def evaluateStep (e : Expr) (scope : ScopeId) : Exec Value :=
  (Steps.session host).evaluateStep host (fun cost => (d cost).placed) () e scope

/-- The clauses of a for statement in a session. -/
def forLoop (start : Option Stmt) (condition update : Option Expr) (body : Stmt) :
    ForLoop Console Interrupt :=
  (Steps.session host).forLoop host (fun cost => (d cost).placed) () start condition update body

/-- **The effect of a statement** in a session. -/
def executeStep (s : Stmt) (scope : ScopeId) : Exec Unit :=
  (Steps.session host).executeStep host (fun cost => (d cost).placed) () s scope

/-- Without room everything fails. -/
def Evaluator.full : Evaluator where
  evaluate _ _ := Exec.fail .roomExhausted none
  execute _ _ := Exec.fail .roomExhausted none

/-- The evaluator one step further up. -/
def Evaluator.step : Evaluator where
  evaluate := evaluateStep host d
  execute := executeStep host d

/-- **The evaluator of a host,** with all its room. -/
def Evaluator.inRoom : Evaluator := recurse .full (.step host) host.room 0

end Session

end Lox
