import Lox.Proofs.SmallSteps

/-!
# Relations between runs

What composes and holds of the small steps of two machines holds of their runs. Loops, calls and nodes
are put together of smaller runs in the same way on every machine and whatever is said about them, so
that this is shown once, for any relation between two runs that give the same results. A predicate is a
relation that does not look at the second run.

* `Composes` — relations between the actions of two machines that compose, with `Composes.iterate`,
  `Composes.run` and `Composes.invoke` for repetitions, loops and calls;
* `Steps.Related` — relations that hold of the small steps of two machines as well;
* `Steps.Related.evaluateStep`, `Steps.Related.executeStep` — one step, if the relation holds of the
  parts;
* `Parametric` — the same for two runs of sessions.
-/

namespace Lox

/-! ### Actions of two machines -/

section Composes

variable {ω ω' ε ε' : Type}

/-- **Relations that compose.** They hold of actions with the same result and no effect, and of one
action after the other. -/
structure Composes (R : ∀ ⦃α : Type⦄, Action ω ε α → Action ω' ε' α → Prop) : Prop where
  pure {α : Type} (a : α) : R (Pure.pure a) (Pure.pure a)
  bind {α β : Type} {act : Action ω ε β} {act' : Action ω' ε' β} {next : β → Action ω ε α}
    {next' : β → Action ω' ε' α} (h : R act act') (hnext : ∀ b, R (next b) (next' b)) :
    R (act >>= next) (act' >>= next')

/-- A repetition is its first turn and what comes behind it. -/
theorem iterate_succ {σ β γ : Type} (unfinished : ε) (step : β → EStateM ε σ (Turn β γ))
    (passes : Nat) (b : β) : iterate unfinished step (passes + 1) b = (do
      match ← step b with
      | .again b' => iterate unfinished step passes b'
      | .done c => pure c) := by
  funext s
  rw [iterate]
  change _ = EStateM.bind _ _ s
  unfold EStateM.bind
  cases step b s with
  | error e s' => rfl
  | ok turn s' => cases turn <;> rfl

/-- Does a scope have names of its own? -/
def ForLoop.declares (scope : ScopeId) : Action ω ε Bool :=
  Action.onStore fun s => (!(s.bindings scope).isEmpty, s)

theorem ForLoop.run_eq (loop : ForLoop ω ε) (unfinished : ε) (passes : Nat) (enclosing : ScopeId) :
    loop.run unfinished passes enclosing = (do
      let first ← Action.onStore (·.newScope (some enclosing))
      ForLoop.clause loop.start first
      let fresh ← ForLoop.declares first
      iterate unfinished (loop.pass enclosing fresh) passes first) := rfl

variable {R : ∀ ⦃α : Type⦄, Action ω ε α → Action ω' ε' α → Prop}

/-- **Loops with related clauses,** below the same scope. -/
structure ForLoop.Related (R : ∀ ⦃α : Type⦄, Action ω ε α → Action ω' ε' α → Prop)
    (enclosing : ScopeId) (loop : ForLoop ω ε) (loop' : ForLoop ω' ε') : Prop where
  opened : R (Action.onStore (·.newScope (some enclosing)))
    (Action.onStore (·.newScope (some enclosing)))
  start scope : R (ForLoop.clause loop.start scope) (ForLoop.clause loop'.start scope)
  declares scope : R (ForLoop.declares scope) (ForLoop.declares scope)
  goesOn scope : R (loop.goesOn scope) (loop'.goesOn scope)
  body scope : R (loop.body scope) (loop'.body scope)
  following scope : R (Action.onStore (·.nextIteration enclosing scope))
    (Action.onStore (·.nextIteration enclosing scope))
  copied scope : R (loop.copied scope) (loop'.copied scope)
  update scope : R (ForLoop.clause loop.update scope) (ForLoop.clause loop'.update scope)

namespace Composes

variable (h : Composes R)

include h

/-- **Bounded repetition.** -/
theorem iterate {β γ : Type} {unfinished : ε} {unfinished' : ε'}
    (hunfinished : R (throw unfinished : Action ω ε γ) (throw unfinished'))
    {step : β → Action ω ε (Turn β γ)} {step' : β → Action ω' ε' (Turn β γ)}
    (hstep : ∀ b, R (step b) (step' b)) (passes : Nat) (b : β) :
    R (Lox.iterate unfinished step passes b) (Lox.iterate unfinished' step' passes b) := by
  induction passes generalizing b with
  | zero => exact hunfinished
  | succ passes ih =>
    rw [iterate_succ, iterate_succ]
    refine h.bind (hstep b) fun turn => ?_
    cases turn with
    | again b' => exact ih b'
    | done c => exact h.pure c

variable {enclosing : ScopeId} {loop : ForLoop ω ε} {loop' : ForLoop ω' ε'}

theorem advance (hloop : loop.Related R enclosing loop') (fresh : Bool) (current : ScopeId) :
    R (loop.advance enclosing fresh current) (loop'.advance enclosing fresh current) := by
  cases fresh with
  | false => exact h.pure current
  | true =>
    exact h.bind (hloop.following current) fun following =>
      h.bind (hloop.copied following) fun _ => h.pure following

theorem pass (hloop : loop.Related R enclosing loop') (fresh : Bool) (current : ScopeId) :
    R (loop.pass enclosing fresh current) (loop'.pass enclosing fresh current) := by
  refine h.bind (hloop.goesOn current) fun goesOn => ?_
  cases goesOn with
  | false => exact h.pure (Turn.done ())
  | true =>
    exact h.bind (hloop.body current) fun _ =>
      h.bind (h.advance hloop fresh current) fun following =>
        h.bind (hloop.update following) fun _ => h.pure (Turn.again following)

/-- **Loops.** -/
theorem run (hloop : loop.Related R enclosing loop') {unfinished : ε} {unfinished' : ε'}
    (hunfinished : R (throw unfinished : Action ω ε Unit) (throw unfinished')) (passes : Nat) :
    R (loop.run unfinished passes enclosing) (loop'.run unfinished' passes enclosing) := by
  rw [ForLoop.run_eq, ForLoop.run_eq]
  refine h.bind hloop.opened fun first => h.bind (hloop.start first) fun _ => ?_
  exact h.bind (hloop.declares first) fun fresh =>
    h.iterate hunfinished (h.pass hloop fresh) passes first

/-- **Calls of values.** -/
theorem invoke {hooks : CallHooks ω ε} {hooks' : CallHooks ω' ε'}
    (hrefuse : ∀ cause,
      R (throw (hooks.refuse cause) : Action ω ε Value) (throw (hooks'.refuse cause)))
    (hnative : ∀ f arguments, R (hooks.native f arguments) (hooks'.native f arguments))
    (hactivate : ∀ f arguments, R (Action.onStore (·.activate f arguments))
      (Action.onStore (·.activate f arguments)))
    (hbody : ∀ f arguments activation,
      R (hooks.body f arguments activation) (hooks'.body f arguments activation))
    (callee : Value) (arguments : List Value) :
    R (Lox.invoke hooks callee arguments) (Lox.invoke hooks' callee arguments) := by
  unfold Lox.invoke
  cases callee with
  | literal value => exact hrefuse .notCallable
  | native f =>
    simp only
    split
    · exact hnative f arguments
    · exact hrefuse _
  | closure f =>
    simp only
    split
    · exact h.bind (hactivate f arguments) fun activation => hbody f arguments activation
    · exact hrefuse _

end Composes

end Composes

/-! ### Lists of nodes -/

namespace Composes

variable {ω ω' π π' : Type} {next : π → π} {next' : π' → π'}
  {R : ∀ ⦃α : Type⦄, Action ω Interrupt α → Action ω' Interrupt α → Prop} (h : Composes R)

include h

theorem evaluateAll {evaluate : π → Expr → Action ω Interrupt Value}
    {evaluate' : π' → Expr → Action ω' Interrupt Value}
    (hevaluate : ∀ p p' e, R (evaluate p e) (evaluate' p' e)) (es : List Expr) (p : π) (p' : π') :
    R (Steps.evaluateAll next evaluate p es) (Steps.evaluateAll next' evaluate' p' es) := by
  induction es generalizing p p' with
  | nil => exact h.pure []
  | cons e es ih =>
    exact h.bind (hevaluate p p' e) fun v => h.bind (ih _ _) fun vs => h.pure (v :: vs)

theorem evaluateOption {evaluate : Expr → Action ω Interrupt Value}
    {evaluate' : Expr → Action ω' Interrupt Value} (hevaluate : ∀ e, R (evaluate e) (evaluate' e))
    (e : Option Expr) : R (Steps.evaluateOption evaluate e) (Steps.evaluateOption evaluate' e) := by
  cases e with
  | none => exact h.pure Value.nil
  | some e => exact hevaluate e

theorem executeAll {execute : π → Stmt → Action ω Interrupt Unit}
    {execute' : π' → Stmt → Action ω' Interrupt Unit} {ss : List Stmt}
    (hexecute : ∀ s ∈ ss, ∀ p p', R (execute p s) (execute' p' s)) (p : π) (p' : π') :
    R (Steps.executeAll next execute p ss) (Steps.executeAll next' execute' p' ss) := by
  induction ss generalizing p p' with
  | nil => exact h.pure ()
  | cons s ss ih =>
    obtain ⟨hs, hss⟩ := List.forall_mem_cons.1 hexecute
    exact h.bind (hs p p') fun _ => ih hss _ _

end Composes

/-! ### What a session does on its own -/

/-- **Steps of a session** that no machine does otherwise. They are put together of steps that make no
return. -/
inductive Exec.Basic (host : Host) : ∀ {α : Type}, Exec α → Prop
  | pure {α : Type} (a : α) : Basic host (Pure.pure a)
  | bind {α β : Type} {act : Exec β} {next : β → Exec α} (h : Basic host act)
    (hnext : ∀ b, Basic host (next b)) : Basic host (act >>= next)
  | interrupt {α : Type} (e : Interrupt) (he : ∀ value, e ≠ .returning value) :
    Basic host (throw e : Exec α)
  | store : Basic host Action.store
  | frames : Basic host Exec.frames
  | print (text : String) : Basic host (Exec.print text)
  | emit (event : Unit → Event) : Basic host (Exec.emit host event)
  | readClock : Basic host (Exec.readClock host)

namespace Exec.Basic

variable {host : Host} {α : Type}

theorem fail (cause : Cause) (line : Option Int) : Basic host (Exec.fail cause line : Exec α) :=
  interrupt (.failed ⟨cause, line⟩) nofun

theorem orFail (line : Int) (result : Except Cause α) : Basic host (Exec.orFail line result) := by
  cases result with
  | ok a => exact pure a
  | error cause => exact fail cause (some line)

theorem read (scope : ScopeId) (name : Token) : Basic host (Exec.read scope name) :=
  store.bind fun _ => orFail name.line _

theorem emitAll {ι : Type} (event : ι → Event) (items : List ι) :
    Basic host (items.forM fun item => Exec.emit host fun _ => event item) := by
  induction items with
  | nil => exact pure ()
  | cons item items ih => exact (emit _).bind fun _ => ih

theorem emitContents (scope : ScopeId) : Basic host (Exec.emitContents host scope) := by
  unfold Exec.emitContents
  split
  · exact store.bind fun s => emitAll (fun item => .declared item.1 item.2.1) (s.contents scope)
  · exact pure ()

end Exec.Basic

/-! ### Two machines -/

/-- **The statements that are run inside a statement,** in the same call. -/
def Stmt.inner : Stmt → List Stmt
  | .block body => body
  | .conditional _ yes no => yes :: no.toList
  | .whileLoop _ body => [body]
  | .forLoop start _ _ body => start.toList ++ [body]
  | _ => []

/-- **Relations that hold of the small steps of two machines,** and of what a call adds to a run. Of all
interrupts only the return is left out: it is the one that a statement may be asked for, and the one
that a call stops. -/
structure Steps.Related {ω ω' π π' : Type} (host : Host)
    (R : ∀ ⦃α : Type⦄, Action ω Interrupt α → Action ω' Interrupt α → Prop) (steps : Steps ω π)
    (steps' : Steps ω' π') : Prop extends Composes R where
  interrupt {α : Type} (e : Interrupt) (he : ∀ value, e ≠ .returning value) :
    R (throw e : Action ω Interrupt α) (throw e)
  onStore {α : Type} (f : Store → α × Store) : R (Action.onStore f) (Action.onStore f)
  located {α : Type} (line : Int) {act : Action ω Interrupt α} {act' : Action ω' Interrupt α}
    (h : R act act') : R (Exec.located line act) (Exec.located line act')
  lift {α : Type} {act : Exec α} (h : Exec.Basic host act) : R (steps.lift act) (steps'.lift act)
  inCall (paren : Token) {act : Action ω Interrupt Value} {act' : Action ω' Interrupt Value}
    (h : R act act') : R (steps.inCall paren act) (steps'.inCall paren act')
  inBody (f : Closure) {act : π → Action ω Interrupt Value} {act' : π' → Action ω' Interrupt Value}
    (h : ∀ p p', R (act p) (act' p')) : R (steps.inBody f act) (steps'.inBody f act')
  first (p : π) (p' : π') {clause : Option (ScopeId → Action ω Interrupt Unit)}
    {clause' : Option (ScopeId → Action ω' Interrupt Unit)}
    (h : ∀ scope, R (ForLoop.clause clause scope) (ForLoop.clause clause' scope)) (scope : ScopeId) :
    R (ForLoop.clause (steps.first p clause) scope) (ForLoop.clause (steps'.first p' clause') scope)
  opened {α : Type} (p : π) (p' : π') (scope : ScopeId)
    (items : Store → List (String × Value × Bool)) {act : Action ω Interrupt α}
    {act' : Action ω' Interrupt α} (h : R act act') :
    R (steps.opened p scope items act) (steps'.opened p' scope items act')
  made {α : Type} (p : π) (p' : π') (f : Closure) {act : Action ω Interrupt α}
    {act' : Action ω' Interrupt α} (h : R act act') : R (steps.made p f act) (steps'.made p' f act')
  declare (scope : ScopeId) (name : String) (value : Value) (const : Bool) :
    R (steps.declare scope name value const) (steps'.declare scope name value const)
  write (scope : ScopeId) (name : Token) (value : Value) :
    R (steps.write scope name value) (steps'.write scope name value)

namespace Steps.Related

variable {ω ω' π π' : Type} {host : Host}
  {R : ∀ ⦃α : Type⦄, Action ω Interrupt α → Action ω' Interrupt α → Prop} {steps : Steps ω π}
  {steps' : Steps ω' π'} (h : steps.Related host R steps') {d : Nat → PlacedEvaluator ω π}
  {d' : Nat → PlacedEvaluator ω' π'}
  (hevaluate : ∀ cost p p' e scope,
    R ((d cost).evaluate p e scope) ((d' cost).evaluate p' e scope))
  (hvalue : ∀ body activation p p',
    R (Exec.valueOf
        (Steps.executeAll steps.next (fun p s => (d 4).execute p s activation) p body))
      (Exec.valueOf
        (Steps.executeAll steps'.next (fun p s => (d' 4).execute p s activation) p' body)))

include h

section Calls

include hvalue

/-- **The body of a function.** -/
theorem body (f : Closure) (arguments : List Value) (activation : ScopeId) :
    R ((steps.callHooks host d).body f arguments activation)
      ((steps'.callHooks host d').body f arguments activation) := by
  refine h.inBody f fun p p' => h.opened p p' activation _ ?_
  refine h.bind (h.lift (.emit _)) fun _ => ?_
  split
  · exact h.bind (h.lift (.emitAll (fun item : String × Value => .declared item.1 item.2) _)) fun _ =>
      hvalue f.body activation _ _
  · exact hvalue f.body activation _ _

/-- **Calls.** -/
theorem call (paren : Token) (callee : Value) (arguments : List Value) :
    R (steps.call host d paren callee arguments) (steps'.call host d' paren callee arguments) := by
  refine h.bind (h.lift .frames) fun frames => ?_
  split
  · exact h.lift (.fail _ _)
  · exact h.inCall paren (h.located paren.line (h.invoke
      (fun cause => h.interrupt (.failed ⟨cause, none⟩) nofun)
      (fun _ _ => h.lift (.bind (.emit _) fun _ => .readClock)) (fun _ _ => h.onStore _)
      (h.body hvalue) callee arguments))

include hevaluate

/-- **Expressions.** -/
theorem evaluateStep (p : π) (p' : π') (e : Expr) (scope : ScopeId) :
    R (steps.evaluateStep host d p e scope) (steps'.evaluateStep host d' p' e scope) := by
  cases e with
  | literal value => exact h.pure (Value.literal value)
  | grouping inner => exact hevaluate 1 _ _ inner scope
  | «variable» name => exact h.lift (.read scope name)
  | assign name value =>
    exact h.bind (hevaluate 1 _ _ value scope) fun v => h.write scope name v
  | logical left operator right =>
    refine h.bind (hevaluate 1 _ _ left scope) fun v => ?_
    split
    · exact h.pure v
    · exact hevaluate 1 _ _ right scope
  | unary operator right =>
    exact h.bind (hevaluate 1 _ _ right scope) fun v => h.lift (.orFail operator.line _)
  | binary left operator right =>
    exact h.bind (hevaluate 1 _ _ left scope) fun v => h.bind (hevaluate 1 _ _ right scope) fun w =>
      h.lift (.orFail operator.line _)
  | call callee paren arguments =>
    exact h.bind (hevaluate 1 _ _ callee scope) fun f =>
      h.bind (h.evaluateAll (fun p p' e => hevaluate 2 p p' e scope) arguments _ _) fun vs =>
        h.call hvalue paren f vs
  | foreign description => exact h.interrupt (.misplaced (.expression description)) nofun

end Calls

section Statements

include hevaluate

/-- **For statements** are loops with related clauses. -/
theorem forLoop (p : π) (p' : π') {start : Option Stmt} {condition update : Option Expr} {body : Stmt}
    (hinner : ∀ cost, ∀ s ∈ (Stmt.forLoop start condition update body).inner, ∀ p p' scope,
      R ((d cost).execute p s scope) ((d' cost).execute p' s scope)) (scope : ScopeId) :
    (steps.forLoop host d p start condition update body).Related R scope
      (steps'.forLoop host d' p' start condition update body) where
  opened := h.onStore _
  start first := by
    refine h.first p p' (fun scope => ?_) first
    cases start with
    | none => exact h.pure ()
    | some s => exact hinner 4 s List.mem_cons_self _ _ scope
  declares first := h.onStore _
  goesOn current := by
    cases condition with
    | none => exact h.pure true
    | some e => exact h.bind (hevaluate 4 _ _ e current) fun v => h.pure v.isTruthy
  body current := hinner 4 body (List.mem_append_right _ List.mem_cons_self) _ _ current
  following current := h.onStore _
  copied following := h.opened p p' following _ (h.lift (.emitContents following))
  update following := by
    cases update with
    | none => exact h.pure ()
    | some e => exact h.bind (hevaluate 4 _ _ e following) fun _ => h.pure ()

/-- **Statements.** -/
theorem executeStep (p : π) (p' : π') {s : Stmt}
    (hinner : ∀ cost, ∀ part ∈ s.inner, ∀ p p' scope,
      R ((d cost).execute p part scope) ((d' cost).execute p' part scope))
    (hreturn : ∀ keyword value, s = .returning keyword value → ∀ v,
      R (throw (.returning v) : Action ω Interrupt Unit) (throw (.returning v))) (scope : ScopeId) :
    R (steps.executeStep host d p s scope) (steps'.executeStep host d' p' s scope) := by
  -- parts are related by assumption, and each primitive in between by its own rule
  cases s with
  | expression value => exact h.bind (hevaluate 1 _ _ value scope) fun _ => h.pure ()
  | print value => exact h.bind (hevaluate 1 _ _ value scope) fun v => h.lift (.print v.display)
  | «variable» name initial const =>
    exact h.bind (h.evaluateOption (fun e => hevaluate 1 _ _ e scope) initial) fun v =>
      h.declare scope name.lexeme v const
  | block body =>
    exact h.bind (h.onStore _) fun inner => h.opened p p' inner _
      (h.executeAll (fun s hs p p' => hinner 2 s hs p p' inner) _ _)
  | conditional condition yes no =>
    refine h.bind (hevaluate 1 _ _ condition scope) fun v => ?_
    split
    · exact hinner 1 yes List.mem_cons_self _ _ scope
    · cases no with
      | none => exact h.pure ()
      | some no => exact hinner 1 no (List.mem_cons_of_mem _ List.mem_cons_self) _ _ scope
  | whileLoop condition body =>
    -- both loops have the same number of passes, and give up alike
    refine h.iterate (h.interrupt .unfinished nofun) (fun _ => ?_) host.passes ()
    refine h.bind (hevaluate 1 _ _ condition scope) fun v => ?_
    split
    · exact h.bind (hinner 1 body List.mem_cons_self _ _ scope) fun _ => h.pure (Turn.again ())
    · exact h.pure (Turn.done ())
  | forLoop start condition update body =>
    exact h.run (h.forLoop hevaluate p p' hinner scope) (h.interrupt .unfinished nofun) host.passes
  | function name parameters body =>
    exact h.bind (h.onStore _) fun f =>
      h.made p p' f (h.declare scope name.lexeme (.closure f) false)
  | returning keyword value =>
    exact h.bind (h.evaluateOption (fun e => hevaluate 1 _ _ e scope) value) fun v =>
      hreturn keyword value rfl v
  | foreign description => exact h.interrupt (.misplaced (.statement description)) nofun

end Statements

end Steps.Related

/-! ### Sessions -/

/-- Several statements of a session. -/
theorem Composes.executeAll' {R : ∀ ⦃α : Type⦄, Exec α → Exec α → Prop} (h : Composes R)
    (execute execute' : Stmt → Exec Unit) {ss : List Stmt}
    (hexecute : ∀ s ∈ ss, R (execute s) (execute' s)) :
    R (Lox.executeAll execute ss) (Lox.executeAll execute' ss) := by
  have hplaced : ∀ s ∈ ss, ∀ p p' : Unit,
      R ((fun _ => execute : Unit → Stmt → Exec Unit) p s) ((fun _ => execute' : Unit → _) p' s) :=
    fun s hs _ _ => hexecute s hs
  exact h.executeAll hplaced () ()

/-- **Relations that hold of the small steps** of sessions with this host, and of what a call adds to
a run. -/
structure Parametric (host : Host) (R : ∀ ⦃α : Type⦄, Exec α → Exec α → Prop) : Prop
    extends Composes R where
  interrupt {α : Type} (e : Interrupt) (he : ∀ value, e ≠ .returning value) :
    R (throw e : Exec α) (throw e)
  onStore {α : Type} (f : Store → α × Store) : R (Action.onStore f) (Action.onStore f)
  frames : R Exec.frames Exec.frames
  print (text : String) : R (Exec.print text) (Exec.print text)
  emit (event : Unit → Event) : R (Exec.emit host event) (Exec.emit host event)
  readClock : R (Exec.readClock host) (Exec.readClock host)
  inFrame {α : Type} {act act' : Exec α} (h : R act act') : R (Exec.inFrame act) (Exec.inFrame act')
  located {α : Type} (line : Int) {act act' : Exec α} (h : R act act') :
    R (Exec.located line act) (Exec.located line act')

namespace Parametric

variable {host : Host} {R : ∀ ⦃α : Type⦄, Exec α → Exec α → Prop} (h : Parametric host R)

include h

theorem basic {α : Type} {act : Exec α} (hact : Exec.Basic host act) : R act act := by
  induction hact with
  | pure a => exact h.pure a
  | bind _ _ hact hnext => exact h.bind hact hnext
  | interrupt e he => exact h.interrupt e he
  | store => exact h.onStore fun s => (s, s)
  | frames => exact h.frames
  | print text => exact h.print text
  | emit event => exact h.emit event
  | readClock => exact h.readClock

theorem write (scope : ScopeId) (name : Token) (value : Value) :
    R (Exec.write scope name value) (Exec.write scope name value) := by
  -- what becomes of the store is known as soon as the store is
  have heq : Exec.write scope name value = (do
      let s ← Exec.orFail name.line ((← Action.store).assign scope name.lexeme value)
      Action.onStore fun _ => (value, s)) := by
    funext m
    rw [Exec.write_eq_assign]
    change _ = EStateM.bind (Exec.orFail name.line (m.store.assign scope name.lexeme value)) _ m
    cases m.store.assign scope name.lexeme value <;> rfl
  rw [heq]
  exact h.bind (h.basic .store) fun s => h.bind (h.basic (.orFail name.line _)) fun s' => h.onStore _

/-- **The small steps of sessions** are related to themselves. -/
theorem related : (Steps.session host).Related host R (Steps.session host) where
  toComposes := h.toComposes
  interrupt := h.interrupt
  onStore := h.onStore
  located := h.located
  lift := h.basic
  inCall _ _ _ hcall := h.inFrame hcall
  inBody _ _ _ hbody := hbody () ()
  first _ _ _ _ hclause := hclause
  opened _ _ _ _ _ _ hact := hact
  made _ _ _ _ _ hact := hact
  declare _ _ _ _ := h.bind (h.onStore _) fun _ => h.emit _
  write := h.write

variable (d d' : Nat → Evaluator)
  (hevaluate : ∀ cost e scope, R ((d cost).evaluate e scope) ((d' cost).evaluate e scope))

include hevaluate

/-- **Expressions.** -/
theorem evaluateStep (hvalue : ∀ body activation,
      R (Exec.valueOf (executeAll (fun s => (d 4).execute s activation) body))
        (Exec.valueOf (executeAll (fun s => (d' 4).execute s activation) body)))
    (e : Expr) (scope : ScopeId) :
    R (Lox.evaluateStep host d e scope) (Lox.evaluateStep host d' e scope) := by
  have hplaced : ∀ cost (p p' : Unit) e scope,
      R ((d cost).placed.evaluate p e scope) ((d' cost).placed.evaluate p' e scope) :=
    fun cost _ _ => hevaluate cost
  exact h.related.evaluateStep hplaced (fun body activation _ _ => hvalue body activation) () () e
    scope

/-- **Statements.** -/
theorem executeStep {s : Stmt}
    (hinner : ∀ cost, ∀ part ∈ s.inner, ∀ scope,
      R ((d cost).execute part scope) ((d' cost).execute part scope))
    (hreturn : ∀ keyword value, s = .returning keyword value → ∀ v,
      R (throw (.returning v) : Exec Unit) (throw (.returning v))) (scope : ScopeId) :
    R (Lox.executeStep host d s scope) (Lox.executeStep host d' s scope) := by
  have hplaced : ∀ cost (p p' : Unit) e scope,
      R ((d cost).placed.evaluate p e scope) ((d' cost).placed.evaluate p' e scope) :=
    fun cost _ _ => hevaluate cost
  exact h.related.executeStep hplaced () () (fun cost part hpart _ _ => hinner cost part hpart)
    hreturn scope

end Parametric

end Lox
