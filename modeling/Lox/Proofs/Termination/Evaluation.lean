import Lox.Proofs.Grammar.Normal
import Lox.Proofs.Termination.Runs

/-!
# Evaluation without loops ends

In room that is measured by the size of the node and by the calls that may still begin, every node
without loops is evaluated to an end. On the way to a part of a node the room shrinks by no more than
the size does. A call evaluates the body of some closure, which may be larger than the node; but there
is one call less to begin then, and the room for it was counted.

* `callRoom` — the room for the calls that may still begin;
* `Evaluator.Ends` — evaluators that come to an end in room enough for a node;
* `ends_evaluateStep`, `ends_executeStep` — one step;
* `ends_recurse` — the evaluators of a host.
-/

namespace Lox

/-! ### The room for calls -/

/-- **The room for the calls that may still begin,** each of which evaluates a body. -/
def callRoom (size frames : Nat) : Nat := 4 * size * (maxFrames - frames)

/-- A call that begins takes its room from the others. -/
theorem callRoom_eq (size : Nat) {frames : Nat} (h : frames < maxFrames) :
    callRoom size frames = callRoom size (frames + 1) + 4 * size := by
  unfold callRoom
  rw [show maxFrames - frames = (maxFrames - (frames + 1)) + 1 by omega, Nat.mul_succ]

/-- **Evaluators that come to an end** in room enough for a node and for the calls. -/
structure Evaluator.Ends (size room : Nat) (ev : Evaluator) : Prop where
  evaluate : ∀ {frames : Nat} (e : Expr) (scope : ScopeId), frames ≤ maxFrames →
    4 * sizeOf e + callRoom size frames ≤ room → EndsValue size frames (ev.evaluate e scope)
  execute : ∀ {frames : Nat} (s : Stmt) (scope : ScopeId), frames ≤ maxFrames →
    s.isLoopFree = true → sizeOf s ≤ size → 4 * sizeOf s + callRoom size frames ≤ room →
    Lox.Ends size frames (fun _ => True) (ev.execute s scope)

section Steps

variable {size room frames : Nat} {host : Host} {d : Nat → Evaluator}

theorem ends_evaluateAll {act : Expr → Exec Value} {es : List Expr}
    (h : ∀ e ∈ es, EndsValue size frames (act e)) :
    Ends size frames (fun vs => ∀ v ∈ vs, Value.Limited size v) (evaluateAll act es) := by
  induction es with
  | nil => exact ends_pure (by simp)
  | cons e es ih =>
    refine ends_bind (h e List.mem_cons_self) fun v hv => ?_
    refine ends_bind (ih fun e he => h e (List.mem_cons_of_mem _ he)) fun vs hvs => ?_
    exact ends_pure (List.forall_mem_cons.2 ⟨hv, hvs⟩)

theorem ends_executeAll {act : Stmt → Exec Unit} {ss : List Stmt}
    (h : ∀ s ∈ ss, Ends size frames (fun _ => True) (act s)) :
    Ends size frames (fun _ => True) (executeAll act ss) := by
  induction ss with
  | nil => exact ends_pure trivial
  | cons s ss ih =>
    exact ends_bind (h s List.mem_cons_self) fun _ _ =>
      ih fun s hs => h s (List.mem_cons_of_mem _ hs)

theorem ends_evaluateOption {act : Expr → Exec Value} {e : Option Expr}
    (h : ∀ e' ∈ e, EndsValue size frames (act e')) :
    EndsValue size frames (evaluateOption act e) := by
  cases e with
  | none => exact ends_pure trivial
  | some e => exact h e rfl

variable (hd : ∀ cost, 1 ≤ cost → (d cost).Ends size (room - cost)) (hframes : frames ≤ maxFrames)

include hd hframes

/-- A part of an expression is smaller, by at least as much as it costs to come to it. -/
theorem ends_part {cost : Nat} (hpos : 1 ≤ cost) (hcost : cost ≤ 4) {n : Nat}
    (hroom : 4 * n + callRoom size frames ≤ room) {e : Expr} (he : sizeOf e < n)
    (scope : ScopeId) : EndsValue size frames ((d cost).evaluate e scope) :=
  (hd cost hpos).evaluate e scope hframes (by omega)

/-- So is a part of a statement. -/
theorem ends_inner {cost : Nat} (hpos : 1 ≤ cost) (hcost : cost ≤ 4) {n : Nat}
    (hroom : 4 * n + callRoom size frames ≤ room) {s : Stmt} (hs : sizeOf s < n)
    (hn : n ≤ size) (hloops : s.isLoopFree = true) (scope : ScopeId) :
    Ends size frames (fun _ => True) ((d cost).execute s scope) :=
  (hd cost hpos).execute s scope hframes hloops (by omega) (by omega)

/-! ### Calls -/

omit hd hframes in
/-- **The body of a function.** -/
theorem ends_body (hd : ∀ cost, 1 ≤ cost → (d cost).Ends size (room - cost))
    (hframes : frames < maxFrames) (hroom : callRoom size frames ≤ room) {f : Closure}
    (hf : Value.Limited size (.closure f)) (arguments : List Value) (activation : ScopeId) :
    EndsValue size (frames + 1) ((callHooks host d).body f arguments activation) := by
  obtain ⟨hloops, hsize⟩ := hf
  have hcalls := callRoom_eq size hframes
  have hall : Ends size (frames + 1) (fun _ => True)
      (executeAll (fun s => (d 4).execute s activation) f.body) := by
    -- a body is no larger than any node that was counted for a call
    refine ends_executeAll fun s hs => ?_
    have hless := List.sizeOf_lt_of_mem hs
    exact (hd 4 (by decide)).execute s activation hframes
      (Stmt.areLoopFree_iff.1 hloops s hs) (by omega) (by omega)
  have hvalue := ends_valueOf hall
  rw [callHooks_body]
  refine ends_bind (ends_reports (reports_emit host _)) fun _ _ => ?_
  split
  · exact ends_bind (ends_reports (reports_forM (fun _ => reports_emit host _) _)) fun _ _ => hvalue
  · exact hvalue

omit hframes in
/-- **Calls of values.** -/
theorem ends_invoke (hframes : frames < maxFrames) (hroom : callRoom size frames ≤ room)
    {f : Value} (hf : f.Limited size) {arguments : List Value}
    (harguments : ∀ v ∈ arguments, Value.Limited size v) :
    EndsValue size (frames + 1) (invoke (callHooks host d) f arguments) := by
  cases f with
  | literal l => exact ends_throw nofun
  | native g =>
    change EndsValue size (frames + 1) (if (arguments.length : Int) = g.arity then _ else throw _)
    split
    · exact ends_bind (ends_reports (reports_emit host _)) fun _ _ => ends_readClock host
    · exact ends_throw nofun
  | closure g =>
    change EndsValue size (frames + 1) (if arguments.length = g.arity then _ else throw _)
    split
    · have hactivate : Ends size (frames + 1) (fun _ => True)
          (Action.onStore (·.activate g arguments)) :=
        ends_onStore fun s hs => ⟨trivial, hs.activate g harguments⟩
      exact ends_bind hactivate fun activation _ =>
        ends_body hd hframes hroom hf arguments activation
    · exact ends_throw nofun

/-- **Calls.** The limit is checked before anything is invoked. -/
theorem ends_call (hroom : callRoom size frames ≤ room) (paren : Token) {f : Value}
    (hf : f.Limited size) {arguments : List Value}
    (harguments : ∀ v ∈ arguments, Value.Limited size v) :
    EndsValue size frames (call host d paren f arguments) := by
  refine ends_get_bind fun m hm => ?_
  rw [hm]
  split
  · exact ends_throw nofun
  next hne =>
    exact ends_inFrame (ends_located
      (ends_invoke hd (Nat.lt_of_le_of_ne hframes hne) hroom hf harguments) paren.line)

/-! ### Expressions -/

omit hd hframes in
/-- Operators give literals, and do not fail for want of room. -/
theorem ends_unary (operator : Token) (v : Value) :
    EndsValue size frames (Exec.orFail operator.line (applyUnary operator.kind v)) := by
  refine ends_orFail _ (fun w hw => Value.limited_of_literal (applyUnary_literal hw)) ?_
  unfold applyUnary
  split <;> simp

omit hd hframes in
theorem ends_binary (operator : Token) (v w : Value) :
    EndsValue size frames (Exec.orFail operator.line (applyBinary operator.kind v w)) := by
  refine ends_orFail _ (fun u hu => Value.limited_of_literal (applyBinary_literal hu)) ?_
  unfold applyBinary
  split
  · simp
  · simp
  · split <;> simp
  · split
    · unfold applyArithmetic
      split <;> simp
    · simp

/-- **Expressions.** -/
theorem ends_evaluateStep {e : Expr} (hroom : 4 * sizeOf e + callRoom size frames ≤ room)
    (scope : ScopeId) : EndsValue size frames (evaluateStep host d e scope) := by
  -- a part is smaller by at least one, which pays for the room that it takes to get there
  have hpart : ∀ {e' : Expr}, sizeOf e' < sizeOf e →
      EndsValue size frames ((d 1).evaluate e' scope) := fun he =>
    ends_part hd hframes (Nat.le_refl 1) (by decide) hroom he scope
  cases e with
  | literal value => exact ends_pure trivial
  | grouping inner => exact hpart (by simp)
  | «variable» name => exact ends_read scope name
  | assign name value =>
    exact ends_bind (hpart (by simp only [Expr.assign.sizeOf_spec]; omega)) fun v hv =>
      ends_write scope name hv
  | logical left operator right =>
    refine ends_bind (hpart (by simp only [Expr.logical.sizeOf_spec]; omega)) fun v hv => ?_
    split
    · exact ends_pure hv
    · exact hpart (by simp only [Expr.logical.sizeOf_spec]; omega)
  | unary operator right =>
    exact ends_bind (hpart (by simp only [Expr.unary.sizeOf_spec]; omega)) fun v _ =>
      ends_unary operator v
  | binary left operator right =>
    refine ends_bind (hpart (by simp only [Expr.binary.sizeOf_spec]; omega)) fun v _ => ?_
    exact ends_bind (hpart (by simp only [Expr.binary.sizeOf_spec]; omega)) fun w _ =>
      ends_binary operator v w
  | call callee paren arguments =>
    refine ends_bind (hpart (by simp only [Expr.call.sizeOf_spec]; omega)) fun f hf => ?_
    -- the arguments are smaller than their list, which is a part of the call
    have hall : ∀ e ∈ arguments, EndsValue size frames ((d 2).evaluate e scope) := by
      intro e he
      have hless := List.sizeOf_lt_of_mem he
      refine ends_part hd hframes (by decide) (by decide) hroom ?_ scope
      simp only [Expr.call.sizeOf_spec]
      omega
    -- a call takes a frame, and has room for the body of whatever is called
    exact ends_bind (ends_evaluateAll hall) fun vs hvs =>
      ends_call hd hframes (by omega) paren hf hvs
  | foreign description => exact ends_throw trivial

/-! ### Statements -/

/-- **Statements.** -/
theorem ends_executeStep {s : Stmt} (hloops : s.isLoopFree = true) (hsize : sizeOf s ≤ size)
    (hroom : 4 * sizeOf s + callRoom size frames ≤ room) (scope : ScopeId) :
    Ends size frames (fun _ => True) (executeStep host d s scope) := by
  -- a part is smaller by at least one, which pays for the room that it takes to get there
  have hpart : ∀ {e : Expr}, sizeOf e < sizeOf s →
      EndsValue size frames ((d 1).evaluate e scope) := fun he =>
    ends_part hd hframes (Nat.le_refl 1) (by decide) hroom he scope
  have hinner : ∀ {s' : Stmt}, sizeOf s' < sizeOf s → s'.isLoopFree = true →
      Ends size frames (fun _ => True) ((d 1).execute s' scope) := fun hs hloops =>
    ends_inner hd hframes (Nat.le_refl 1) (by decide) hroom hs hsize hloops scope
  have hoption : ∀ {e : Option Expr}, sizeOf e < sizeOf s →
      EndsValue size frames (evaluateOption (fun e => (d 1).evaluate e scope) e) := by
    intro e he
    refine ends_evaluateOption fun e' he' => hpart ?_
    obtain rfl := Option.mem_def.1 he'
    simp only [Option.some.sizeOf_spec] at he
    omega
  cases s with
  | expression value =>
    exact ends_bind (hpart (by simp)) fun _ _ => ends_pure trivial
  | print value => exact ends_bind (hpart (by simp)) fun v _ => ends_print _
  | «variable» name initial const =>
    refine ends_bind (hoption (by simp only [Stmt.variable.sizeOf_spec]; omega)) fun v hv => ?_
    exact ends_declare host scope name.lexeme hv const
  | block body =>
    -- the new scope changes no value, so that what is called later is still limited
    have hnew : Ends size frames (fun _ => True) (Action.onStore (·.newScope (some scope))) :=
      ends_onStore fun s hs => ⟨trivial, hs⟩
    rw [executeStep_block]
    refine ends_bind hnew fun inner _ => ends_executeAll fun s hs => ?_
    have hless := List.sizeOf_lt_of_mem hs
    refine ends_inner hd hframes (by decide) (by decide) hroom ?_ hsize
      (Stmt.areLoopFree_iff.1 hloops s hs) inner
    simp only [Stmt.block.sizeOf_spec]
    omega
  | conditional condition yes no =>
    refine ends_bind (hpart (by simp only [Stmt.conditional.sizeOf_spec]; omega)) fun v _ => ?_
    cases no with
    | none =>
      split
      · exact hinner (by simp only [Stmt.conditional.sizeOf_spec]; omega) hloops
      · exact ends_pure trivial
    | some no =>
      simp only [Stmt.isLoopFree, Bool.and_eq_true] at hloops
      split
      · exact hinner (by simp only [Stmt.conditional.sizeOf_spec]; omega) hloops.1
      · refine hinner ?_ hloops.2
        simp only [Stmt.conditional.sizeOf_spec, Option.some.sizeOf_spec]
        omega
  -- there are no loops
  | whileLoop condition body => contradiction
  | forLoop start condition update body => contradiction
  | function name parameters body =>
    simp only [Stmt.function.sizeOf_spec] at hsize
    -- the body of the closure is limited in size, for the calls that are still to come
    have hclosure : Ends size frames (fun f => Value.Limited size (.closure f))
        (Action.onStore (·.newClosure name.lexeme (parameters.map (·.lexeme)) body scope)) :=
      ends_onStore fun s hs => ⟨⟨hloops, (by omega : sizeOf body ≤ size)⟩, hs⟩
    exact ends_bind hclosure fun f hf => ends_declare host scope name.lexeme hf false
  | returning keyword value =>
    refine ends_bind (hoption (by simp only [Stmt.returning.sizeOf_spec]; omega)) fun v hv => ?_
    exact ends_throw hv
  | foreign description => exact ends_throw trivial

end Steps

/-! ### Evaluators -/

/-- There is no node for which no room is enough. -/
theorem ends_full (size : Nat) : Evaluator.full.Ends size 0 where
  evaluate e _ _ hroom := by
    have hpos := e.sizeOf_pos
    omega
  execute s _ _ _ _ hroom := by
    have hpos := s.sizeOf_pos
    omega

/-- **The evaluators of a host,** at every cost. -/
theorem ends_recurse (host : Host) (size room cost : Nat) :
    (recurse Evaluator.full (.step host) room cost).Ends size (room - cost) := by
  induction room generalizing cost with
  | zero =>
    rw [Nat.zero_sub, recurse]
    exact ends_full size
  | succ room ih =>
    -- a step is made at cost zero, and what is left of the cost is paid from the room
    cases cost with
    | zero =>
      have hd : ∀ cost, 1 ≤ cost →
          (recurse Evaluator.full (.step host) room (cost - 1)).Ends size (room + 1 - cost) := by
        intro cost hpos
        rw [show room + 1 - cost = room - (cost - 1) by omega]
        exact ih (cost - 1)
      exact ⟨fun _ scope hframes hroom => ends_evaluateStep hd hframes hroom scope,
        fun _ scope hframes hloops hsize hroom =>
          ends_executeStep hd hframes hloops hsize hroom scope⟩
    | succ cost =>
      rw [Nat.add_sub_add_right]
      exact ih cost

end Lox
