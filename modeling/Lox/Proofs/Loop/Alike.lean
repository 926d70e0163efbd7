import Lox.Proofs.Loop.Steps

/-!
# Evaluators side by side

Two evaluators that cannot be told apart on paired sessions, and what one step makes of them, as far
as both take the same step. A call begins in twins outside of all loops, wherever it is made.

* `Alike` — evaluators that cannot be told apart;
* `Alike.evaluateAll`, `Alike.executeAll` — several expressions or statements;
* `Alike.call` — calls;
* `Alike.evaluateStep` — expressions.
-/

namespace Lox

/-- **A statement that may be executed** in a scope and its counterpart. Inside a loop whose
counterpart makes no copies it makes no closure, and what it declares it declares in twins. -/
structure Pairing.Admits (p : Pairing) (inner : Bool) (s s' : ScopeId) (st : Stmt) : Prop where
  normal : ∃ inside, st.Normal inside
  closed : inner = true → st.declaresFunction = false
  twins : st.isDeclaration = true → p.leftRole s = some (.twin inner s')

/-- **Evaluators that cannot be told apart** as long as the host on one side has enough room. -/
structure Alike (side : Side) (E E' : Evaluator) : Prop where
  evaluate : ∀ {p : Pairing} {inner : Bool} {s s' : ScopeId} (e : Expr), p.Valid →
    p.Aligned inner s s' →
    Agree side p Pairing.Values (E.evaluate e s p.left) (E'.evaluate e s' p.right)
  execute : ∀ {p : Pairing} {inner : Bool} {s s' : ScopeId} {st st' : Stmt}, p.Valid →
    p.Aligned inner s s' → st.Desugared st' → p.Admits inner s s' st →
    Agree side p (fun _ _ _ => True) (E.execute st s p.left) (E'.execute st' s' p.right)

namespace Alike

variable {side : Side} {p : Pairing} {inner : Bool} {s s' : ScopeId} {E E' : Evaluator}

/-! ### Lists and options -/

theorem evaluateAll (h : Alike side E E') (es : List Expr) (hp : p.Valid)
    (hs : p.Aligned inner s s') :
    Agree side p (fun q => List.Forall₂ q.Values)
      (Lox.evaluateAll (fun e => E.evaluate e s) es p.left)
      (Lox.evaluateAll (fun e => E'.evaluate e s') es p.right) := by
  induction es generalizing p with
  | nil => exact Agree.pure hp .nil
  | cons e es ih =>
    refine Agree.bind (h.evaluate e hp hs) ?_
    intro q v v' hpq hq hv
    refine Agree.bind (ih hq (hs.mono hp hpq.outer)) ?_
    intro r vs vs' hqr hr hvs
    exact Agree.pure hr (.cons (hv.mono hqr) hvs)

theorem evaluateOption (h : Alike side E E') (e : Option Expr) (hp : p.Valid)
    (hs : p.Aligned inner s s') :
    Agree side p Pairing.Values (Lox.evaluateOption (fun e => E.evaluate e s) e p.left)
      (Lox.evaluateOption (fun e => E'.evaluate e s') e p.right) := by
  cases e with
  | none => exact Agree.pure hp (.literal .nil)
  | some e => exact h.evaluate e hp hs

/-- **Statements one after the other,** all in twins. -/
theorem executeAll (h : Alike side E E') {body body' : List Stmt} {inside : Bool} (hp : p.Valid)
    (hs : p.Aligned inner s s') (hrole : p.leftRole s = some (.twin inner s'))
    (hbody : Desugars body body') (hnormal : Stmt.AllNormal inside body)
    (hclosed : inner = true → Stmt.anyDeclaresFunction body = false) :
    Agree side p (fun _ _ _ => True) (Lox.executeAll (fun st => E.execute st s) body p.left)
      (Lox.executeAll (fun st => E'.execute st s') body' p.right) := by
  unfold Desugars at hbody
  induction hbody generalizing p with
  | nil => exact Agree.pure hp trivial
  | @cons st st' rest rest' hst _ ih =>
    have hall : inner = true → st.declaresFunction = false ∧ Stmt.anyDeclaresFunction rest = false :=
      fun hinner => by simpa [Stmt.anyDeclaresFunction] using hclosed hinner
    refine Agree.bind (h.execute hp hs hst
      ⟨⟨inside, hnormal.1⟩, fun hinner => (hall hinner).1, fun _ => hrole⟩) ?_
    intro q _ _ hpq hq _
    exact ih hq (hs.mono hp hpq.outer) (hpq.leftRole hrole (.inl rfl)) hnormal.2
      fun hinner => (hall hinner).2

/-! ### Calls -/

variable {d d' : Nat → Evaluator} {host : Host}

/-- The body of a call. -/
theorem body (hd : ∀ cost, Alike side (d cost) (d' cost)) (hp : p.Valid) {f f' : Closure}
    (hf : p.Closures f f') (vs vs' : List Value) (hs : p.Aligned false s s')
    (hrole : p.leftRole s = some (.twin false s')) :
    Agree side p Pairing.Values ((callHooks host d).body f vs s p.left)
      ((callHooks host d').body f' vs' s' p.right) := by
  -- a traced host reports the parameters first, which leaves the pairing as it is
  have hrun : ∀ q, p.Extends true q → q.Valid → Agree side q Pairing.Values
      (Exec.valueOf (Lox.executeAll (fun st => (d 4).execute st s) f.body) q.left)
      (Exec.valueOf (Lox.executeAll (fun st => (d' 4).execute st s') f'.body) q.right) := by
    intro q hpq hq
    exact Agree.valueOf ((hd 4).executeAll hq (hs.mono hp hpq.outer) (hpq.leftRole hrole (.inl rfl))
      hf.body hf.normal nofun)
  rw [callHooks_body, callHooks_body]
  refine Agree.bind (Agree.reports hp (reports_emit host _) (reports_emit host _)) ?_
  intro q _ _ hpq hq _
  by_cases htracing : host.tracing = true
  · simp only [htracing, if_true]
    refine Agree.bind (Agree.reports hq (reports_forM (fun _ => reports_emit host _) _)
      (reports_forM (fun _ => reports_emit host _) _)) ?_
    intro r _ _ hqr hr _
    exact hrun r (hpq.trans hqr) hr
  · simp only [htracing]
    exact hrun q hpq hq

/-- **Calls.** -/
theorem call (hd : ∀ cost, Alike side (d cost) (d' cost)) (hp : p.Valid) (paren : Token)
    {v v' : Value} (hv : p.Values v v') {vs vs' : List Value} (hvs : List.Forall₂ p.Values vs vs') :
    Agree side p Pairing.Values (Lox.call host d paren v vs p.left)
      (Lox.call host d' paren v' vs' p.right) := by
  have hlength := hvs.length_eq
  -- both sides count the same calls in progress, and check the same number of arguments
  change Agree side p Pairing.Values
    ((if p.left.rest.frames = maxFrames then Exec.fail .callDepthExceeded (some paren.line)
      else Exec.inFrame (Exec.located paren.line (invoke (callHooks host d) v vs))) p.left)
    ((if p.right.rest.frames = maxFrames then Exec.fail .callDepthExceeded (some paren.line)
      else Exec.inFrame (Exec.located paren.line (invoke (callHooks host d') v' vs'))) p.right)
  rw [hp.consoles.frames_eq]
  by_cases hfull : p.left.rest.frames = maxFrames
  · rw [if_pos hfull, if_pos hfull]
    exact Agree.throw hp (.failed _)
  · rw [if_neg hfull, if_neg hfull]
    refine Agree.inFrame hp fun q hpq hq _ _ => Agree.located _ ?_
    have hvs := hvs.imp fun _ _ hw => hw.mono hpq
    cases hv.mono hpq with
    | literal l => exact Agree.throw hq (.failed _)
    | native f =>
      unfold invoke
      simp only [hlength]
      split
      · refine Agree.bind (Agree.reports hq (reports_emit host _) (reports_emit host _)) ?_
        intro r _ _ _ hr _
        exact Agree.readClock hr host
      · exact Agree.throw hq (.failed _)
    | @closure f f' hf =>
      -- closures that are alike have the same parameters, so that both calls are refused or neither
      have harity : f'.arity = f.arity := congrArg List.length hf.parameters_eq
      unfold invoke
      simp only [hlength, harity, hf.name_eq]
      split
      · refine Agree.bind (Agree.activate hq hf hvs) ?_
        rintro r t t' hqr hr ⟨hrole, ht⟩
        exact body hd hr (hf.mono hqr) vs vs' ht hrole
      · exact Agree.throw hq (.failed _)

/-! ### Expressions -/

/-- **One step keeps expressions alike.** -/
theorem evaluateStep (hd : ∀ cost, Alike side (d cost) (d' cost)) (hp : p.Valid)
    (hs : p.Aligned inner s s') (e : Expr) :
    Agree side p Pairing.Values (Lox.evaluateStep host d e s p.left)
      (Lox.evaluateStep host d' e s' p.right) := by
  cases e with
  | literal value => exact Agree.pure hp (.literal value)
  | grouping e => exact (hd 1).evaluate e hp hs
  | «variable» name => exact Agree.read hp hs name
  | assign name value =>
    refine Agree.bind ((hd 1).evaluate value hp hs) ?_
    intro q v v' hpq hq hv
    exact Agree.write hq (hs.mono hp hpq.outer) name hv
  | logical left operator right =>
    refine Agree.bind ((hd 1).evaluate left hp hs) ?_
    intro q v v' hpq hq hv
    -- both sides find the left operand truthy, or neither does
    rw [hv.resembles.isTruthy_eq]
    split
    · exact Agree.pure hq hv
    · exact (hd 1).evaluate right hq (hs.mono hp hpq.outer)
  | unary operator right =>
    refine Agree.bind ((hd 1).evaluate right hp hs) ?_
    intro q v v' hpq hq hv
    -- values that look the same have the same result, or the same complaint
    rw [hv.resembles.applyUnary_eq]
    exact Agree.orFail hq operator.line fun _ => applyUnary_literal
  | binary left operator right =>
    refine Agree.bind ((hd 1).evaluate left hp hs) ?_
    intro q v v' hpq hq hv
    refine Agree.bind ((hd 1).evaluate right hq (hs.mono hp hpq.outer)) ?_
    intro r w w' hqr hr hw
    rw [(hv.mono hqr).resembles.applyBinary_eq hw.resembles]
    exact Agree.orFail hr operator.line fun _ => applyBinary_literal
  | call callee paren arguments =>
    refine Agree.bind ((hd 1).evaluate callee hp hs) ?_
    intro q v v' hpq hq hv
    refine Agree.bind ((hd 2).evaluateAll arguments hq (hs.mono hp hpq.outer)) ?_
    intro r vs vs' hqr hr hvs
    -- both callees and all arguments are known from the larger pairing
    exact call hd hr paren (hv.mono hqr) hvs
  | foreign description => exact Agree.throw hp (.misplaced _)

end Alike

end Lox
