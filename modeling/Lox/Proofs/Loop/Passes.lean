import Lox.Proofs.Loop.Alike

/-!
# Loops side by side

A for loop against the same for loop, pass by pass in twins: what the clauses find is the same on both
sides, and the scopes of the next pass are twins again.

* `Alike.pass` — one pass;
* `Alike.forLoop` — the same loop on both sides.
-/

namespace Lox

namespace Alike

variable {side : Side} {p : Pairing} {inner : Bool} {s s' : ScopeId} {host : Host}
  {d d' : Nat → Evaluator} {start : Option Stmt} {condition update : Option Expr}
  {body body' : Stmt}

/-! ### The same loop on both sides -/

theorem goesOn (h : Alike side (d 4) (d' 4)) (hp : p.Valid) (hs : p.Aligned inner s s') :
    Agree side p (fun _ b b' => b' = b)
      ((Lox.forLoop host d start condition update body).goesOn s p.left)
      ((Lox.forLoop host d' start condition update body').goesOn s' p.right) := by
  unfold ForLoop.goesOn
  cases condition with
  | none => exact Agree.pure hp rfl
  | some e =>
    refine Agree.bind (h.evaluate e hp hs) ?_
    intro q v v' _ hq hv
    exact Agree.pure hq hv.resembles.isTruthy_eq

theorem updateClause (h : Alike side (d 4) (d' 4)) (hp : p.Valid) (hs : p.Aligned inner s s') :
    Agree side p (fun _ _ _ => True)
      (ForLoop.clause (Lox.forLoop host d start condition update body).update s p.left)
      (ForLoop.clause (Lox.forLoop host d' start condition update body').update s' p.right) := by
  cases update with
  | none => exact Agree.pure hp trivial
  | some e =>
    refine Agree.bind (h.evaluate e hp hs) ?_
    intro q _ _ _ hq _
    exact Agree.pure hq trivial

/-- The next scope is a twin again. -/
theorem advance (hp : p.Valid) (hs : p.Aligned inner s s') (fresh : Bool) {t t' : ScopeId}
    (ht : p.Aligned inner t t') (hrole : p.leftRole t = some (.twin inner t')) :
    Agree side p (fun q u u' => q.leftRole u = some (.twin inner u') ∧ q.Aligned inner u u')
      ((Lox.forLoop host d start condition update body).advance s fresh t p.left)
      ((Lox.forLoop host d' start condition update body').advance s' fresh t' p.right) := by
  unfold ForLoop.advance
  cases fresh with
  | false => exact Agree.pure hp ⟨hrole, ht⟩
  | true =>
    refine Agree.bind (Agree.nextIteration hp hs hrole) ?_
    rintro q u u' hpq hq ⟨hrole, hu⟩
    refine Agree.bind
      (Agree.reports hq (reports_emitContents host u) (reports_emitContents host u')) ?_
    intro r _ _ hqr hr _
    exact Agree.pure hr ⟨hqr.leftRole hrole (.inl rfl), hu.mono hq hqr.outer⟩

/-- **One pass in twins.** -/
theorem pass (h : Alike side (d 4) (d' 4)) (hp : p.Valid) (hs : p.Aligned inner s s')
    (hbody : body.Desugared body') (hnormal : ∃ inside, body.Normal inside)
    (hplain : body.isDeclaration = false) (hclosed : inner = true → body.declaresFunction = false)
    (fresh : Bool) {t t' : ScopeId} (hrole : p.leftRole t = some (.twin inner t'))
    (ht : p.Aligned inner t t') :
    Agree side p (Agree.Turns
        (fun q t t' => q.leftRole t = some (.twin inner t') ∧ q.Aligned inner t t')
        (fun _ _ _ => True))
      ((Lox.forLoop host d start condition update body).pass s fresh t p.left)
      ((Lox.forLoop host d' start condition update body').pass s' fresh t' p.right) := by
  unfold ForLoop.pass
  refine Agree.bind (goesOn h hp ht) ?_
  intro q goes goes' hpq hq (hgoes : goes' = goes)
  rw [hgoes]
  cases goes with
  | false => exact Agree.pure hq (.done trivial)
  | true =>
    have hadmits : q.Admits inner t t' body :=
      ⟨hnormal, hclosed, fun hdecl => absurd hdecl (by rw [hplain]; nofun)⟩
    refine Agree.bind (h.execute hq (ht.mono hp hpq.outer) hbody hadmits) ?_
    intro r _ _ hqr hr _
    have hpr := hpq.trans hqr
    -- the update runs in the scope of the following pass
    refine Agree.bind (advance hr (hs.mono hp hpr.outer) fresh (ht.mono hp hpr.outer)
      (hpr.leftRole hrole (.inl rfl))) ?_
    rintro v u u' _ hv ⟨hrole, hu⟩
    refine Agree.bind (updateClause h hv hu) ?_
    intro w _ _ hvw hw _
    exact Agree.pure hw (.again ⟨hvw.leftRole hrole (.inl rfl), hu.mono hv hvw.outer⟩)

/-- **The same loop on both sides.** -/
theorem forLoop (h : Alike side (d 4) (d' 4)) (hp : p.Valid) (hs : p.Aligned inner s s')
    (hbody : body.Desugared body') {inside : Bool}
    (hnormal : (Stmt.forLoop start condition update body).Normal inside)
    (hclosed : inner = true → (Stmt.forLoop start condition update body).declaresFunction = false) :
    Agree side p (fun _ _ _ => True)
      ((Lox.forLoop host d start condition update body).run .unfinished host.passes s p.left)
      ((Lox.forLoop host d' start condition update body').run .unfinished host.passes s'
        p.right) := by
  obtain ⟨hstart, -, -, hbodyNormal, hplain⟩ := Stmt.normal_forLoop.1 hnormal
  have hclosedBody : inner = true → body.declaresFunction = false := fun hinner =>
    Stmt.body_declaresFunction (hclosed hinner)
  unfold ForLoop.run
  -- the loop has a scope of its own on both sides
  refine Agree.bind (Agree.newScope hp hs) ?_
  rintro q t t' hpq hq ⟨hrole, ht⟩
  -- the first clause declares its variable in both twins
  have hclause : Agree side q (fun _ _ _ => True)
      (ForLoop.clause (Lox.forLoop host d start condition update body).start t q.left)
      (ForLoop.clause (Lox.forLoop host d' start condition update body').start t' q.right) := by
    cases start with
    | none => exact Agree.pure hq trivial
    | some st =>
      obtain ⟨-, hst⟩ := hstart st rfl
      refine h.execute hq ht (.refl st) ⟨⟨inside, hst⟩, fun hinner => ?_, fun _ => hrole⟩
      have := hclosed hinner
      simp_all [Stmt.declaresFunction]
  refine Agree.bind hclause ?_
  intro r _ _ hqr hr _
  have hrole := hqr.leftRole hrole (.inl rfl)
  -- counterparts bind the same names, so that both sides make copies or neither does
  have hfresh : (r.right.store.bindings t').isEmpty = (r.left.store.bindings t).isEmpty := by
    have hfacing : (Role.twin inner t').facing true = some t' := by cases inner <;> rfl
    have hlength := (hr.bindings hrole hfacing).length_eq
    rw [Bool.eq_iff_iff, List.isEmpty_iff_length_eq_zero, List.isEmpty_iff_length_eq_zero, hlength]
  change Agree side r _
    (iterate .unfinished (ForLoop.pass _ s (!(r.left.store.bindings t).isEmpty)) _ t r.left)
    (iterate .unfinished (ForLoop.pass _ s' (!(r.right.store.bindings t').isEmpty)) _ t' r.right)
  rw [hfresh]
  refine Agree.iterate (p := r)
    (fun q t t' => q.leftRole t = some (.twin inner t') ∧ q.Aligned inner t t') ?_ host.passes r t t'
    (.refl r) hr ⟨hrole, ht.mono hq hqr.outer⟩
  rintro v u u' hrv hv ⟨hu, hu'⟩
  have hpv := (hpq.trans hqr).trans hrv
  exact (pass h hv (hs.mono hp hpv.outer) hbody ⟨inside, hbodyNormal⟩ hplain hclosedBody _ hu
    hu').rebase hrv

end Alike

end Lox
