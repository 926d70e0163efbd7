import Lox.Proofs.Loop.Passes

/-!
# A loop and the block that replaces it

The for loop on the left and the block with the while loop on the right need different room for the
same parts, and an evaluator is no longer any evaluator but that of a host with so much room. Every
pass on the right has an empty scope more; whether passes on the left have scopes of their own is
left open until the end.

* `Evaluator.within` — the evaluator of a host with a given room;
* `Alike.round`, `Alike.replacedPass` — one pass;
* `Alike.replacedShared`, `Alike.replacedCopying` — the whole loop, without and with a variable.
-/

namespace Lox

/-! ### Room -/

/-- The verdict on a run that was cut short says so. -/
theorem Exhausted.isExhausted {r : EStateM.Result Interrupt Session Unit} (h : Exhausted r) :
    (Session.conclude r).1.isExhausted = true := by
  obtain ⟨line, m, rfl⟩ := h
  rfl

/-- **The evaluator with so much room.** -/
def Evaluator.within (host : Host) (room : Nat) : Evaluator := recurse .full (.step host) room 0

theorem Evaluator.within_of_pos (host : Host) {room : Nat} (h : 0 < room) :
    within host room = .step host fun cost => within host (room - max 1 cost) := by
  obtain ⟨room, rfl⟩ := Nat.exists_eq_succ_of_ne_zero (Nat.ne_of_gt h)
  rw [within, recurse]
  congr 1
  funext cost
  rw [recurse_eq_sub, within]
  congr 1
  omega

theorem Evaluator.exhausted_execute (host : Host) (st : Stmt) (s : ScopeId) (m : Session) :
    Exhausted ((Evaluator.within host 0).execute st s m) := ⟨none, m, rfl⟩

theorem Evaluator.exhausted_evaluate (host : Host) (e : Expr) (s : ScopeId) (m : Session) :
    Exhausted ((Evaluator.within host 0).evaluate e s m) := ⟨none, m, rfl⟩

namespace Agree

variable {α β : Type} {side : Side} {p : Pairing} {post : Pairing → α → β → Prop} {host : Host}
  {room : Nat} {s : ScopeId} {m : Session}

/-- A step on the right, which can do without room only if nothing is said about that. -/
theorem executeWithin {post : Pairing → α → Unit → Prop} {st : Stmt}
    {r : EStateM.Result Interrupt Session α} (hroom : side = .left → 0 < room)
    (h : Agree side p post r
      (executeStep host (fun cost => .within host (room - max 1 cost)) st s m)) :
    Agree side p post r ((Evaluator.within host room).execute st s m) := by
  by_cases hpos : 0 < room
  · rw [Evaluator.within_of_pos host hpos]
    exact h
  · obtain rfl := Nat.eq_zero_of_not_pos hpos
    exact .inl (Side.excuses_right (fun hside => hpos (hroom hside))
      (Evaluator.exhausted_execute host st s m))

theorem evaluateWithin {post : Pairing → α → Value → Prop} {e : Expr}
    {r : EStateM.Result Interrupt Session α} (hroom : side = .left → 0 < room)
    (h : Agree side p post r
      (evaluateStep host (fun cost => .within host (room - max 1 cost)) e s m)) :
    Agree side p post r ((Evaluator.within host room).evaluate e s m) := by
  by_cases hpos : 0 < room
  · rw [Evaluator.within_of_pos host hpos]
    exact h
  · obtain rfl := Nat.eq_zero_of_not_pos hpos
    exact .inl (Side.excuses_right (fun hside => hpos (hroom hside))
      (Evaluator.exhausted_evaluate host e s m))

/-- A step on the left. -/
theorem executeWithinLeft {post : Pairing → Unit → β → Prop} {st : Stmt}
    {r' : EStateM.Result Interrupt Session β} (hroom : side = .right → 0 < room)
    (h : Agree side p post
      (executeStep host (fun cost => .within host (room - max 1 cost)) st s m) r') :
    Agree side p post ((Evaluator.within host room).execute st s m) r' := by
  by_cases hpos : 0 < room
  · rw [Evaluator.within_of_pos host hpos]
    exact h
  · obtain rfl := Nat.eq_zero_of_not_pos hpos
    exact .inl (Side.excuses_left (fun hside => hpos (hroom hside))
      (Evaluator.exhausted_execute host st s m))

end Agree

theorem executeAll_singleton (execute : Stmt → Exec Unit) (st : Stmt) :
    executeAll execute [st] = execute st := bind_pure_unit

/-! ### One pass -/

/-- **What a loop keeps** from pass to pass, when all its passes have the scope `t'` on the right. -/
structure Keeps (p : Pairing) (loop : ForLoop Console Interrupt) (s : ScopeId) (fresh inner : Bool)
    (t' : ScopeId) (K : Pairing → ScopeId → Prop) : Prop where
  aligned : ∀ {q t}, p.Extends true q → q.Valid → K q t → q.Aligned inner t t'
  mono : ∀ {q r t}, q.Valid → K q t → q.Extends true r → K r t
  advance : ∀ {q t}, p.Extends true q → q.Valid → K q t → ∃ q' u, q'.Valid ∧ K q' u ∧
    p.Extends true q' ∧ q.Extends false q' ∧ loop.advance s fresh t q.left = .ok u q'.left ∧
    q'.right = q.right

namespace Alike

variable {side : Side} {p q : Pairing} {inner : Bool} {s s' t t' : ScopeId} {host : Host}
  {d : Nat → Evaluator} {start : Option Stmt} {condition update : Option Expr}
  {body body' : Stmt} {room : Nat} {fresh : Bool} {K : Pairing → ScopeId → Prop}

/-- **The condition.** One that is missing holds. -/
theorem replacedCondition (hroom : side = .left → 0 < room)
    (h : Alike side (d 4) (.within host room)) (hp : p.Valid) (ht : p.Aligned inner t t') :
    Agree side p (fun _ goes v => v.isTruthy = goes)
      ((Lox.forLoop host d start condition update body).goesOn t p.left)
      ((Evaluator.within host room).evaluate (condition.getD (.literal (.bool true))) t'
        p.right) := by
  unfold ForLoop.goesOn
  cases condition with
  | none => exact Agree.evaluateWithin hroom (Agree.pure hp rfl)
  | some e =>
    change Agree side p _ _ ((Evaluator.within host room).evaluate e t' p.right)
    -- the clause looks at the value at once, the while loop only afterwards
    rw [← bind_pure ((Evaluator.within host room).evaluate e t')]
    refine Agree.bind (h.evaluate e hp ht) ?_
    intro q v v' _ hq hv
    exact Agree.pure hq hv.resembles.isTruthy_eq

/-- **The update** as a clause and as a statement. -/
theorem replacedUpdate (hroom : side = .left → 0 < room)
    (h : Alike side (d 4) (.within host (room - 1))) (hp : p.Valid) (ht : p.Aligned inner t t') :
    Agree side p (fun _ _ _ => True)
      (ForLoop.clause (Lox.forLoop host d start condition update body).update t p.left)
      (Lox.executeAll (fun st => (Evaluator.within host room).execute st t')
        (update.map Stmt.expression).toList p.right) := by
  cases update with
  | none => exact Agree.pure hp trivial
  | some e =>
    change Agree side p _ _ (Lox.executeAll _ [.expression e] p.right)
    rw [executeAll_singleton]
    refine Agree.executeWithin hroom (Agree.bind (h.evaluate e hp ht) ?_)
    intro q _ _ _ hq _
    exact Agree.pure hq trivial

/-- **The body and the update.** The block around them has a scope of its own, which stays empty; on
the left the loop may go to its next scope in between. -/
theorem round (hroom : side = .left → 3 ≤ room)
    (h : ∀ less, room - 3 ≤ less → less ≤ room → Alike side (d 4) (.within host less))
    (hkeeps : Keeps p (Lox.forLoop host d start condition update body) s fresh inner t' K)
    (hpq : p.Extends true q) (hq : q.Valid) (ht : K q t) (hbody : body.Desugared body')
    (hadmits : ∀ {q : Pairing} {u u' : ScopeId}, q.Admits inner u u' body) :
    Agree side p (fun r u _ => K r u)
      ((do
        (Lox.forLoop host d start condition update body).body t
        let u ← (Lox.forLoop host d start condition update body).advance s fresh t
        ForLoop.clause (Lox.forLoop host d start condition update body).update u
        pure u : Exec ScopeId) q.left)
      ((Evaluator.within host room).execute
        (.block (body' :: (update.map Stmt.expression).toList)) t' q.right) := by
  refine Agree.executeWithin (fun hside => Nat.lt_of_lt_of_le (by decide) (hroom hside)) ?_
  have halign := hkeeps.aligned hpq hq ht
  -- the block opens its scope on the right, while nothing happens on the left
  have hlive := (halign.live hq).2
  let b : ScopeId := ⟨q.right.store.scopes.size⟩
  let r := q.openRight t'
  have hqr : q.Extends true r := Pairing.extends_openRight hq
  have hr : r.Valid := hq.openRight hlive
  have hsealed : r.rightRole b = some .sealed := Pairing.rightRole_openRight
  have hparent : r.right.store.parent? b = some t' :=
    (Store.parent?_newScope ..).trans (if_pos rfl)
  change Agree side p _ ((_ : Exec ScopeId) r.left) (((Evaluator.within host (room - 2)).execute body' b
    >>= fun _ => Lox.executeAll (fun st => (Evaluator.within host (room - 2)).execute st b)
      (update.map Stmt.expression).toList) r.right)
  refine Agree.bindFrom (hpq.trans hqr) ((h (room - 2) (by omega) (by omega)).execute hr
    (.right hsealed hparent (halign.mono hq hqr.outer)) hbody hadmits) ?_
  intro v _ _ hrv hpv hv _
  -- between body and update the left goes to its next scope, while nothing happens on the right
  obtain ⟨w, u, hw, hu, hpw, hvw, hadvance, hright⟩ :=
    hkeeps.advance hpv hv (hkeeps.mono hr (hkeeps.mono hq ht hqr) hrv)
  -- the empty scope is still known when the loop goes to its next scope
  have hsealed' : w.rightRole b = some .sealed :=
    hvw.rightRole (hrv.rightRole hsealed (.inl rfl)) (.inr rfl)
  have hparent' : w.right.store.parent? b = some t' := by
    rw [(hrv.right.trans hvw.right).parent_eq b (hr.rightLive hsealed), hparent]
  change Agree side p _ (EStateM.bind _ _ v.left) _
  rw [EStateM.bind, hadvance, ← hright, ← bind_pure_unit (x := Lox.executeAll _ _)]
  refine Agree.bindFrom hpw (replacedUpdate (fun hside => ?_) (h (room - 2 - 1) (by omega) (by omega))
    hw (.right hsealed' hparent' (hkeeps.aligned hpw hw hu))) ?_
  · have := hroom hside
    omega
  intro x _ _ hwx hpx hx _
  exact (Agree.pure hx (hkeeps.mono hw hu hwx)).rebase hpx

/-- **One pass** of the for loop and of the while loop. -/
theorem replacedPass (hroom : side = .left → 3 ≤ room)
    (h : ∀ less, room - 3 ≤ less → less ≤ room → Alike side (d 4) (.within host less))
    (hkeeps : Keeps p (Lox.forLoop host d start condition update body) s fresh inner t' K)
    (hpq : p.Extends true q) (hq : q.Valid) (ht : K q t) (hbody : body.Desugared body')
    (hadmits : ∀ {q : Pairing} {u u' : ScopeId}, q.Admits inner u u' body) :
    Agree side p (Agree.Turns (fun q u _ => K q u) (fun _ _ _ => True))
      ((Lox.forLoop host d start condition update body).pass s fresh t q.left)
      ((do
        let v ← (Evaluator.within host room).evaluate (condition.getD (.literal (.bool true))) t'
        if v.isTruthy = true then
          (Evaluator.within host room).execute
            (.block (body' :: (update.map Stmt.expression).toList)) t'
          return .again ()
        return .done () : Exec (Turn Unit Unit)) q.right) := by
  unfold ForLoop.pass
  refine Agree.bindFrom hpq (replacedCondition
    (fun hside => Nat.lt_of_lt_of_le (by decide) (hroom hside)) (h room (by omega) le_rfl) hq
    (hkeeps.aligned hpq hq ht)) ?_
  intro r goes v hqr hpr hr (hgoes : v.isTruthy = goes)
  rw [hgoes]
  cases goes with
  | false => exact (Agree.pure hr (.done trivial)).rebase hpr
  | true =>
    have hround := round hroom h hkeeps hpr hr (hkeeps.mono hq ht hqr) hbody hadmits
    -- what the clauses do one after the other is what the block does as a whole
    have hagain := hround.again fun _ (_ _ : Unit) => True
    simpa only [if_true, bind_assoc, pure_bind] using hagain

/-- **All passes.** -/
theorem replacedPasses (hroom : side = .left → 4 ≤ room)
    (h : ∀ less, room - 4 ≤ less → less ≤ room → Alike side (d 4) (.within host less))
    (hkeeps : Keeps p (Lox.forLoop host d start condition update body) s fresh inner t' K)
    (hpq : p.Extends true q) (hq : q.Valid) (ht : K q t) (hbody : body.Desugared body')
    (hadmits : ∀ {q : Pairing} {u u' : ScopeId}, q.Admits inner u u' body) :
    Agree side p (fun _ _ _ => True)
      (iterate .unfinished ((Lox.forLoop host d start condition update body).pass s fresh)
        host.passes t q.left)
      (Lox.executeAll (fun st => (Evaluator.within host room).execute st t')
        [.whileLoop (condition.getD (.literal (.bool true)))
          (.block (body' :: (update.map Stmt.expression).toList))] q.right) := by
  rw [executeAll_singleton]
  refine Agree.executeWithin (fun hside => Nat.lt_of_lt_of_le (by decide) (hroom hside)) ?_
  -- both sides have the same bound on their passes, so that they give up together
  refine Agree.iterate (fun q u _ => K q u) ?_ host.passes q t () hpq hq ht
  intro r u _ hpr hr hu
  have hroom' : side = .left → 3 ≤ room - 1 := by
    intro hside
    have := hroom hside
    omega
  exact replacedPass hroom' (fun less hless hle => h less (by omega) (by omega)) hkeeps hpr hr hu
    hbody hadmits

/-! ### The whole loop -/

/-- Without a variable all passes share one scope on the left as well. -/
theorem keeps_shared {loop : ForLoop Console Interrupt} :
    Keeps p loop s false inner t' fun q u => q.Aligned inner u t' where
  aligned _ _ h := h
  mono hq h hqr := h.mono hq hqr.outer
  advance hpq hq h := ⟨_, _, hq, h, hpq, .refl _, rfl, rfl⟩

/-- With a variable every pass has a copy of its own on the left. -/
theorem keeps_copying (hp : p.Valid) (hs : p.Aligned inner s s')
    (hnew : p.right.store.scopes.size ≤ t'.index) :
    Keeps p (Lox.forLoop host d start condition update body) s true true t'
      fun q u => q.Copying s s' u t' ∧ p.left.store.scopes.size ≤ u.index where
  aligned hpq _ h := h.1.aligned (hs.mono hp hpq.outer)
  mono hq h hqr := ⟨h.1.mono hq hqr, h.2⟩
  advance := by
    rintro q t hpq hq ⟨h, hle⟩
    have hlive := ((hs.mono hp hpq.outer).live hq).1
    obtain ⟨r, u, hr, hu, hqr, hindex, hleft, hright, hkept⟩ := h.advance hq hlive
    -- the scopes of the loop are younger than `p`, which misses neither of them
    have hpr := hkept p hpq (hp.leftRole_eq_none hle) (hp.rightRole_eq_none hnew)
    -- the copy is reported on the left only
    obtain ⟨events, hquiet⟩ := reports_emitContents host u r.left
    let v : Pairing :=
      r.change { r.left with rest := { r.left.rest with events := events } } r.right
    have hrv : ∀ {inner}, r.Extends inner v :=
      Pairing.extends_change (Store.Grown.refl _) (Store.Grown.refl _)
    have hv : v.Valid := hr.change hr.undisturbed_left hr.undisturbed_right hr.functions_eq
      { hr.consoles with }
    refine ⟨v, u, hv, ⟨hu.mono hr hrv, ?_⟩, hpr.trans hrv, hqr.trans hrv, ?_, hright⟩
    · rw [hindex]
      exact hpq.left.scopes_le
    · have hnext : (Action.onStore (·.nextIteration s t) : Exec ScopeId) q.left = .ok u r.left := by
        rw [hindex, hleft]
        rfl
      rw [ForLoop.advance, if_pos rfl]
      change EStateM.bind (Action.onStore (·.nextIteration s t)) _ q.left = _
      rw [EStateM.bind, hnext]
      change EStateM.bind (Exec.emitContents host u) _ r.left = _
      rw [EStateM.bind, hquiet]
      rfl

/-- **A loop without a variable** and the block that replaces it. -/
theorem replacedShared (hroom : side = .left → 4 ≤ room)
    (h : ∀ less, room - 4 ≤ less → less ≤ room → Alike side (d 4) (.within host less))
    (hp : p.Valid) (hs : p.Aligned inner s s')
    (hstart : ∀ st ∈ start, st.isDeclaration = false ∧
      ∀ {q : Pairing} {u u' : ScopeId}, q.Admits inner u u' st)
    (hbody : body.Desugared body')
    (hadmits : ∀ {q : Pairing} {u u' : ScopeId}, q.Admits inner u u' body) :
    Agree side p (fun _ _ _ => True)
      ((Lox.forLoop host d start condition update body).run .unfinished host.passes s p.left)
      ((do
        let t' ← Action.onStore (·.newScope (some s'))
        Lox.executeAll (fun st => (Evaluator.within host room).execute st t')
          (start.toList ++ [.whileLoop (condition.getD (.literal (.bool true)))
            (.block (body' :: (update.map Stmt.expression).toList))]) : Exec Unit) p.right) := by
  let q := p.openSealed s s'
  have hpq : p.Extends true q := Pairing.extends_openSealed hp
  have hq : q.Valid := hp.openSealed hs
  let t : ScopeId := ⟨p.left.store.scopes.size⟩
  let t' : ScopeId := ⟨p.right.store.scopes.size⟩
  have ht : q.Aligned inner t t' := Pairing.aligned_openSealed hp hs
  have hsealed : q.leftRole t = some .sealed := Pairing.leftRole_openSealed
  -- nothing is declared in the scope of the loop, so that its passes share it
  have hpasses : ∀ r, q.Extends true r → r.Valid → Agree side r (fun _ _ _ => True)
      (iterate .unfinished ((Lox.forLoop host d start condition update body).pass s
        (!(r.left.store.bindings t).isEmpty)) host.passes t r.left)
      (Lox.executeAll (fun st => (Evaluator.within host room).execute st t')
        [.whileLoop (condition.getD (.literal (.bool true)))
          (.block (body' :: (update.map Stmt.expression).toList))] r.right) := by
    intro r hqr hr
    rw [hr.leftSealed (hqr.leftRole hsealed (.inl rfl))]
    exact replacedPasses hroom h keeps_shared (.refl r) hr (ht.mono hq hqr.outer) hbody hadmits
  cases start with
  | none => exact (hpasses q (.refl q) hq).rebase hpq
  | some st =>
    obtain ⟨hplain, hst⟩ := hstart st rfl
    change Agree side p _ (EStateM.bind ((d 4).execute st t) _ q.left)
      (EStateM.bind ((Evaluator.within host room).execute st t') _ q.right)
    refine Agree.rebase hpq (Agree.bind
      ((h room (by omega) le_rfl).execute hq ht (.refl st) hst) ?_)
    intro r _ _ hqr hr _
    exact hpasses r hqr hr

/-- The declaration of the variable, which makes the scopes of the loop counterparts. -/
theorem declareCopying (hpq : p.Extends true q) (hq : q.Valid) (ht : p.leftRole t = none)
    (ht' : p.rightRole t' = none) (hrole : q.leftRole t = some (.pass t' []))
    (hrole' : q.rightRole t' = some (.pass t [])) (hparent : q.left.store.parent? t = some s)
    (hparent' : q.right.store.parent? t' = some s') {v v' : Value} (hv : q.Values v v')
    (name : String) (const : Bool) :
    Agree side p (fun r _ _ => r.Copying s s' t t') (Exec.declare host t name v const q.left)
      (Exec.declare host t' name v' const q.right) := by
  obtain ⟨r, hr, hcopying, hleft, hright, hkept⟩ :=
    hq.startCopying hrole hrole' hparent hparent' hv name const
  rw [Exec.declare_eq, Exec.declare_eq, ← hleft, ← hright]
  refine Agree.imp (hkept p hpq ht ht')
    (Agree.reports hr (reports_emit host _) (reports_emit host _)) ?_
  intro u _ _ hru _
  exact hcopying.mono hr hru

/-- **A loop with a variable** and the block that replaces it. -/
theorem replacedCopying {left : Nat} {name : Token} {initial : Option Expr} {const : Bool}
    (hleft : d 4 = .within host left) (hpos : side = .right → 0 < left)
    (hinitial : Alike side (.within host (left - 1)) (.within host (room - 1)))
    (hroom : side = .left → 4 ≤ room)
    (h : ∀ less, room - 4 ≤ less → less ≤ room → Alike side (d 4) (.within host less))
    (hp : p.Valid) (hs : p.Aligned inner s s') (hbody : body.Desugared body')
    (hadmits : ∀ {q : Pairing} {u u' : ScopeId}, q.Admits true u u' body) :
    Agree side p (fun _ _ _ => True)
      ((Lox.forLoop host d (some (.variable name initial const)) condition update body).run
        .unfinished host.passes s p.left)
      ((do
        let t' ← Action.onStore (·.newScope (some s'))
        Lox.executeAll (fun st => (Evaluator.within host room).execute st t')
          [.variable name initial const, .whileLoop (condition.getD (.literal (.bool true)))
            (.block (body' :: (update.map Stmt.expression).toList))] : Exec Unit) p.right) := by
  let q := p.openPass s s'
  have hpq : p.Extends true q := Pairing.extends_openPass hp
  have hq : q.Valid := hp.openPass hs
  let t : ScopeId := ⟨p.left.store.scopes.size⟩
  let t' : ScopeId := ⟨p.right.store.scopes.size⟩
  have hrole : q.leftRole t = some (.pass t' []) := Pairing.leftRole_openPass
  have hrole' : q.rightRole t' = some (.pass t []) := Pairing.rightRole_openPass
  have hparent : q.left.store.parent? t = some s := (Store.parent?_newScope ..).trans (if_pos rfl)
  have hparent' : q.right.store.parent? t' = some s' :=
    (Store.parent?_newScope ..).trans (if_pos rfl)
  have ht : q.Aligned true t t' :=
    -- both scopes are empty so far, and their parents are aligned
    .meet hrole rfl hparent hparent' (hs.mono hp hpq.outer).inside
  have hstart : Agree side p (fun r _ _ => r.Copying s s' t t')
      ((d 4).execute (.variable name initial const) t q.left)
      ((Evaluator.within host room).execute (.variable name initial const) t' q.right) := by
    rw [hleft]
    refine Agree.executeWithinLeft hpos (Agree.executeWithin
      (fun hside => Nat.lt_of_lt_of_le (by decide) (hroom hside)) ?_)
    refine Agree.bindFrom hpq (hinitial.evaluateOption initial hq ht) ?_
    intro r v v' hqr hpr hr hv
    -- the initial value may have made scopes, but has moved none
    have hgrown := hqr.left.parent_eq t (hq.leftLive hrole)
    have hgrown' := hqr.right.parent_eq t' (hq.rightLive hrole')
    exact declareCopying hpr hr (hp.leftRole_eq_none le_rfl) (hp.rightRole_eq_none le_rfl)
      (hqr.leftRole hrole (.inl rfl)) (hqr.rightRole hrole' (.inl rfl)) (hgrown.trans hparent)
      (hgrown'.trans hparent') hv name.lexeme const
  change Agree side p _ (EStateM.bind ((d 4).execute (.variable name initial const) t) _ q.left)
    (EStateM.bind ((Evaluator.within host room).execute (.variable name initial const) t') _ q.right)
  refine Agree.bindFrom (.refl p) hstart ?_
  intro r _ _ _ hpr hr hcopying
  -- the scope of the loop has its variable, so that it is copied in every pass
  have hfresh : (!(r.left.store.bindings t).isEmpty) = true := by
    obtain ⟨_, _, _, hpass, -⟩ := hcopying.pass
    rw [(hr.leftPass hpass).1]
    rfl
  change Agree side p _
    (iterate .unfinished (ForLoop.pass _ s (!(r.left.store.bindings t).isEmpty)) _ t r.left) _
  rw [hfresh]
  exact replacedPasses hroom h (keeps_copying hp hs le_rfl) hpr hr ⟨hcopying, le_rfl⟩ hbody hadmits

end Alike

end Lox
