import Lox.Proofs.Loop.Agree
import Lox.Proofs.Loop.Scopes
import Lox.Proofs.Observation
import Lox.Proofs.SmallSteps

/-!
# Small steps side by side

The steps that an evaluator is made of, taken in paired sessions. Operators see no more of a value
than what counterparts have in common, a name leads to counterparts, and what is declared on one side
is declared on the other.

* `Pairing.Values.resembles` — what can be seen of values;
* `Agree.read`, `Agree.write`, `Agree.declare` — names;
* `Agree.newScope`, `Agree.nextIteration`, `Agree.activate` — scopes.
-/

namespace Lox

/-! ### What can be seen of values -/

namespace Pairing.Values

variable {p : Pairing} {v v' : Value}

/-- Counterparts look the same. -/
theorem resembles (h : p.Values v v') : v.Resembles v' := by
  cases h with
  | literal l => exact .literal l
  | native f => exact .native f
  | closure h => exact .closure h.identity_eq h.name_eq h.parameters_eq

end Pairing.Values

namespace Agree

variable {side : Side} {p : Pairing} {inner : Bool} {s s' : ScopeId}

/-! ### Output and input -/

/-- Steps that leave the stores alone. -/
theorem of_consoles {α β : Type} {post : Pairing → α → β → Prop} (hp : p.Valid)
    (rest rest' : Console) (hconsoles : p.Consoles rest rest') {a : α} {b : β}
    (hpost : ∀ q, p.Extends true q → post q a b) :
    Agree side p post (.ok a { p.left with rest := rest })
      (.ok b { p.right with rest := rest' }) := by
  let q : Pairing := p.change { p.left with rest := rest } { p.right with rest := rest' }
  have hext : p.Extends true q := Pairing.extends_change (Store.Grown.refl _) (Store.Grown.refl _)
  have hq : q.Valid := hp.change hp.undisturbed_left hp.undisturbed_right hp.functions_eq hconsoles
  exact .inr ⟨q, hext, hq, .done (hpost q hext)⟩

theorem reports (hp : p.Valid) {act act' : Exec Unit} (h : Reports act) (h' : Reports act') :
    Agree side p (fun _ _ _ => True) (act p.left) (act' p.right) := by
  obtain ⟨events, hact⟩ := h p.left
  obtain ⟨events', hact'⟩ := h' p.right
  rw [hact, hact']
  refine Agree.of_consoles hp _ _ ?_ ?_
  · exact { hp.consoles with }
  · exact fun _ _ => trivial

theorem print (hp : p.Valid) (text : String) :
    Agree side p (fun _ _ _ => True) (Exec.print text p.left) (Exec.print text p.right) :=
  Agree.of_consoles hp { p.left.rest with output := p.left.rest.output ++ text ++ "\n" }
    { p.right.rest with output := p.right.rest.output ++ text ++ "\n" }
    { hp.consoles with output_eq := congrArg (· ++ text ++ "\n") hp.consoles.output_eq }
    fun _ _ => trivial

theorem readClock (hp : p.Valid) (host : Host) :
    Agree side p Pairing.Values (Exec.readClock host p.left) (Exec.readClock host p.right) := by
  have hreadings := hp.consoles.readings_eq
  refine Agree.of_consoles hp { p.left.rest with readings := p.left.rest.readings + 1 }
    { p.right.rest with readings := p.right.rest.readings + 1 }
    { hp.consoles with readings_eq := congrArg (· + 1) hreadings } ?_
  intro q _
  rw [hreadings]
  exact .literal _

/-! ### Names -/

/-- The value of an operation that gives literals. -/
theorem orFail (hp : p.Valid) (line : Int) {r : Except Cause Value}
    (h : ∀ w, r = .ok w → ∃ l, w = .literal l) :
    Agree side p Pairing.Values (Exec.orFail line r p.left) (Exec.orFail line r p.right) := by
  cases r with
  | ok w =>
    obtain ⟨l, rfl⟩ := h w rfl
    exact Agree.pure hp (.literal l)
  | error cause => exact Agree.throw hp (.failed _)

/-- **Reading a variable.** -/
theorem read (hp : p.Valid) (h : p.Aligned inner s s') (name : Token) :
    Agree side p Pairing.Values (Exec.read s name p.left) (Exec.read s' name p.right) := by
  change Agree side p Pairing.Values (Exec.orFail name.line (p.left.store.get s name.lexeme) p.left)
    (Exec.orFail name.line (p.right.store.get s' name.lexeme) p.right)
  have hresolve := h.resolve hp name.lexeme
  unfold Store.get Store.lookup
  generalize p.left.store.resolve s name.lexeme = r at hresolve
  generalize p.right.store.resolve s' name.lexeme = r' at hresolve
  cases hresolve with
  | none => exact Agree.throw hp (.failed _)
  -- the name leads to counterparts or is unknown on both sides
  | some hcell =>
    obtain ⟨owner, hcell⟩ := hcell
    exact Agree.pure hp (hp.values hcell)

/-- **Assigning to a variable.** -/
theorem write (hp : p.Valid) (h : p.Aligned inner s s') (name : Token) {v v' : Value}
    (hv : p.Values v v') :
    Agree side p Pairing.Values (Exec.write s name v p.left) (Exec.write s' name v' p.right) := by
  have hresolve := h.resolve hp name.lexeme
  rw [Exec.write_eq, Exec.write_eq]
  unfold Store.lookup
  generalize p.left.store.resolve s name.lexeme = r at hresolve
  generalize p.right.store.resolve s' name.lexeme = r' at hresolve
  cases hresolve with
  | none => exact Agree.throw hp (.failed _)
  | @some c c' hcell =>
    obtain ⟨owner, hcell⟩ := hcell
    have hconst := hp.const_eq hcell
    -- counterparts are constant together
    by_cases hc : (p.left.store.cell c).const
    · simp only [hconst, hc, if_true]
      exact Agree.throw hp (.failed _)
    · simp only [hconst, hc, Bool.false_eq_true, if_false]
      have hext : p.Extends true (p.write c c' v v') := Pairing.extends_write
      exact .inr ⟨p.write c c' v v', hext, hp.write hcell hv, .done (hv.mono hext)⟩

/-- **Declaring a name** in twins. -/
theorem declare (hp : p.Valid) (hs : p.leftRole s = some (.twin inner s')) (host : Host)
    (name : String) {v v' : Value} (hv : p.Values v v') (const : Bool) :
    Agree side p (fun _ _ _ => True) (Exec.declare host s name v const p.left)
      (Exec.declare host s' name v' const p.right) := by
  rw [Exec.declare_eq, Exec.declare_eq]
  have hext : p.Extends true (p.declare s s' name v v' const) := Pairing.extends_declare
  exact Agree.rebase hext
    (Agree.reports (hp.declare hs hv name const) (reports_emit host _) (reports_emit host _))

/-- **Making closures** over twins. -/
theorem newClosure (hp : p.Valid) (hs : p.leftRole s = some (.twin false s')) (name : String)
    (parameters : List String) {body body' : List Stmt} (hbody : Desugars body body')
    (hnormal : Stmt.AllNormal true body) :
    Agree side p Pairing.Closures (Action.onStore (·.newClosure name parameters body s) p.left)
      (Action.onStore (·.newClosure name parameters body' s') p.right) := by
  let made : Pairing := p.change
    { p.left with store := (p.left.store.newClosure name parameters body s).2 }
    { p.right with store := (p.right.store.newClosure name parameters body' s').2 }
  have hgrown := Store.grown_newClosure p.left.store name parameters body s
  have hgrown' := Store.grown_newClosure p.right.store name parameters body' s'
  have hmade : made.Valid := hp.change ⟨hp.leftOrdered, hgrown, fun _ => rfl, fun _ => rfl⟩
    ⟨hp.rightOrdered, hgrown', fun _ => rfl, fun _ => rfl⟩ (congrArg (· + 1) hp.functions_eq)
    hp.consoles
  refine .inr ⟨made, Pairing.extends_change hgrown hgrown', hmade, ?_⟩
  exact .done (a := (p.left.store.newClosure name parameters body s).1)
    (b := (p.right.store.newClosure name parameters body' s').1)
    ⟨hp.functions_eq, rfl, rfl, hbody, hnormal, hs⟩

/-! ### Scopes -/

/-- **Entering a block.** -/
theorem newScope (hp : p.Valid) (h : p.Aligned inner s s') :
    Agree side p (fun q t t' => q.leftRole t = some (.twin inner t') ∧ q.Aligned inner t t')
      (Action.onStore (·.newScope (some s)) p.left)
      (Action.onStore (·.newScope (some s')) p.right) :=
  .inr ⟨p.openTwins inner s s', Pairing.extends_openTwins hp, hp.openTwins h,
    .done ⟨Pairing.leftRole_openTwins, Pairing.aligned_openTwins hp h⟩⟩

/-- New twins with the same names in them. -/
theorem newScope_declareAll (hp : p.Valid) (h : p.Aligned inner s s')
    {items items' : List (String × Value × Bool)} (hitems : List.Forall₂ p.Items items items') :
    Agree side p (fun q t t' => q.leftRole t = some (.twin inner t') ∧ q.Aligned inner t t')
      (Action.onStore (fun st =>
        ((st.newScope (some s)).1, (st.newScope (some s)).2.declareAll (st.newScope (some s)).1 items))
        p.left)
      (Action.onStore (fun st =>
        ((st.newScope (some s')).1,
          (st.newScope (some s')).2.declareAll (st.newScope (some s')).1 items')) p.right) := by
  have hext : p.Extends true (p.openTwins inner s s') := Pairing.extends_openTwins hp
  -- the new scopes are twins before they hold any name
  have hopened := hp.openTwins h
  obtain ⟨q, hextq, hq, hleft, hright⟩ := hopened.declareAll Pairing.leftRole_openTwins
    (hitems.imp fun _ _ hitem => ⟨hitem.1, hitem.2.1.mono hext, hitem.2.2⟩)
  refine .inr ⟨q, hext.trans hextq, hq, ?_⟩
  change q.Ends _ (.ok _ _) (.ok _ _)
  have hl : (⟨((p.left.store.newScope (some s)).2.declareAll (p.left.store.newScope (some s)).1 items),
    p.left.rest⟩ : Session) = q.left := hleft.symm
  have hr : (⟨((p.right.store.newScope (some s')).2.declareAll
    (p.right.store.newScope (some s')).1 items'), p.right.rest⟩ : Session) = q.right := hright.symm
  rw [hl, hr]
  exact .done ⟨hextq.leftRole Pairing.leftRole_openTwins (.inl rfl),
    (Pairing.aligned_openTwins hp h).mono hopened hextq.outer⟩

/-- **From one pass to the next** on both sides. -/
theorem nextIteration (hp : p.Valid) (h : p.Aligned inner s s') {t t' : ScopeId}
    (ht : p.leftRole t = some (.twin inner t')) :
    Agree side p (fun q u u' => q.leftRole u = some (.twin inner u') ∧ q.Aligned inner u u')
      (Action.onStore (·.nextIteration s t) p.left)
      (Action.onStore (·.nextIteration s' t') p.right) :=
  newScope_declareAll hp h (hp.contents ht (by cases inner <;> rfl))

/-- **Entering a call.** -/
theorem activate (hp : p.Valid) {f f' : Closure} (hf : p.Closures f f') {vs vs' : List Value}
    (hvs : List.Forall₂ p.Values vs vs') :
    Agree side p (fun q t t' => q.leftRole t = some (.twin false t') ∧ q.Aligned false t t')
      (Action.onStore (·.activate f vs) p.left) (Action.onStore (·.activate f' vs') p.right) := by
  refine newScope_declareAll hp (hp.aligned hf.scope) ?_
  rw [Closure.items, Closure.items, hf.parameters_eq]
  generalize f.parameters = names
  -- parameters are bound as long as there are arguments for them
  induction hvs generalizing names with
  | nil => cases names <;> exact .nil
  | cons hv _ ih =>
    cases names with
    | nil => exact .nil
    | cons name names => exact .cons ⟨rfl, hv, rfl⟩ (ih names)

end Agree

end Lox
