import Lox.Proofs.Grammar.Soundness
import Lox.Proofs.Loop.Simulation
import Lox.Proofs.Observation

/-!
# Desugaring of for loops

A for loop that is written as a block with a while loop in it does the same, as far as anybody can
see, unless closures are made in the body of a loop that declares a variable.

* `Pairing.initial` — two fresh sessions;
* `same_history` — programs one after the other in paired sessions;
* `desugaring_unobservable` — desugaring changes nothing that can be observed;
* `desugaring_fits`, `sugared_fits` — how much room the one form needs for what the other does.
-/

namespace Lox

/-! ### Fresh sessions -/

/-- **Two bare sessions,** with the global scopes as twins. -/
def Pairing.initial : Pairing where
  left := Session.bare
  right := Session.bare
  leftRole := fun s => if s = ⟨0⟩ then some (.twin false ⟨0⟩) else none
  rightRole := fun s => if s = ⟨0⟩ then some (.twin false ⟨0⟩) else none
  leftCell := fun _ => none
  rightCell := fun _ => none

theorem Session.ordered_bare : Session.bare.store.Ordered := by
  intro t parent h
  change (Store.empty.newScope none).2.parent? t = some parent at h
  rw [Store.parent?_newScope] at h
  split at h
  · contradiction
  · simp [Store.parent?, Store.empty] at h

theorem Pairing.valid_initial : Pairing.initial.Valid := by
  -- the global scopes are twins, and nothing else has a role yet
  have hrole : ∀ {s role}, Pairing.initial.leftRole s = some role →
      s = ⟨0⟩ ∧ role = .twin false ⟨0⟩ := by
    intro s role h
    obtain ⟨hs, hrole⟩ := Option.ite_none_right_eq_some.1 h
    exact ⟨hs, (Option.some_inj.1 hrole).symm⟩
  have hrole' : ∀ {s role}, Pairing.initial.rightRole s = some role →
      s = ⟨0⟩ ∧ role = .twin false ⟨0⟩ := by
    intro s role h
    obtain ⟨hs, hrole⟩ := Option.ite_none_right_eq_some.1 h
    exact ⟨hs, (Option.some_inj.1 hrole).symm⟩
  have hglobal : Pairing.initial.leftRole ⟨0⟩ = some (.twin false ⟨0⟩) := rfl
  have hglobal' : Pairing.initial.rightRole ⟨0⟩ = some (.twin false ⟨0⟩) := rfl
  constructor
  case leftOrdered => exact Session.ordered_bare
  case rightOrdered => exact Session.ordered_bare
  case leftLive =>
    intro s role h
    obtain ⟨rfl, -⟩ := hrole h
    exact Nat.zero_lt_one
  case rightLive =>
    intro s role h
    obtain ⟨rfl, -⟩ := hrole' h
    exact Nat.zero_lt_one
  case twin_iff =>
    intro inner s s'
    constructor
    · intro h
      obtain ⟨rfl, ⟨⟩⟩ := hrole h
      exact hglobal'
    · intro h
      obtain ⟨rfl, ⟨⟩⟩ := hrole' h
      exact hglobal
  -- no scope is that of a pass, none is sealed, and there are no cells
  case leftPass => exact fun h => absurd (hrole h).2 nofun
  case rightPass => exact fun h => absurd (hrole' h).2 nofun
  case leftSealed => exact fun h => absurd (hrole h).2 nofun
  case rightSealed => exact fun h => absurd (hrole' h).2 nofun
  case bindings =>
    intro s s' role h hfacing
    obtain ⟨rfl, rfl⟩ := hrole h
    cases hfacing
    exact .nil
  case cell_iff => exact ⟨nofun, nofun⟩
  case leftCellLive => exact nofun
  case rightCellLive => exact nofun
  case const_eq => exact nofun
  case values => exact nofun
  case aligned =>
    intro s s' h
    obtain ⟨rfl, ⟨⟩⟩ := hrole h
    -- the chains end where they begin
    exact .root hglobal rfl rfl rfl
  case functions_eq => rfl
  case consoles => exact ⟨hglobal, rfl, rfl, rfl⟩

/-- **Fresh sessions are paired.** -/
theorem exists_pairing_new (host : Host) :
    ∃ p : Pairing, p.Valid ∧ p.left = Session.new host ∧ p.right = Session.new host := by
  obtain ⟨events, hnew⟩ := Session.exists_new_eq host
  rw [hnew]
  let clock : Value := .native ⟨0, "clock", 0⟩
  let declared : Pairing := Pairing.initial.declare ⟨0⟩ ⟨0⟩ "clock" clock clock false
  have hglobal : Pairing.initial.leftRole ⟨0⟩ = some (.twin false ⟨0⟩) := rfl
  have hdeclared : declared.Valid :=
    Pairing.valid_initial.declare hglobal (.native ⟨0, "clock", 0⟩) "clock" false
  let m : Session :=
    { declared.left with rest := { declared.left.rest with events := events } }
  exact ⟨declared.change m m, hdeclared.change hdeclared.undisturbed_left
    hdeclared.undisturbed_right rfl { hdeclared.consoles with }, rfl, rfl⟩

/-! ### Programs one after the other -/

/-- Outcomes that are alike look the same. -/
theorem Pairing.Ends.sameObservation {q : Pairing} (hq : q.Valid)
    {r r' : EStateM.Result Interrupt Session Unit} {post : Unit → Unit → Prop}
    (h : q.Ends post r r') :
    SameObservation (Session.conclude r) (Session.conclude r') ∧
      (Session.conclude r).2 = q.left ∧ (Session.conclude r').2 = q.right := by
  -- the global scopes are twins, whose contents look the same
  have hglobals : List.Forall₂ (fun x y => y.1 = x.1 ∧ x.2.1.Resembles y.2.1 ∧ y.2.2 = x.2.2)
      q.left.globalContents q.right.globalContents :=
    (hq.contents hq.consoles.globals rfl).imp fun _ _ hitem =>
      ⟨hitem.1, hitem.2.1.resembles, hitem.2.2⟩
  cases h with
  | done => exact ⟨⟨rfl, rfl, hq.consoles.output_eq, hglobals⟩, rfl, rfl⟩
  | failed he =>
    cases he with
    | returning hv => exact ⟨⟨rfl, rfl, hq.consoles.output_eq, hglobals⟩, rfl, rfl⟩
    | failed e => exact ⟨⟨rfl, rfl, hq.consoles.output_eq, hglobals⟩, rfl, rfl⟩
    | misplaced node => exact ⟨⟨rfl, rfl, hq.consoles.output_eq, hglobals⟩, rfl, rfl⟩
    | unfinished => exact ⟨⟨rfl, rfl, hq.consoles.output_eq, hglobals⟩, rfl, rfl⟩

/-- **One program** in paired sessions. -/
theorem agree_executeProgram {side : Side} {p : Pairing} {host : Host} {room' : Nat}
    (hroomy : side.Roomy host.room room') (hp : p.Valid) {program program' : List Stmt}
    (hprogram : Desugars program program') (hnormal : Stmt.AllNormal false program) :
    Agree side p (fun _ _ _ => True)
      (executeAll (fun st => (Evaluator.inRoom host).execute st p.left.rest.globals) program p.left)
      (executeAll (fun st => (Evaluator.inRoom { host with room := room' }).execute st
        p.right.rest.globals) program' p.right) :=
  (alike_within host host.room room' hroomy).executeAll hp (hp.aligned hp.consoles.globals)
    hp.consoles.globals hprogram hnormal nofun

/-- **Programs one after the other** in paired sessions look the same, unless one of them is cut
short on a side that may have too little room. -/
theorem same_history {side : Side} {host : Host} {room' : Nat}
    (hroomy : side.Roomy host.room room') {programs programs' : List (List Stmt)}
    (hprograms : List.Forall₂ Desugars programs programs')
    (hnormal : ∀ program ∈ programs, Stmt.AllNormal false program) {p : Pairing} (hp : p.Valid)
    (hleft : side ≠ .right → ∀ run ∈ p.left.history host programs, run.1.isExhausted = false)
    (hright : side ≠ .left →
      ∀ run ∈ p.right.history { host with room := room' } programs', run.1.isExhausted = false) :
    List.Forall₂ SameObservation (p.left.history host programs)
      (p.right.history { host with room := room' } programs') := by
  induction hprograms generalizing p with
  | nil => exact .nil
  | @cons program program' programs programs' hprogram _ ih =>
    rw [Session.history] at hleft hright ⊢
    rw [Session.history]
    obtain hexcused | ⟨q, -, hq, hends⟩ :=
      agree_executeProgram hroomy hp hprogram (hnormal _ List.mem_cons_self)
    · -- the program would have been cut short
      obtain ⟨hside, hcut⟩ | ⟨hside, hcut⟩ := hexcused.cases
      · have hfull := hleft hside _ List.mem_cons_self
        exact absurd (hcut.isExhausted.symm.trans hfull) nofun
      · have hfull := hright hside _ List.mem_cons_self
        exact absurd (hcut.isExhausted.symm.trans hfull) nofun
    · obtain ⟨hsame, hl, hr⟩ := hends.sameObservation hq
      refine .cons hsame ?_
      change (p.left.executeProgram host program).2 = q.left at hl
      change (p.right.executeProgram { host with room := room' } program').2 = q.right at hr
      rw [hl, hr]
      refine ih (fun other hother => hnormal other (List.mem_cons_of_mem _ hother)) hq ?_ ?_
      · intro hside run hrun
        exact hleft hside run (List.mem_cons_of_mem _ (by rw [hl]; exact hrun))
      · intro hside run hrun
        exact hright hside run (List.mem_cons_of_mem _ (by rw [hr]; exact hrun))

/-! ### Programs that were read -/

section Read

variable (host : Host) {room' : Nat} {programs programs' : List (List Stmt)}

/-- Programs that were read, in fresh sessions. -/
theorem same_history_new {side : Side} (hroomy : side.Roomy host.room room')
    (hread : ∀ program ∈ programs, ∃ room source, parse room source = .ok program)
    (hprograms : List.Forall₂ Desugars programs programs')
    (hleft : side ≠ .right →
      ∀ run ∈ (Session.new host).history host programs, run.1.isExhausted = false)
    (hright : side ≠ .left → ∀ run ∈ (Session.new { host with room := room' }).history
      { host with room := room' } programs', run.1.isExhausted = false) :
    List.Forall₂ SameObservation ((Session.new host).history host programs)
      ((Session.new { host with room := room' }).history { host with room := room' } programs') := by
  have hnormal : ∀ program ∈ programs, Stmt.AllNormal false program := by
    intro program hprogram
    obtain ⟨room, source, hparse⟩ := hread program hprogram
    exact normal_of_parse hparse
  -- the room has no part in what a fresh session is
  have hnew : Session.new { host with room := room' } = Session.new host := rfl
  obtain ⟨p, hp, hl, hr⟩ := exists_pairing_new host
  rw [hnew] at hright ⊢
  have hsame := same_history hroomy hprograms hnormal hp
  rw [hl, hr] at hsame
  exact hsame hleft hright

/-- **Desugaring cannot be observed.** Of programs that were read, any for loops may be written as
blocks, unless a loop that declares a variable has a function declaration in its body. As long as
neither form runs out of room, both look the same after every program. -/
theorem desugaring_unobservable
    (hread : ∀ program ∈ programs, ∃ room source, parse room source = .ok program)
    (hprograms : List.Forall₂ Desugars programs programs')
    (hroom : ∀ run ∈ (Session.new host).history host programs, run.1.isExhausted = false)
    (hroom' : ∀ run ∈ (Session.new { host with room := room' }).history { host with room := room' }
      programs', run.1.isExhausted = false) :
    List.Forall₂ SameObservation ((Session.new host).history host programs)
      ((Session.new { host with room := room' }).history { host with room := room' } programs') := by
  have hroomy : Side.either.Roomy host.room room' := trivial
  exact same_history_new host hroomy hread hprograms (fun _ => hroom) fun _ => hroom'

/-- A loop whose variable ends it, in two standard hosts with different room. -/
theorem desugaring_unobservable_toggle : ∃ program,
    parse 40 "for (var i; !i; i = true) print i;" = .ok program ∧
    List.Forall₂ SameObservation
      ((Session.new .standard).history .standard [program])
      ((Session.new { Host.standard with room := 20 }).history { Host.standard with room := 20 }
        [desugarAll program]) := by
  -- neither form runs out of room
  have hfull : ((parse 40 "for (var i; !i; i = true) print i;").toOption.any fun program =>
      ((Session.new .standard).history .standard [program]).all
        (fun run => !run.1.isExhausted) &&
      ((Session.new { Host.standard with room := 20 }).history { Host.standard with room := 20 }
        [desugarAll program]).all (fun run => !run.1.isExhausted)) = true := by decide +kernel
  cases hparse : parse 40 "for (var i; !i; i = true) print i;" with
  | error e =>
    rw [hparse] at hfull
    contradiction
  | ok program =>
    rw [hparse] at hfull
    obtain ⟨hroom, hroom'⟩ := Bool.and_eq_true_iff.1 hfull
    simp only [List.all_eq_true, Bool.not_eq_true'] at hroom hroom'
    refine ⟨program, rfl, ?_⟩
    refine desugaring_unobservable .standard ?_ (.cons (desugars_desugarAll program) .nil) hroom
      hroom'
    intro other hother
    rw [List.mem_singleton.1 hother]
    exact ⟨40, _, hparse⟩

/-- **The desugared form needs little more room.** If the original does not run out of room, neither
does the desugared form with more than twice as much. -/
theorem desugaring_fits (hmore : 2 * host.room + 8 ≤ room')
    (hread : ∀ program ∈ programs, ∃ room source, parse room source = .ok program)
    (hprograms : List.Forall₂ Desugars programs programs')
    (hroom : ∀ run ∈ (Session.new host).history host programs, run.1.isExhausted = false) :
    List.Forall₂ SameObservation ((Session.new host).history host programs)
      ((Session.new { host with room := room' }).history { host with room := room' } programs') := by
  have hroomy : Side.left.Roomy host.room room' := .inr hmore
  exact same_history_new host hroomy hread hprograms (fun _ => hroom) (absurd rfl)

/-- **The original needs little more room** than the desugared form. -/
theorem sugared_fits (hmore : 2 * room' + 8 ≤ host.room)
    (hread : ∀ program ∈ programs, ∃ room source, parse room source = .ok program)
    (hprograms : List.Forall₂ Desugars programs programs')
    (hroom' : ∀ run ∈ (Session.new { host with room := room' }).history { host with room := room' }
      programs', run.1.isExhausted = false) :
    List.Forall₂ SameObservation ((Session.new host).history host programs)
      ((Session.new { host with room := room' }).history { host with room := room' } programs') := by
  have hroomy : Side.right.Roomy host.room room' := .inr hmore
  exact same_history_new host hroomy hread hprograms (absurd rfl) fun _ => hroom'

end Read

end Lox
