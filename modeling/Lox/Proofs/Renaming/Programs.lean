import Lox.Proofs.Observation
import Lox.Proofs.Relocation.Programs
import Lox.Proofs.Renaming.Evaluation
import Mathlib.Logic.Equiv.Basic

/-!
# Renamed programs

It makes no difference what the variables of a program are called. Programs that are run one after
the other in a fresh session print the same when all names are renamed, end in the same way, and
leave the same globals under their new names; only the names of functions must stay, because they
are printed.

* `Verdict.rename` — a verdict, with the name in its error renamed;
* `SameUpTo` — runs that look the same but for names;
* `Session.executeProgram_rename` — one program, from any session;
* `Session.history_rename` — all programs, from a fresh one.
-/

namespace Lox

variable (ρ : Renaming)

/-- **A renamed verdict.** An error is for the same reason and on the same line, and the name of
which it speaks is renamed. -/
def Verdict.rename : Verdict → Verdict
  | ok => ok
  | rejected e => rejected e
  | interrupted i => interrupted (ρ.interrupt i)

/-- **Runs that look the same but for names.** They end in the same way, have printed the same, and
the globals are the same under their new names: in the same order, with values that are printed in
the same way, constant or not as before. -/
structure SameUpTo (run run' : Verdict × Session) : Prop where
  verdict_eq : run'.1 = run.1.rename ρ
  output_eq : run'.2.rest.output = run.2.rest.output
  globals_eq :
    run'.2.globalContents.map (fun (name, value, const) => (name, value.display, const)) =
      run.2.globalContents.map fun (name, value, const) => (ρ.name name, value.display, const)

namespace Session

variable {ρ} (host : Host)

/-- **One program.** The sessions before it are the same but for names, and so are those
behind it. -/
theorem executeProgram_rename {m : Session} (hm : ρ.FixesSession m) {program : List Stmt}
    (hprogram : ρ.FixesAll program) :
    (ρ.session m).executeProgram host.untraced (Stmt.renameAll ρ program) =
        Prod.map (Verdict.rename ρ) ρ.session (m.executeProgram host program) ∧
      ρ.FixesSession (m.executeProgram host program).2 := by
  have hall : ρ.RunsSame
      (executeAll (fun s => (Evaluator.inRoom host).execute s m.rest.globals) program)
      (executeAll (fun s => (Evaluator.inRoom host.untraced).execute s m.rest.globals)
        (Stmt.renameAll ρ program)) :=
    Renaming.runs_executeAll
      (fun s hs => (Renaming.evaluators_recurse host host.room 0).execute s _ hs) hprogram
  obtain ⟨hsame, hkept⟩ := hall m hm
  unfold executeProgram
  change conclude (executeAll (fun s => (Evaluator.inRoom host.untraced).execute s m.rest.globals)
    (Stmt.renameAll ρ program) (ρ.session m)) = _ ∧ _
  rw [← hsame]
  simp only
  cases hact : executeAll (fun s => (Evaluator.inRoom host).execute s m.rest.globals) program m with
  | ok a m' =>
    rw [hact] at hkept
    exact ⟨rfl, hkept.2⟩
  | error e m' =>
    rw [hact] at hkept
    exact ⟨rfl, hkept.2⟩

/-- A session that is the renamed one but for its events looks the same but for names. -/
theorem sameUpTo_of_quiet {run run' : Verdict × Session} (hverdict : run'.1 = run.1.rename ρ)
    (hsession : run'.2.quiet = ρ.session run.2) : SameUpTo ρ run run' where
  verdict_eq := hverdict
  output_eq := by
    rw [show run'.2.rest.output = run'.2.quiet.rest.output from rfl, hsession]
    rfl
  globals_eq := by
    have hcontents : run'.2.globalContents = run.2.globalContents.map (renameItem ρ) := by
      rw [show run'.2.globalContents = run'.2.quiet.globalContents from rfl, hsession]
      exact Store.contents_rename ρ run.2.store run.2.rest.globals
    rw [hcontents, List.map_map]
    refine List.map_congr_left fun item _ => ?_
    simp only [Function.comp, renameItem, Value.display_rename]

/-- **Programs one after the other,** from sessions that are the same but for names. -/
theorem history_of_quiet {m m' : Session} (hm : ρ.FixesSession m) (hsame : m'.quiet = ρ.session m)
    {programs : List (List Stmt)} (hprograms : ∀ program ∈ programs, ρ.FixesAll program) :
    List.Forall₂ (SameUpTo ρ) (m.history host programs)
      (m'.history host (programs.map (Stmt.renameAll ρ))) := by
  induction programs generalizing m m' with
  | nil => exact .nil
  | cons program programs ih =>
    obtain ⟨hprogram, hprograms⟩ := List.forall_mem_cons.1 hprograms
    obtain ⟨hrun, hkept⟩ := executeProgram_rename host hm hprogram
    -- events are left out on both sides, and make no difference to what comes next
    have hquiet := executeProgram_quiet host m' (Stmt.renameAll ρ program)
    rw [hsame, hrun] at hquiet
    have hverdict := (Prod.ext_iff.1 hquiet).1
    have hsession := (Prod.ext_iff.1 hquiet).2
    rw [List.map_cons, history, history]
    exact .cons (sameUpTo_of_quiet hverdict.symm hsession.symm) (ih hkept hsession.symm hprograms)

theorem store_new_rename : (Session.new host).store.rename ρ = (Session.new host).store := by
  rw [store_new_eq, Store.rename, List.map_toArray, List.map_toArray]
  simp only [List.map_cons, List.map_nil, Scope.rename, renameBindings, Prod.map, ρ.clock]
  rfl

theorem fixesSession_new : ρ.FixesSession (Session.new host) := by
  intro cell hcell
  rw [store_new_eq] at hcell
  obtain rfl := Array.mem_singleton.1 hcell
  exact trivial

/-- **Renaming is not observed.** Programs whose names are renamed, the names of functions apart,
look the same but for names at every step of a fresh session. -/
theorem history_rename (ρ : Renaming) (host : Host) {programs : List (List Stmt)}
    (hprograms : ∀ program ∈ programs, ∀ name ∈ Stmt.functionNamesAll program,
      ρ.name name = name) :
    List.Forall₂ (SameUpTo ρ) ((Session.new host).history host programs)
      ((Session.new host).history host (programs.map (Stmt.renameAll ρ))) := by
  have hquiet : (Session.new host).quiet = ρ.session (Session.new host) :=
    congrArg (fun s => (⟨s, { (Session.new host).rest with events := [] }⟩ : Session))
      (store_new_rename host).symm
  exact history_of_quiet host (fixesSession_new host) hquiet hprograms

/-- **The names `x` and `y` exchanged,** in the parameter of a function, in a global that it does
not shadow, and in the name that is missing in the end. -/
theorem history_rename_swap :
    let ρ : Renaming := ⟨Equiv.swap "x" "y", (Equiv.swap "x" "y").injective, by decide⟩
    let name (text : String) : Token := ⟨.identifier, text, none, 0, 1⟩
    let programs : List (List Stmt) :=
      [[.function (name "f") [name "x"] [.returning (name "return") (some (.variable (name "x")))],
          .variable (name "x") (some (.literal (.string "a"))) false],
        [.print (.call (.variable (name "f")) (name ")") [.variable (name "x")]),
          .print (.variable (name "y"))]]
    (∀ program ∈ programs, ∀ name ∈ Stmt.functionNamesAll program, ρ.name name = name) ∧
      List.Forall₂ (SameUpTo ρ) ((Session.new .standard).history .standard programs)
        ((Session.new .standard).history .standard (programs.map (Stmt.renameAll ρ))) := by
  intro ρ name programs
  have hfixed : ∀ program ∈ programs, ∀ name ∈ Stmt.functionNamesAll program,
      ρ.name name = name := by decide
  exact ⟨hfixed, history_rename ρ .standard hfixed⟩

end Session

end Lox
