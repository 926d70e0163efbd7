import Lox.Proofs.Enclosure.Braces
import Lox.Proofs.Enclosure.Evaluation
import Lox.Proofs.Relocation.Programs
import Lox.Proofs.Room.Persistence
import Lox.Proofs.Store.Operation

/-!
# The global scope is only a scope

A source does the same in a fresh session as it does in braces, in another one. What it declares
globally is declared in the scope of the block instead, so that the global scope binds nothing but the
clock afterwards.

A run takes two units of room more in braces. In another room it is the same run, as long as neither
is cut short.

* `Verdict.isCutShort`, `EndsAlike` — what is compared;
* `Session.entered` — a fresh session in the block, `Session.unwrap_entered` without it;
* `Session.execute_block` — a block in a fresh session, with the run of its statements;
* `Session.interpret_braced` — a source in braces;
* `braces_unobservable` — both runs side by side.
-/

namespace Lox

/-! ### What is compared -/

/-- **Was a source cut short?** It was nested too deeply to be read, or its run needed more room. -/
def Verdict.isCutShort : Verdict → Bool
  | rejected (.syntactic (.complaint _ .tooMuchNesting)) => true
  | verdict => verdict.isExhausted

theorem SyntaxError.IsNesting.isCutShort {e : SyntaxError} (h : e.IsNesting) :
    (Verdict.rejected (.syntactic e)).isCutShort = true := by
  obtain ⟨t, rfl⟩ := h
  rfl

/-- **Runs that end alike:** the report with its message, the error with its line, and all that was
printed. -/
structure EndsAlike (run run' : Verdict × Session) : Prop where
  report_eq : run'.1.report = run.1.report
  error_eq : run'.1.error? = run.1.error?
  output_eq : run'.2.rest.output = run.2.rest.output

theorem EndsAlike.trans {run run' run'' : Verdict × Session} (h : EndsAlike run run')
    (h' : EndsAlike run' run'') : EndsAlike run run'' :=
  ⟨h'.report_eq.trans h.report_eq, h'.error_eq.trans h.error_eq, h'.output_eq.trans h.output_eq⟩

/-- What has not been rejected is cut short by its run. -/
theorem EndsAlike.isCutShort_eq {run run' : Verdict × Session} (h : EndsAlike run run')
    (hstatus : run.1.report.status ≠ .compileError) : run'.1.isCutShort = run.1.isExhausted := by
  have hexhausted : run'.1.isExhausted = run.1.isExhausted := by
    rw [Verdict.isExhausted, Verdict.isExhausted, h.error_eq]
  rw [← hexhausted]
  cases hverdict : run'.1 with
  | ok | interrupted i => rfl
  | rejected e =>
    have hreport := h.report_eq
    rw [hverdict] at hreport
    exact absurd (congrArg Report.status hreport).symm hstatus

theorem EndsAlike.symm {run run' : Verdict × Session} (h : EndsAlike run run') :
    EndsAlike run' run := ⟨h.report_eq.symm, h.error_eq.symm, h.output_eq.symm⟩

/-- **A verdict without the block.** -/
def Verdict.unwrap : Verdict → Verdict
  | ok => ok
  | rejected e => rejected e
  | interrupted i => interrupted i.unwrap

/-- The names that are declared globally. -/
def Session.declaredGlobals (m : Session) : List String := m.store.names m.rest.globals

namespace Session

/-- A run without the block ends alike. -/
theorem endsAlike_unwrap (run : Verdict × Session) :
    EndsAlike (Prod.map Verdict.unwrap Session.unwrap run) run := by
  obtain ⟨verdict, m⟩ := run
  cases verdict with
  | ok | rejected e => exact ⟨rfl, rfl, rfl⟩
  | interrupted i => cases i <;> exact ⟨rfl, rfl, rfl⟩

/-- Without the events it ends alike as well. -/
theorem endsAlike_quiet (run : Verdict × Session) : EndsAlike (Prod.map id quiet run) run :=
  ⟨rfl, rfl, rfl⟩

/-- Behind a brace, the lines are the same. -/
theorem endsAlike_behindBrace (run : Verdict × Session) :
    EndsAlike run
      (Prod.map Relocation.behindBrace.verdict Relocation.behindBrace.session run) := by
  obtain ⟨verdict, m⟩ := run
  cases verdict with
  | ok | rejected e => exact ⟨rfl, rfl, rfl⟩
  | interrupted i =>
    cases i with
    | returning v | misplaced node | unfinished => exact ⟨rfl, rfl, rfl⟩
    | failed e =>
      have hline : e.line.map Relocation.behindBrace.line = e.line :=
        (Option.map_congr fun l _ => Int.add_zero l).trans Option.map_id'
      have herror : { e with line := e.line.map Relocation.behindBrace.line } = e :=
        congrArg (RuntimeError.mk e.cause) hline
      have hverdict : Relocation.behindBrace.verdict (.interrupted (.failed e)) =
          .interrupted (.failed e) := congrArg (fun e => Verdict.interrupted (.failed e)) herror
      exact ⟨congrArg Verdict.report hverdict, congrArg Verdict.error? hverdict, rfl⟩

/-! ### A fresh session -/

/-- **A fresh session in the block,** where nothing has been declared. -/
def entered (host : Host) : Session :=
  { Session.new host with store := ((Session.new host).store.newScope (some ⟨0⟩)).2 }

theorem store_entered_eq (host : Host) : (entered host).store =
    ⟨#[⟨none, [("clock", ⟨0⟩)]⟩, ⟨some ⟨0⟩, []⟩], #[⟨.native ⟨0, "clock", 0⟩, false⟩], 1⟩ := by
  rw [entered, store_new_eq]
  rfl

theorem enclosed_entered (host : Host) : (entered host).Enclosed 2 := by
  refine ⟨?_, globals_new_eq host, ?_⟩
  · rw [store_entered_eq]
    refine ⟨rfl, rfl, rfl, fun t ht => ?_, fun cell hcell => ?_⟩
    · exact absurd ht.1 (Nat.not_le_of_lt ht.2)
    · obtain rfl := Array.mem_singleton.1 hcell
      trivial
  · rw [store_entered_eq]
    exact Nat.le_refl 2

/-- **Without the block it is the fresh session.** -/
theorem unwrap_entered (host : Host) : (entered host).unwrap = (Session.new host).quiet := by
  have hstore : (entered host).store.unwrap = (Session.new host).store := by
    rw [store_entered_eq, store_new_eq]
    simp [Store.unwrap, Scope.unwrap, withClock, Cell.unwrap, Value.unwrap]
  exact congrArg (fun s => (⟨s, { (Session.new host).rest with events := [] }⟩ : Session)) hstore

/-! ### What is declared globally -/

theorem Enclosed.declaredGlobals {scopes : Nat} {m : Session} (hm : m.Enclosed scopes) :
    m.declaredGlobals = ["clock"] := by
  rw [Session.declaredGlobals, Store.names, hm.globals_eq, hm.store.outer_bindings]
  rfl

theorem declaredGlobals_new (host : Host) : (Session.new host).declaredGlobals = ["clock"] := by
  rw [declaredGlobals, globals_new_eq, store_new_eq]
  rfl

theorem declaredGlobals_quiet (m : Session) : m.quiet.declaredGlobals = m.declaredGlobals := rfl

/-- A place in the source is no part of them. -/
theorem declaredGlobals_relocate (r : Relocation) (m : Session) :
    (r.session m).declaredGlobals = m.declaredGlobals := rfl

/-! ### Programs -/

/-- **A program in a fresh session** with so much room, without events. -/
def runWithin (host : Host) (room : Nat) (program : List Stmt) : Verdict × Session :=
  conclude (executeAll (fun s => (Evaluator.within host.untraced room).execute s ⟨0⟩) program
    (Session.new host).quiet)

/-- **In more room** it does the same, unless it was cut short. -/
theorem runWithin_of_le {host : Host} {room room' : Nat} {program : List Stmt}
    (hle : room ≤ room') (hfull : (runWithin host room program).1.isExhausted = false) :
    runWithin host room' program = runWithin host room program := by
  obtain hshort | hsame :=
    persists_within host.untraced hle ⟨0⟩ program (Session.new host).quiet
  · exact absurd (hshort.isExhausted.symm.trans hfull) nofun
  · exact congrArg conclude hsame

/-- **A source** that can be read runs as its program. -/
theorem interpret_fresh (host : Host) {source : String} {program : List Stmt}
    (h : parse host.room source = .ok program) :
    Prod.map id quiet ((Session.new host).interpret host source) =
      runWithin host host.room program := by
  rw [← interpret_quiet_of_parse host _ h, executeProgram]
  exact congrArg (fun scope => conclude (executeAll (fun s =>
    (Evaluator.inRoom host.untraced).execute s scope) program (Session.new host).quiet))
    (globals_new_eq host)

/-- **A block in a fresh session.** Without the block it is the run of its statements with two units
of room less. -/
theorem execute_block {host : Host} {room : Nat} (hroom : host.room = room + 1)
    (body : List Stmt) :
    let run := (Session.new host).executeProgram host [.block body]
    run.2.Enclosed 2 ∧
      Prod.map Verdict.unwrap Session.unwrap run = runWithin host (room - 1) body := by
  have hinner : (⟨(Session.new host).store.scopes.size⟩ : ScopeId) = ⟨1⟩ := by
    rw [store_new_eq]
    rfl
  -- the block takes one unit of room, and its statements run at a cost of one more
  have hrun : (Session.new host).executeProgram host [.block body] =
      conclude (executeAll (fun s => (recurse .full (Evaluator.step host) room 1).execute s ⟨1⟩) body
        (entered host)) := by
    rw [← execute_eq, execute, globals_new_eq, Evaluator.inRoom, hroom, ← hinner]
    rfl
  have hscope : (⟨1⟩ : ScopeId).Inside 2 := ⟨Nat.le_refl 1, Nat.lt_succ_self 1⟩
  obtain ⟨hsame, hkept⟩ := Enclosure.runs_executeAll hscope
    (Enclosure.evaluators_recurse host room 1) body (entered host) (enclosed_entered host)
  rw [unwrap_entered, recurse_eq_sub .full (Evaluator.step host.untraced)] at hsame
  intro run
  change run.2.Enclosed 2 ∧ _ = conclude (executeAll (fun s =>
    (recurse .full (Evaluator.step host.untraced) (room - 1) 0).execute s (ScopeId.unwrap ⟨1⟩)) body
    (Session.new host).quiet)
  rw [← hsame, show run = _ from hrun]
  cases hact : executeAll (fun s => (recurse .full (Evaluator.step host) room 1).execute s ⟨1⟩) body
      (entered host) with
  | ok a m =>
    rw [hact] at hkept
    exact ⟨hkept.1, rfl⟩
  | error e m =>
    rw [hact] at hkept
    exact ⟨hkept.1, rfl⟩

/-- The place of a fresh session in the source does not matter. -/
theorem session_new_relocate (r : Relocation) (host : Host) :
    r.session (Session.new host) = (Session.new host).quiet := by
  have hstore : (Session.new host).store.relocate r.move = (Session.new host).store := by
    rw [store_new_eq]
    simp [Store.relocate, Cell.relocate, Value.relocate]
  exact congrArg (fun s => (⟨s, { (Session.new host).rest with events := [] }⟩ : Session)) hstore

/-- **A source in braces** that can be read runs as the block of its statements, behind the brace. -/
theorem interpret_block {host : Host} {source : String} {program : List Stmt}
    (h : parse host.room source =
      .ok [.block (Stmt.relocateAll Relocation.behindBrace.move program)]) :
    Prod.map id quiet ((Session.new host).interpret host source) =
      Prod.map Relocation.behindBrace.verdict Relocation.behindBrace.session
        ((Session.new host).executeProgram host [.block program]) := by
  rw [← interpret_quiet_of_parse host _ h,
    ← executeProgram_relocate Relocation.behindBrace host (Session.new host) [.block program],
    session_new_relocate]
  rfl

/-- A program is not rejected any more. -/
theorem status_runWithin (host : Host) (room : Nat) (program : List Stmt) :
    (runWithin host room program).1.report.status ≠ .compileError := by
  unfold runWithin
  cases executeAll (fun s => (Evaluator.within host.untraced room).execute s ⟨0⟩) program
      (Session.new host).quiet with
  | ok a m => exact nofun
  | error e m => cases e <;> exact nofun

/-- A block without any room. -/
theorem execute_block_full {host : Host} (hroom : host.room = 0) (body : List Stmt) :
    (Session.new host).executeProgram host [.block body] =
      (.interrupted (.failed ⟨.roomExhausted, none⟩), Session.new host) := by
  rw [← execute_eq, execute, Evaluator.inRoom, hroom]
  rfl

/-! ### Sources -/

/-- A source that is nested too deeply is cut short, with nothing having been done. -/
theorem interpret_of_nesting (host : Host) (m : Session) {source : String} {e : SyntaxError}
    (he : e.IsNesting) (h : parse host.room source = .error (.syntactic e)) :
    (m.interpret host source).1.isCutShort = true ∧
      (m.interpret host source).2.declaredGlobals = m.declaredGlobals := by
  have hrejected := interpret_quiet_of_error host m h
  have hverdict : (m.interpret host source).1 = .rejected (.syntactic e) :=
    congrArg Prod.fst hrejected
  have hsession : (m.interpret host source).2.quiet = m.quiet := congrArg Prod.snd hrejected
  rw [← declaredGlobals_quiet, hsession, hverdict]
  exact ⟨he.isCutShort, rfl⟩

variable (host : Host) {room : Nat} {source : String} {program : List Stmt}

/-- **A source that can be read** in some room runs as its program, or it is cut short. -/
theorem interpret_plain (h : parse room source = .ok program) :
    ((Session.new host).interpret host source).1.isCutShort = true ∨
      EndsAlike (runWithin host host.room program) ((Session.new host).interpret host source) := by
  obtain hparse | ⟨-, e, he, hparse⟩ := parse_other_room h host.room
  · right
    rw [← interpret_fresh host hparse]
    exact endsAlike_quiet _
  · exact .inl (interpret_of_nesting host _ he hparse).1

/-- **A block behind the brace** runs as its statements with two units of room less. -/
theorem interpret_inBlock (h : parse host.room source =
      .ok [.block (Stmt.relocateAll Relocation.behindBrace.move program)]) :
    let run := (Session.new host).interpret host source
    run.2.declaredGlobals = ["clock"] ∧ (run.1.isCutShort = true ∧ host.room = 0 ∨
      EndsAlike (runWithin host (host.room - 2) program) run) := by
  intro run
  let block := (Session.new host).executeProgram host [.block program]
  have hrun := interpret_block h
  have hverdict : run.1 = Relocation.behindBrace.verdict block.1 := congrArg Prod.fst hrun
  have hsession : run.2.quiet = Relocation.behindBrace.session block.2 := congrArg Prod.snd hrun
  -- the tokens are farther on than those of the program, which shows in no verdict and no global
  have hglobals : run.2.declaredGlobals = block.2.declaredGlobals := by
    rw [← declaredGlobals_quiet, hsession, declaredGlobals_relocate]
  obtain hzero | ⟨more, hmore⟩ : host.room = 0 ∨ ∃ more, host.room = more + 1 :=
    (Nat.eq_zero_or_eq_succ_pred host.room).imp_right fun h => ⟨_, h⟩
  · -- without room not even the block is entered
    have hblock : block = _ := execute_block_full hzero program
    rw [hglobals, hverdict, hblock]
    exact ⟨declaredGlobals_new host, .inl ⟨rfl, hzero⟩⟩
  · obtain ⟨henclosed, hsame⟩ := execute_block hmore program
    refine ⟨hglobals.trans henclosed.declaredGlobals, .inr ?_⟩
    have hroom : host.room - 2 = more - 1 := by omega
    have halike : EndsAlike (Prod.map id quiet run) run := endsAlike_quiet run
    rw [show Prod.map id quiet run = _ from hrun] at halike
    rw [hroom, ← hsame]
    exact (endsAlike_unwrap _).trans ((endsAlike_behindBrace _).trans halike)

/-- **In braces** a source runs so, or it is cut short for want of room. In either case nothing new is
declared globally. -/
theorem interpret_braced (h : parse room source = .ok program) :
    let run := (Session.new host).interpret host (braced source)
    let block := Stmt.block (Stmt.relocateAll Relocation.behindBrace.move program)
    run.2.declaredGlobals = ["clock"] ∧
      (run.1.isCutShort = true ∧ host.room < 8 * sizeOf [block] ∨
        EndsAlike (runWithin host (host.room - 2) program) run) := by
  intro run block
  obtain hparse | ⟨hlt, e, he, hparse⟩ := parse_braced h host.room
  · obtain ⟨hglobals, hrun⟩ := interpret_inBlock host hparse
    refine ⟨hglobals, hrun.imp_left fun ⟨hshort, hzero⟩ => ⟨hshort, ?_⟩⟩
    rw [hzero]
    simp
  · obtain ⟨hshort, hglobals⟩ := interpret_of_nesting host (Session.new host) he hparse
    exact ⟨hglobals.trans (declaredGlobals_new host), .inl ⟨hshort, hlt⟩⟩

end Session

/-- **The global scope is only a scope.** Take any source that can be read, and run it in a fresh
session, and in braces in another one, whose host may have another room. Unless one of them is cut
short for want of room, both report the same, fail with the same error on the same line if they fail,
and have printed the same. If the source alone is not cut short, the one in braces is not either in
any room that is large enough. And whatever becomes of it, the clock is all that is bound globally in
the second session. -/
theorem braces_unobservable (host : Host) {source : String}
    (hread : ∃ room program, parse room source = .ok program) :
    let plain := (Session.new host).interpret host source
    let inBraces := fun room : Nat => (Session.new { host with room := room }).interpret
      { host with room := room } (braced source)
    (∀ room, plain.1.isCutShort = false → (inBraces room).1.isCutShort = false →
      EndsAlike plain (inBraces room)) ∧
    (plain.1.isCutShort = false →
      ∃ need, ∀ room, need ≤ room → (inBraces room).1.isCutShort = false) ∧
    ∀ room, (inBraces room).2.declaredGlobals = ["clock"] := by
  intro plain inBraces
  obtain ⟨room₀, program, hparse⟩ := hread
  -- what both runs come to, unless they are cut short
  let ran (room : Nat) : Verdict × Session := Session.runWithin host room program
  have hstatus : ∀ room, (ran room).1.report.status ≠ .compileError := fun room =>
    Session.status_runWithin host room program
  -- if the plain source is not cut short, neither is the program that it is read as
  have hplain : plain.1.isCutShort = false →
      EndsAlike (ran host.room) plain ∧ (ran host.room).1.isExhausted = false := by
    intro hfull
    obtain hshort | halike := Session.interpret_plain host hparse
    · exact absurd (hshort.symm.trans hfull) nofun
    · exact ⟨halike, (halike.isCutShort_eq (hstatus _)).symm.trans hfull⟩
  have hbraced := fun room => Session.interpret_braced { host with room := room } hparse
  refine ⟨fun room hfull hfull' => ?_, fun hfull => ?_, fun room => (hbraced room).1⟩
  · obtain ⟨halike, hran⟩ := hplain hfull
    obtain ⟨hshort, -⟩ | halike' := (hbraced room).2
    · exact absurd (hshort.symm.trans hfull') nofun
    · have hran' : (ran (room - 2)).1.isExhausted = false :=
        (halike'.isCutShort_eq (hstatus _)).symm.trans hfull'
      -- neither run was exhausted, so that both rooms are enough and make no difference
      have hsame : ran (room - 2) = ran host.room := by
        obtain hle | hle := Nat.le_total host.room (room - 2)
        · exact Session.runWithin_of_le hle hran
        · exact (Session.runWithin_of_le hle hran').symm
      exact halike.symm.trans (hsame ▸ halike')
  · obtain ⟨-, hran⟩ := hplain hfull
    -- room to run the program below its block, and room to read the block
    let block := Stmt.block (Stmt.relocateAll Relocation.behindBrace.move program)
    refine ⟨max (host.room + 2) (8 * sizeOf [block]), fun room hroom => ?_⟩
    obtain ⟨-, hlt⟩ | halike' := (hbraced room).2
    · exact absurd hlt (Nat.not_lt_of_le (Nat.le_trans (Nat.le_max_right ..) hroom))
    · have hle : host.room ≤ room - 2 :=
        Nat.le_sub_of_add_le (Nat.le_trans (Nat.le_max_left ..) hroom)
      refine (halike'.isCutShort_eq (hstatus _)).trans ?_
      exact (congrArg (fun run => run.1.isExhausted) (Session.runWithin_of_le hle hran)).trans hran

/-- A function that escapes through the clock, which has been declared once more; and an error behind
a comment that the closing brace does not get into. -/
theorem braces_unobservable_clock :
    let source := "fun f() \x7b return clock; \x7d\nvar clock; clock = f;\nprint clock() == f;\nno; // f"
    (∃ room program, parse room source = .ok program) ∧
      ((Session.new .standard).interpret .standard source).1.report.status = .runtimeError ∧
      EndsAlike ((Session.new .standard).interpret .standard source)
        ((Session.new { Host.standard with room := 90 }).interpret
          { Host.standard with room := 90 } (braced source)) ∧
      ((Session.new { Host.standard with room := 90 }).interpret
        { Host.standard with room := 90 } (braced source)).2.declaredGlobals = ["clock"] := by
  intro source
  have hread : ∃ room program, parse room source = .ok program :=
    ⟨90, exists_program (by decide +kernel)⟩
  obtain ⟨halike, -, hglobals⟩ := braces_unobservable .standard hread
  refine ⟨hread, ?_, halike 90 ?_ ?_, hglobals 90⟩
  · decide +kernel
  · decide +kernel
  · decide +kernel

end Lox
