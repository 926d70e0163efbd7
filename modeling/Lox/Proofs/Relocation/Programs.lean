import Lox.Proofs.Relocation.Evaluation
import Lox.Proofs.Scribe.Erasure

/-!
# Relocated programs

A relocated program, run in a relocated session, has the relocated verdict and leaves the relocated
session, with a monitor and without. Relocations one after the other are one relocation of a session;
and where nothing is moved at all, only the events are lost, on which nothing else depends.

* `Relocation.session_after`, `Relocation.monitor_after` — two relocations of a session;
* `Session.quiet` — a session without its events;
* `Monitor.executeProgram_relocate`, `Session.executeProgram_relocate` — programs;
* `Session.feed_quiet`, `Session.foldl_feedNext_quiet` — inputs, of which the events do not matter.
-/

namespace Lox

/-- **A session without its events.** -/
def Session.quiet (m : Session) : Session := { m with rest := { m.rest with events := [] } }

namespace Relocation

variable (r r' : Relocation)

/-! ### Relocations one after the other -/

theorem session_after (m : Session) : (r.after r').session m = r.session (r'.session m) := by
  have hstore : m.store.relocate (r.move ∘ r'.move) = (m.store.relocate r'.move).relocate r.move :=
    (Store.relocate_comp r'.move r.move m.store).symm
  exact congrArg (fun s => (⟨s, { m.rest with events := [] }⟩ : Session)) hstore

theorem activity_after (a : Activity) : (r.after r').activity a = r.activity (r'.activity a) := by
  cases a with
  | node chunk node =>
    exact congrArg (Activity.node chunk) (Node.relocate_comp r'.move r.move node).symm
  | call paren => rfl

theorem snapshot_after (s : Snapshot) : (r.after r').snapshot s = r.snapshot (r'.snapshot s) := by
  have hactive : s.active.map (r.after r').activity = (s.active.map r'.activity).map r.activity := by
    rw [List.map_map]
    exact List.map_congr_left fun a _ => activity_after r r' a
  simp only [snapshot, hactive, session_after]

theorem notes_after (n : Notes) : (r.after r').notes n = r.notes (r'.notes n) := by
  have hactive : n.active.map (r.after r').activity = (n.active.map r'.activity).map r.activity := by
    rw [List.map_map]
    exact List.map_congr_left fun a _ => activity_after r r' a
  have hsnapshots : n.snapshots.map (r.after r').snapshot =
      (n.snapshots.map r'.snapshot).map r.snapshot := by
    rw [List.map_map]
    exact List.map_congr_left fun s _ => snapshot_after r r' s
  have hculprit : (n.culprit.map fun culprit => (culprit.1, culprit.2.relocate (r.after r').move)) =
      (n.culprit.map fun culprit => (culprit.1, culprit.2.relocate r'.move)).map
        fun culprit => (culprit.1, culprit.2.relocate r.move) := by
    rw [Option.map_map]
    refine Option.map_congr fun culprit _ => ?_
    exact congrArg (Prod.mk culprit.1) (Node.relocate_comp r'.move r.move culprit.2).symm
  simp only [notes, hactive, hsnapshots, hculprit]

theorem monitor_after (m : Monitor) : (r.after r').monitor m = r.monitor (r'.monitor m) := by
  unfold monitor
  rw [session_after, notes_after]
  rfl

/-- Where nothing is moved, only the events are lost. -/
theorem session_stay (m : Session) : Relocation.stay.session m = m.quiet := by
  change (⟨m.store.relocate id, _⟩ : Session) = _
  rw [Store.relocate_id]
  rfl

/-- The culprit is the same then. -/
theorem culprit_stay (m : Monitor) :
    (Relocation.stay.monitor m).notes.culprit = m.notes.culprit := by
  change (m.notes.culprit.map fun culprit => (culprit.1, culprit.2.relocate id)) = _
  refine (Option.map_congr fun culprit _ => ?_).trans Option.map_id'
  rw [Node.relocate_id]

/-! ### Verdicts -/

/-- **A relocated verdict.** -/
def verdict : Verdict → Verdict
  | .ok => .ok
  | .rejected e => .rejected e
  | .interrupted i => .interrupted (r.interrupt i)

theorem verdict_stay (v : Verdict) : Relocation.stay.verdict v = v := by
  cases v with
  | ok => rfl
  | rejected e => rfl
  | interrupted i =>
    cases i with
    | returning v => exact congrArg (fun v => Verdict.interrupted (.returning v)) (Value.relocate_id v)
    | failed e =>
      obtain ⟨cause, line⟩ := e
      cases line <;> rfl
    | misplaced node => rfl
    | unfinished => rfl

end Relocation

/-! ### Programs -/

namespace Monitor

variable (r : Relocation) (host : Host) (chunk : Nat)

theorem conclude_relocate (result : EStateM.Result Interrupt Monitor Unit) :
    Session.conclude (Outcome.map r.monitor r.interrupt id result) =
      Prod.map r.verdict r.monitor (Session.conclude result) := by
  cases result <;> rfl

/-- **Programs with a monitor.** -/
theorem executeProgram_relocate (m : Monitor) (program : List Stmt) :
    scribe.executeProgram host.untraced chunk (r.monitor m) (Stmt.relocateAll r.move program) =
      Prod.map r.verdict r.monitor (scribe.executeProgram host chunk m program) := by
  have hall := Relocation.moves_executeAll
    (Relocation.evaluators_evaluator (r := r) host host.room 0) chunk m.rest.console.globals program
  exact (congrArg Session.conclude (hall m)).symm.trans (conclude_relocate r _)

/-- **A source text** that can be parsed is run; in front of which events are all that is added. -/
theorem interpret_of_parse (m : Monitor) {source : String} {program : List Stmt}
    (h : parse host.room source = .ok program) : ∃ events,
      scribe.interpret host chunk m source = scribe.executeProgram host chunk
        ((Machine.mk m.store { m.rest.console with events := events }).noted m.notes) program := by
  obtain ⟨events, hread⟩ := m.plain.exists_read_eq host source
  rw [h] at hread
  refine ⟨events, ?_⟩
  rw [Scribe.interpret, hread]
  rfl

/-- The same source text, with everything relocated. -/
theorem interpret_relocate (m : Monitor) {source : String} {program : List Stmt}
    (h : parse host.room source = .ok program) :
    scribe.executeProgram host.untraced chunk (r.monitor m) (Stmt.relocateAll r.move program) =
      Prod.map r.verdict r.monitor (scribe.interpret host chunk m source) := by
  obtain ⟨events, hinterpret⟩ := interpret_of_parse host chunk m h
  rw [hinterpret, ← executeProgram_relocate]
  rfl

end Monitor

namespace Session

variable (r : Relocation) (host : Host)

/-- **Programs.** -/
theorem executeProgram_relocate (m : Session) (program : List Stmt) :
    (r.session m).executeProgram host.untraced (Stmt.relocateAll r.move program) =
      Prod.map r.verdict r.session (m.executeProgram host program) := by
  -- a monitor makes no difference
  have hplain := Monitor.scribe.executeProgram_plain host 0 (Monitor.ofSession m) program
  have hplain' := Monitor.scribe.executeProgram_plain host.untraced 0
    (r.monitor (Monitor.ofSession m)) (Stmt.relocateAll r.move program)
  rw [Monitor.executeProgram_relocate] at hplain'
  refine hplain'.symm.trans ?_
  rw [show m = (Monitor.ofSession m).plain from rfl, ← hplain]
  rfl

theorem executeProgram_quiet (m : Session) (program : List Stmt) :
    m.quiet.executeProgram host.untraced program =
      Prod.map id quiet (m.executeProgram host program) := by
  have hprogram := executeProgram_relocate .stay host m program
  rw [Relocation.session_stay, show Relocation.stay.move = id from rfl, Stmt.relocateAll_id] at hprogram
  rw [hprogram]
  exact Prod.ext (Relocation.verdict_stay _) (Relocation.session_stay _)

/-! ### Inputs -/

/-- **What a parsed source text does** is what its program does. -/
theorem interpret_quiet_of_parse (m : Session) {source : String} {program : List Stmt}
    (h : parse host.room source = .ok program) :
    m.quiet.executeProgram host.untraced program =
      Prod.map id quiet (m.interpret host source) := by
  obtain ⟨events, ⟨e, hparse, -⟩ | ⟨found, hparse, hinterpret⟩⟩ := m.interpret_parse host source
  · rw [h] at hparse
    contradiction
  · obtain rfl := Except.ok.inj (h.symm.trans hparse)
    rw [hinterpret, ← executeProgram_quiet]
    rfl

/-- **What is rejected** leaves nothing but events. -/
theorem interpret_quiet_of_error (m : Session) {source : String} {e : CompileError}
    (h : parse host.room source = .error e) :
    Prod.map id quiet (m.interpret host source) = (.rejected e, m.quiet) := by
  obtain ⟨events, ⟨e', hparse, hinterpret⟩ | ⟨found, hparse, -⟩⟩ := m.interpret_parse host source
  · obtain rfl := Except.error.inj (h.symm.trans hparse)
    rw [hinterpret]
    rfl
  · rw [h] at hparse
    contradiction

/-- A tree is run like a program of one statement. -/
theorem execute_eq (m : Session) (s : Stmt) : m.execute host s = m.executeProgram host [s] := by
  change conclude ((Evaluator.inRoom host).execute s m.rest.globals m) =
    conclude (EStateM.bind ((Evaluator.inRoom host).execute s m.rest.globals) (fun _ => pure ()) m)
  unfold EStateM.bind
  cases (Evaluator.inRoom host).execute s m.rest.globals m <;> rfl

/-- **The events of a session do not matter** to what it does with an input. -/
theorem feed_quiet {m m' : Session} (h : m.quiet = m'.quiet) (input : Input) :
    Prod.map id quiet (m.feed host input) = Prod.map id quiet (m'.feed host input) := by
  cases input with
  | source text =>
    change Prod.map id quiet (m.interpret host text) = Prod.map id quiet (m'.interpret host text)
    cases hparse : parse host.room text with
    | ok program =>
      rw [← interpret_quiet_of_parse host m hparse, h, interpret_quiet_of_parse host m' hparse]
    | error e =>
      rw [interpret_quiet_of_error host m hparse, h, interpret_quiet_of_error host m' hparse]
  | tree s =>
    change Prod.map id quiet (m.execute host s) = Prod.map id quiet (m'.execute host s)
    rw [execute_eq, execute_eq, ← executeProgram_quiet, h, executeProgram_quiet]

/-- **Nor to a whole series of inputs:** the verdicts on them are the same, whatever came before. -/
theorem foldl_feedNext_quiet (inputs : List Input) (before : List Verdict) (m : Session) :
    ∃ verdicts m₁, inputs.foldl (feedNext host) (before, m) = (before ++ verdicts, m₁) ∧
      ∀ (before' : List Verdict) (m' : Session), m'.quiet = m.quiet → ∃ m₁',
        inputs.foldl (feedNext host) (before', m') = (before' ++ verdicts, m₁') ∧
          m₁'.quiet = m₁.quiet := by
  -- the session before the remaining inputs is another one each time
  induction inputs generalizing before m with
  | nil =>
    refine ⟨[], m, by rw [List.append_nil]; rfl, fun before' m' hm' => ⟨m', ?_, hm'⟩⟩
    rw [List.append_nil]
    rfl
  | cons input inputs ih =>
    obtain ⟨verdicts, m₁, hfold, hsame⟩ :=
      ih (before ++ [(m.feed host input).1]) (m.feed host input).2
    refine ⟨(m.feed host input).1 :: verdicts, m₁, ?_, fun before' m' hm' => ?_⟩
    · rw [List.foldl_cons, List.append_cons]
      exact hfold
    · have hfeed := feed_quiet host hm' input
      have hverdict : (m'.feed host input).1 = (m.feed host input).1 := (Prod.ext_iff.1 hfeed).1
      have hafter : (m'.feed host input).2.quiet = (m.feed host input).2.quiet :=
        (Prod.ext_iff.1 hfeed).2
      obtain ⟨m₁', hfold', hquiet⟩ := hsame (before' ++ [(m'.feed host input).1]) _ hafter
      refine ⟨m₁', ?_, hquiet⟩
      rw [List.foldl_cons, ← hverdict, List.append_cons]
      exact hfold'

end Session

end Lox
