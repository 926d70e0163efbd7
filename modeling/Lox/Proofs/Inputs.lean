import Lox.Interpreter

/-!
# Inputs

A session is given source texts one after the other, or trees that nobody has read from one.

* `Session.exists_new_eq`, `Session.store_new_eq` — fresh sessions;
* `Session.exists_read_eq`, `Session.interpret_parse` — what becomes of a source text;
* `Input`, `Session.feed` — an input of either kind;
* `Session.feedAll` — a whole session.
-/

namespace Lox

namespace Session

/-! ### Fresh sessions -/

/-- The session in which the clock is declared. -/
def bare : Session :=
  ⟨((Store.empty.newScope none).2.newNative "clock" 0).2, ⟨⟨0⟩, 0, "", [], 0⟩⟩

/-- A fresh session has declared its clock, and has possibly reported it. -/
theorem exists_new_eq (host : Host) : ∃ events, Session.new host =
    { store := (bare.store.declare ⟨0⟩ "clock" (.native ⟨0, "clock", 0⟩) false).2
      rest := { bare.rest with events := events } } := by
  unfold Session.new Exec.declare Exec.emit
  cases host.tracing with
  | false => exact ⟨_, rfl⟩
  | true => exact ⟨_, rfl⟩

/-- **The store of a fresh session** has no name but that of the clock, and no closure. -/
theorem store_new_eq (host : Host) : (Session.new host).store =
    ⟨#[⟨none, [("clock", ⟨0⟩)]⟩], #[⟨.native ⟨0, "clock", 0⟩, false⟩], 1⟩ := by
  unfold Session.new Exec.declare Exec.emit
  cases host.tracing <;> rfl

/-- Nothing has happened in it. -/
theorem exists_rest_new_eq (host : Host) :
    ∃ events, (Session.new host).rest = ⟨⟨0⟩, 0, "", events, 0⟩ := by
  obtain ⟨events, hnew⟩ := exists_new_eq host
  exact ⟨events, congrArg (fun m => m.rest) hnew⟩

theorem globals_new_eq (host : Host) : (Session.new host).rest.globals = ⟨0⟩ := by
  obtain ⟨events, hrest⟩ := exists_rest_new_eq host
  rw [hrest]

variable (host : Host) (m : Session)

/-! ### Source texts -/

/-- Records add events to a session, and nothing else. -/
theorem exists_record_eq (events : List Event) :
    ∃ events', m.record host events = ⟨m.store, { m.rest with events := events' }⟩ := by
  unfold record
  split
  · exact ⟨_, rfl⟩
  · exact ⟨m.rest.events, rfl⟩

/-- **A source text is read** as it is parsed, which adds events to the session and nothing else. -/
theorem exists_read_eq (source : String) : ∃ events,
    m.read host source = (parse host.room source, ⟨m.store, { m.rest with events := events }⟩) := by
  unfold read parse
  cases tokenize source with
  | error e => exact ⟨m.rest.events, rfl⟩
  | ok tokens =>
    simp only
    obtain ⟨visits, hvisits⟩ := m.exists_record_eq host
      (.tokens tokens.toList :: (Reading.ofTokens host.room tokens).visits.map .visit)
    rw [hvisits]
    cases (Reading.ofTokens host.room tokens).statements with
    | error e => exact ⟨visits, rfl⟩
    | ok program =>
      obtain ⟨events, hevents⟩ := exists_record_eq host
        ⟨m.store, { m.rest with events := visits }⟩ [.statements program, .interpreting program.length]
      exact ⟨events, congrArg (Prod.mk (Except.ok program)) hevents⟩

/-- **A source text** is rejected as it is parsed, or its program is run; in front of which events are
all that is added to the session. -/
theorem interpret_parse (source : String) : ∃ events,
    (∃ e, parse host.room source = .error e ∧
      m.interpret host source = (.rejected e, ⟨m.store, { m.rest with events := events }⟩)) ∨
    ∃ program, parse host.room source = .ok program ∧ m.interpret host source =
      executeProgram host ⟨m.store, { m.rest with events := events }⟩ program := by
  obtain ⟨events, hread⟩ := m.exists_read_eq host source
  refine ⟨events, ?_⟩
  rw [interpret, hread]
  cases parse host.room source with
  | error e => exact .inl ⟨e, rfl, rfl⟩
  | ok program => exact .inr ⟨program, rfl, rfl⟩

end Session

/-! ### Whole sessions -/

/-- **What a session is given:** a source text, or a tree that nobody has read from one. -/
inductive Input
  | source (text : String)
  | tree (s : Stmt)

/-- **The program of an input,** which is empty if a source text is rejected. -/
def Input.program (host : Host) : Input → List Stmt
  | .source text => (parse host.room text).toOption.getD []
  | .tree s => [s]

namespace Session

/-- **Gives a session something to run.** -/
def feed (host : Host) (m : Session) : Input → Verdict × Session
  | .source text => m.interpret host text
  | .tree s => m.execute host s

/-- One more input of a session. -/
def feedNext (host : Host) (before : List Verdict × Session) (input : Input) :
    List Verdict × Session :=
  let (verdict, m) := before.2.feed host input
  (before.1 ++ [verdict], m)

/-- **A whole session,** from a fresh one on: the verdicts on its inputs, and what is left. -/
def feedAll (host : Host) (inputs : List Input) : List Verdict × Session :=
  inputs.foldl (feedNext host) ([], Session.new host)

theorem feedAll_append_singleton (host : Host) (inputs : List Input) (input : Input) :
    feedAll host (inputs ++ [input]) = feedNext host (feedAll host inputs) input := List.foldl_append

end Session

end Lox
