import Lox.Proofs.Lexical.Preservation
import Lox.Proofs.Scribe.Erasure

/-!
# Scopes mirror nesting

Along every session, whatever becomes of its source texts, a node is only ever run in a scope whose
chain repeats the constructs around the node: one scope for each block, for loop and function that
encloses it in its source, in the same order, and the global scope behind them. No scope of a caller
is on the chain unless its construct is around the node.

* `Surveyor.sound_new` — a fresh session;
* `Surveyor.sound_interpret`, `Surveyor.sound_feedAll` — a source text, and a whole session;
* `chain_mirrors_nesting` — what this says about every node that is run.
-/

namespace Lox

namespace Surveyor

variable {m : Surveyor}

/-- A fresh session has one scope, the global one, and one value, the clock. -/
theorem sound_new (host : Host) : Sound (scribe.new host) := by
  obtain ⟨events, hnew⟩ := Session.exists_new_eq host
  rw [Scribe.new, hnew]
  constructor
  case ordered =>
    intro t p htp
    change (Session.bare.store.declare ⟨0⟩ "clock" (.native ⟨0, "clock", 0⟩) false).2.parent? t =
      some p at htp
    rw [Store.parent?_declare] at htp
    change (Store.empty.newScope none).2.parent? t = some p at htp
    rw [Store.parent?_newScope] at htp
    split at htp
    · cases htp
    · simp [Store.parent?, Store.empty] at htp
  case globals_lt => exact Nat.zero_lt_one
  case globals_parent => rfl
  case globals_origin => rfl
  case values =>
    -- the only cell is that of the clock
    refine Store.Keeps.declare (fun c hc => ?_) trivial _ _ _
    simp [Session.bare, Store.newNative, Store.newScope, Store.empty] at hc
  case sightings => exact fun v hv => absurd hv List.not_mem_nil

section Programs

variable (m) (program : List Stmt)

/-- The surveyed session with one more program. -/
def withProgram : Surveyor := scribe.told (.program program) m

variable {m}

theorem At.withProgram {p : Place} {node : Node} {scope : ScopeId} (h : At m p node scope) :
    At (m.withProgram program) p node scope := by
  have hchunk := chunk_lt_of_nodeAt h.node_eq
  -- the place is in an old program, which a new one leaves alone
  refine ⟨(nodeOnWay_append hchunk [program] p.way).trans h.node_eq, h.mirrors.lt, ?_,
    h.mirrors.last⟩
  refine h.mirrors.origins.trans ?_
  rw [show enclosing (m.withProgram program).survey.programs p = enclosing m.survey.programs p from
    enclosingOnWay_append hchunk [program] p.way]

theorem Sound.withProgram (hm : Sound m) : Sound (m.withProgram program) where
  ordered := hm.ordered
  globals_lt := hm.globals_lt
  globals_parent := hm.globals_parent
  globals_origin := hm.globals_origin
  values := hm.values.mono fun v hv => by
    cases v with
    | closure f =>
      obtain ⟨hidentity, name, parameters, hat⟩ := hv
      exact ⟨hidentity, name, parameters, hat.withProgram program⟩
    | literal value => trivial
    | native f => trivial
  sightings v hv := by
    -- a way that has led to a node still does, as programs are only added
    have h := hm.sightings v hv
    have hchunk := chunk_lt_of_nodeAt h.node_eq
    refine ⟨(nodeOnWay_append hchunk [program] v.place.way).trans h.node_eq, ?_, h.last, h.lt,
      h.ordered, h.le, h.globals_eq⟩
    refine h.origins.trans ?_
    rw [show enclosing (m.withProgram program).survey.programs v.place =
      enclosing m.survey.programs v.place from enclosingOnWay_append hchunk [program] _]

/-- The top of a new program mirrors the global scope. -/
theorem Sound.at_program (hm : Sound m) (number : Nat) :
    At (m.withProgram program) (scribe.root m.survey number) (.program program)
      m.rest.console.globals := by
  -- no construct is around a whole program, and the global scope has no parent
  have hchain : m.store.chain m.rest.console.globals = [m.rest.console.globals] := by
    rw [hm.ordered.chain_eq, hm.globals_parent]
  refine ⟨?_, hm.globals_lt, ?_, ?_⟩
  · change (m.survey.programs ++ [program])[m.survey.programs.length]?.map Node.program = _
    rw [List.getElem?_concat_length]
    rfl
  · change (m.store.chain m.rest.console.globals).map m.survey.origin = _
    rw [hchain, List.map_singleton, hm.globals_origin]
    rfl
  · change (m.store.chain m.rest.console.globals).getLast? = _
    rw [hchain]
    rfl

end Programs

/-- What an input leaves behind, whether it was interrupted or not. -/
theorem Preserves.conclude {act : Surveyed Unit} (h : Preserves m (fun _ _ => True) act) :
    Sound (Session.conclude (act m)).2 ∧ Later m (Session.conclude (act m)).2 := by
  unfold Preserves at h
  cases hact : act m with
  | ok _ m' =>
    rw [hact] at h
    exact ⟨h.1, h.2.1⟩
  | error e m' =>
    rw [hact] at h
    exact ⟨h.1, h.2.1⟩

variable (host : Host) (number : Nat)

/-- **A program** is run at its own place, and leaves the invariant as it is. -/
theorem sound_executeProgram (hm : Sound m) (program : List Stmt) :
    Sound (scribe.executeProgram host number m program).2 ∧
      Later (m.withProgram program) (scribe.executeProgram host number m program).2 :=
  (preserves_body (preserving_evaluator host host.room 0) (hm.withProgram program)
    (fun _ => rfl) ((hm.at_program program number).parts rfl)).conclude

/-- **A source text** leaves the invariant as it is. If it is accepted, its program is the last one
of the survey from now on. -/
theorem sound_interpret (hm : Sound m) (source : String) :
    Sound (scribe.interpret host number m source).2 ∧
      (scribe.interpret host number m source).2.survey.programs =
        m.survey.programs ++ (parse host.room source).toOption.toList := by
  -- events are no part of the invariant
  obtain ⟨events, hread⟩ := m.plain.exists_read_eq host source
  have hcontinues : Continues m ⟨m.store, { m.rest.console with events := events }⟩ :=
    .of_store_eq hm rfl rfl
  rw [Scribe.interpret, hread]
  cases parse host.room source with
  | error e => exact ⟨hcontinues.sound hm, (List.append_nil _).symm⟩
  | ok program =>
    obtain ⟨hend, hlater⟩ := sound_executeProgram host number (hcontinues.sound hm) program
    exact ⟨hend, hlater.programs_eq⟩

/-- **Whole sessions** keep the invariant. Their programs are those of the accepted source texts. -/
theorem sound_feedAll (sources : List String) :
    Sound (scribe.feedAll host (sources.map .source)).2 ∧
      (scribe.feedAll host (sources.map .source)).2.survey.programs =
        sources.filterMap (fun source => (parse host.room source).toOption) := by
  induction sources using List.reverseRecOn with
  | nil => exact ⟨sound_new host, rfl⟩
  | append_singleton sources source ih =>
    obtain ⟨hm, hprograms⟩ := ih
    obtain ⟨hend, hnext⟩ :=
      sound_interpret host (sources.map Input.source).length hm source
    rw [List.map_append, List.map_singleton, Scribe.feedAll_concat]
    refine ⟨hend, hnext.trans ?_⟩
    rw [hprograms, List.filterMap_append]
    cases hparse : (parse host.room source).toOption <;> simp [hparse]

end Surveyor

/-- **Scopes mirror nesting.** A survey of a session has no effect on it: the verdicts on its source
texts and the session after them are the same. And at every moment at which the survey saw a node
being run, whatever calls and loops were in progress and however earlier texts had ended, the place
of the node leads to it in the programs that were read; the scopes from its scope to the end of the
chain were made, in this order, for the constructs around the place, followed by the global scope,
which is the only scope made for none; and the depth of its scope is the number of these
constructs. -/
theorem chain_mirrors_nesting (host : Host) (sources : List String) :
    let (verdicts, m) := Surveyor.scribe.feedAll host (sources.map .source)
    let programs := sources.filterMap fun source => (parse host.room source).toOption
    (verdicts, m.plain) = Session.feedAll host (sources.map .source) ∧
    ∀ v ∈ m.survey.sightings,
      nodeAt programs v.place = some v.node ∧
      (v.session.store.chain v.scope).map m.survey.origin =
        (enclosing programs v.place).map some ++ [none] ∧
      (v.session.store.chain v.scope).getLast? = some v.session.rest.globals ∧
      v.session.rest.globals = m.plain.rest.globals ∧
      v.session.store.depth v.scope = (enclosing programs v.place).length := by
  obtain ⟨hsound, hprograms⟩ := Surveyor.sound_feedAll host sources
  refine ⟨Surveyor.scribe.feedAll_plain host (sources.map .source), fun v hv => ?_⟩
  have h := hsound.sightings v hv
  rw [← hprograms]
  refine ⟨h.node_eq, h.origins, h.last, h.globals_eq, ?_⟩
  -- the chain has one scope for each construct and the global one
  have hlength := congrArg List.length h.origins
  rw [List.length_map, List.length_append, List.length_map, List.length_singleton] at hlength
  unfold Store.depth
  rw [hlength, Nat.add_sub_cancel]

end Lox
