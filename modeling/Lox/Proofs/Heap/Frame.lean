import Lox.Proofs.Heap.Integrity

/-!
# Only the current scope gains names

An expression leaves the bindings of all scopes alone that were there before, and a statement those
of all others than the one it is run in, whatever calls and loops it leads to and however it ends.
What remains are declarations, each of which binds its own name in its own scope; so that a source
text adds to the global names what it has declared at the top, in this order.

* `Session.bindings_evaluate`, `Session.bindings_execute` — what a run leaves alone;
* `Store.Gains` — a name that is declared, `Session.gains_declaration` by a declaration;
* `Session.names_executeProgram` — the global names behind a program;
* `only_current_scope_gains` — all of it.
-/

namespace Lox

/-! ### One name more -/

/-- **A scope has gained a name.** A new name comes last and one that was there keeps its place; it
stands for a cell that did not exist before, and all other names for the same cells as before. -/
structure Store.Gains (s s' : Store) (scope : ScopeId) (name : String) : Prop where
  names_eq : s'.names scope =
    if name ∈ s.names scope then s.names scope else s.names scope ++ [name]
  fresh : ∃ c, (s'.bindings scope).lookup name = some c ∧
    s.cells.size ≤ c.index ∧ c.index < s'.cells.size
  others : ∀ other, other ≠ name →
    (s'.bindings scope).lookup other = (s.bindings scope).lookup other

/-- A declaration behind steps that have left the scope alone. -/
theorem Store.Grown.gains_declare {s s₁ : Store} (h : s.Grown s₁) {scope : ScopeId}
    (hscope : scope.index < s.scopes.size) (hbindings : s₁.bindings scope = s.bindings scope)
    (name : String) (value : Value) (const : Bool) :
    s.Gains (s₁.declare scope name value const).2 scope name := by
  have hlive := Nat.lt_of_lt_of_le hscope h.scopes_le
  have hafter := Store.bindings_declare s₁ scope scope name value const hlive
  rw [if_pos rfl, hbindings] at hafter
  constructor
  case names_eq =>
    unfold Store.names
    rw [hafter, names_bindName]
  case fresh =>
    refine ⟨⟨s₁.cells.size⟩, ?_, h.cells_le, ?_⟩
    · rw [hafter, lookup_bindName, if_pos rfl]
    · rw [Store.cells_size_declare]
      exact Nat.lt_succ_self _
  case others =>
    intro other hother
    rw [hafter, lookup_bindName, if_neg hother]

/-- **The name that a declaration declares.** -/
def Stmt.declared? : Stmt → Option String
  | .variable name _ _ => some name.lexeme
  | .function name _ _ => some name.lexeme
  | _ => none

theorem Stmt.isDeclaration_eq_false {s : Stmt} (h : s.declared? = none) :
    s.isDeclaration = false := by
  cases s with
  | «variable» name initial const => contradiction
  | function name parameters body => contradiction
  | _ => rfl

namespace Session

variable {m : Session} {scope t : ScopeId}

/-! ### What a run leaves alone -/

section Frame

variable (hm : m.store.Integral (fun _ => True) m.rest.globals)
  (hscope : scope.index < m.store.scopes.size) (host : Host) (room cost : Nat)

include hm hscope

/-- Evaluation performs operations that declare nothing in old scopes. -/
theorem outcome_evaluate (e : Expr) :
    Outcome (fun _ m' => Performs (fun _ => True) (fun t => m.store.scopes.size ≤ t.index) m m')
      (fun _ m' => Performs (fun _ => True) (fun t => m.store.scopes.size ≤ t.index) m m')
      ((recurse .full (Evaluator.step host) room cost).evaluate e scope m) :=
  Outcome.mono
    (leads_evaluate hm (fun _ _ _ _ _ => trivial) host room cost hscope (fun _ ht => ht) trivial)
    (fun _ _ h => h.1) fun _ _ h => h.1

/-- Execution may declare in its own scope as well. -/
theorem outcome_execute (s : Stmt) :
    Outcome
      (fun _ m' => Performs (fun _ => True) (fun t => m.store.scopes.size ≤ t.index ∨
        s.declaresHere = true ∧ t = scope) m m')
      (fun _ m' => Performs (fun _ => True) (fun t => m.store.scopes.size ≤ t.index ∨
        s.declaresHere = true ∧ t = scope) m m')
      ((recurse .full (Evaluator.step host) room cost).execute s scope m) :=
  Outcome.mono
    (leads_execute hm (fun _ _ _ _ _ => trivial) host room cost hscope (fun _ ht => .inl ht) trivial
      fun hs => .inr ⟨hs, rfl⟩)
    (fun _ _ h => h.1) fun _ _ h => h.1

/-- **Expressions** leave the bindings of old scopes alone. -/
theorem bindings_evaluate (e : Expr) (ht : t.index < m.store.scopes.size) :
    (Outcome.state ((Evaluator.inRoom host).evaluate e scope m)).store.bindings t =
      m.store.bindings t := by
  have hclosed : ¬ m.store.scopes.size ≤ t.index := Nat.not_le.2 ht
  exact (outcome_evaluate hm hscope host host.room 0 e).of_state
    (fun _ _ h => h.bindings_eq ht hclosed) fun _ _ h => h.bindings_eq ht hclosed

/-- **Statements** leave the bindings of old scopes alone in which they are not run, or in which they
declare nothing. -/
theorem bindings_execute (s : Stmt) (ht : t.index < m.store.scopes.size)
    (hother : t = scope → s.declaresHere = false) :
    (Outcome.state ((Evaluator.inRoom host).execute s scope m)).store.bindings t =
      m.store.bindings t := by
  have hclosed : ¬ (m.store.scopes.size ≤ t.index ∨ s.declaresHere = true ∧ t = scope) := by
    rintro (hnew | ⟨hdeclares, heq⟩)
    · exact absurd ht (Nat.not_lt.2 hnew)
    · rw [hother heq] at hdeclares
      contradiction
  exact (outcome_execute hm hscope host host.room 0 s).of_state
    (fun _ _ h => h.bindings_eq ht hclosed) fun _ _ h => h.bindings_eq ht hclosed

/-- **Names are never lost or reordered,** in no scope. -/
theorem names_execute (s : Stmt) (t : ScopeId) : m.store.names t <+:
    (Outcome.state ((Evaluator.inRoom host).execute s scope m)).store.names t := by
  have hprefix : ∀ {opens : ScopeId → Prop} {m' : Session}, Performs (fun _ => True) opens m m' →
      m.store.names t <+: m'.store.names t := by
    rintro opens m' ⟨-, ops, hstore, -⟩
    rw [hstore]
    exact Store.names_replay _ ops t
  exact (outcome_execute hm hscope host host.room 0 s).of_state (fun _ _ h => hprefix h)
    fun _ _ h => hprefix h

/-! ### Declarations -/

/-- **A declaration** that comes to its end has declared its name, and one that does not has declared
nothing. -/
theorem gains_declaration {s : Stmt} {name : String} (hs : s.declared? = some name) :
    Outcome (fun _ m' => m.store.Gains m'.store scope name)
      (fun _ m' => m'.store.bindings scope = m.store.bindings scope)
      ((recurse .full (Evaluator.step host) room cost).execute s scope m) := by
  rw [recurse_eq_sub]
  cases room - cost with
  | zero => exact rfl
  | succ room =>
    -- the name is declared behind whatever its value takes
    have hdeclare : ∀ (m₁ : Session) (name : String) (value : Value) (const : Bool),
        m.store.Grown m₁.store → m₁.store.bindings scope = m.store.bindings scope →
        Outcome (fun _ m' => m.store.Gains m'.store scope name)
          (fun _ m' => m'.store.bindings scope = m.store.bindings scope)
          (Exec.declare host scope name value const m₁) := by
      intro m₁ name value const hgrown hbindings
      rw [Exec.declare_eq]
      obtain ⟨events, hemit⟩ := reports_emit host (fun _ => .declared name value)
        { m₁ with store := (m₁.store.declare scope name value const).2 }
      rw [hemit]
      exact hgrown.gains_declare hscope hbindings name value const
    have hclosed : ¬ m.store.scopes.size ≤ scope.index := Nat.not_le.2 hscope
    cases s with
    | «variable» token initial const =>
      obtain rfl := Option.some.inj hs
      cases initial with
      | none => exact hdeclare m token.lexeme .nil const (.refl _) rfl
      | some e =>
        refine outcome_bind (Outcome.mono (outcome_evaluate hm hscope host room 0 e) ?_ ?_)
        · intro v m₁ h
          exact hdeclare m₁ token.lexeme v const h.grown (h.bindings_eq hscope hclosed)
        · exact fun _ _ h => h.bindings_eq hscope hclosed
    | function token parameters body =>
      obtain rfl := Option.some.inj hs
      -- the closure takes an identity and no place in the store
      exact hdeclare ⟨{ m.store with functions := m.store.functions + 1 }, m.rest⟩ token.lexeme _
        false (Store.grown_newClosure m.store token.lexeme [] body scope) rfl
    | _ => contradiction

/-- **A normal statement** changes its scope only if it is a declaration that comes to its end, and
then by the name that it declares. -/
theorem gains_normal {s : Stmt} {inside : Bool} (hs : s.Normal inside) :
    Outcome (fun _ m' => match s.declared? with
        | some name => m.store.Gains m'.store scope name
        | none => m'.store.bindings scope = m.store.bindings scope)
      (fun _ m' => m'.store.bindings scope = m.store.bindings scope)
      ((Evaluator.inRoom host).execute s scope m) := by
  cases hdeclared : s.declared? with
  | some name => exact gains_declaration hm hscope host host.room 0 hdeclared
  | none =>
    -- a normal statement that is no declaration declares nothing here
    have hquiet : s.declaresHere = false :=
      (Stmt.declaresHere_eq_isDeclaration hs).trans (Stmt.isDeclaration_eq_false hdeclared)
    have hsame := bindings_execute hm hscope host s hscope fun _ => hquiet
    cases hrun : (Evaluator.inRoom host).execute s scope m <;>
      · rw [hrun] at hsame
        exact hsame

end Frame

/-! ### Programs -/

/-- **The statements of a program that are run to their end.** -/
def executed (host : Host) (m : Session) : List Stmt → List Stmt
  | [] => []
  | s :: ss =>
    match (Evaluator.inRoom host).execute s m.rest.globals m with
    | .ok _ m' => s :: executed host m' ss
    | .error _ _ => []

/-- Some names with others behind them, each of them once. -/
def addNames (names new : List String) : List String :=
  new.foldl (fun names name => if name ∈ names then names else names ++ [name]) names

/-- Names that are added come behind the others, in the order in which they come first. -/
theorem addNames_eq (names new : List String) :
    addNames names new = names ++ (new.filter (· ∉ names)).eraseDups := by
  induction new generalizing names with
  | nil => simp [addNames]
  | cons name new ih =>
    change addNames (if name ∈ names then names else names ++ [name]) new = _
    rw [ih]
    by_cases hname : name ∈ names
    · simp [hname]
    · -- from now on the name is left out, be it as an old one or as one that came before
      rw [if_neg hname, List.filter_cons_of_pos (by simpa using hname), List.eraseDups_cons,
        List.filter_filter, List.append_assoc, List.singleton_append]
      congr 3
      refine List.filter_congr fun other _ => ?_
      rw [Bool.eq_iff_iff]
      simp [and_comm]

variable (host : Host)

/-- A program goes on behind a statement that comes to its end. -/
theorem executeProgram_cons_ok {s : Stmt} {m₁ : Session}
    (hrun : (Evaluator.inRoom host).execute s m.rest.globals m = .ok () m₁)
    (hglobals : m₁.rest.globals = m.rest.globals) (ss : List Stmt) :
    m.executeProgram host (s :: ss) = m₁.executeProgram host ss := by
  change conclude (EStateM.bind ((Evaluator.inRoom host).execute s m.rest.globals)
    (fun _ => executeAll (fun s => (Evaluator.inRoom host).execute s m.rest.globals) ss) m) =
      conclude (executeAll (fun s => (Evaluator.inRoom host).execute s m₁.rest.globals) ss m₁)
  rw [EStateM.bind, hrun, hglobals]

/-- It does not go on behind one that does not. -/
theorem executeProgram_cons_error {s : Stmt} {e : Interrupt} {m₁ : Session}
    (hrun : (Evaluator.inRoom host).execute s m.rest.globals m = .error e m₁) (ss : List Stmt) :
    m.executeProgram host (s :: ss) = (.interrupted e, m₁) := by
  change conclude (EStateM.bind ((Evaluator.inRoom host).execute s m.rest.globals) _ m) = _
  rw [EStateM.bind, hrun]
  rfl

variable (hm : m.store.Integral (fun _ => True) m.rest.globals)

include hm

/-- A statement at the top leaves the global scope where it is. -/
theorem globals_execute (s : Stmt) :
    let m₁ := Outcome.state ((Evaluator.inRoom host).execute s m.rest.globals m)
    m₁.store.Integral (fun _ => True) m₁.rest.globals ∧ m₁.rest.globals = m.rest.globals ∧
      m.store.scopes.size ≤ m₁.store.scopes.size := by
  have hperforms := outcome_execute hm hm.globals_lt host host.room 0 s
  refine Outcome.of_state (P := fun m₁ : Session =>
    m₁.store.Integral (fun _ => True) m₁.rest.globals ∧ m₁.rest.globals = m.rest.globals ∧
      m.store.scopes.size ≤ m₁.store.scopes.size) hperforms ?_ ?_
  · exact fun _ _ h => ⟨h.integral hm, h.globals_eq, h.grown.scopes_le⟩
  · exact fun _ _ h => ⟨h.integral hm, h.globals_eq, h.grown.scopes_le⟩

/-- **A normal statement at the top** adds the name that it declares, if it comes to its end. -/
theorem names_execute_normal {s : Stmt} (hs : s.Normal false) :
    Outcome (fun _ m₁ => m₁.store.names m.rest.globals =
        addNames (m.store.names m.rest.globals) s.declared?.toList)
      (fun _ m₁ => m₁.store.names m.rest.globals = m.store.names m.rest.globals)
      ((Evaluator.inRoom host).execute s m.rest.globals m) := by
  have hsame : ∀ m₁ : Session,
      m₁.store.bindings m.rest.globals = m.store.bindings m.rest.globals →
      m₁.store.names m.rest.globals = m.store.names m.rest.globals :=
    fun m₁ h => congrArg (List.map Prod.fst) h
  refine Outcome.mono (gains_normal hm hm.globals_lt host hs) ?_ fun _ m₁ h => hsame m₁ h
  intro _ m₁ h
  cases hdeclared : s.declared? with
  | some name =>
    rw [hdeclared] at h
    exact h.names_eq
  | none =>
    rw [hdeclared] at h
    exact hsame m₁ h

/-- **The global names behind a program** are the earlier ones and those that it has declared; all
other scopes are left alone. -/
theorem names_executeProgram {program : List Stmt} (hprogram : Stmt.AllNormal false program) :
    let m' := (m.executeProgram host program).2
    m'.store.names m.rest.globals = addNames (m.store.names m.rest.globals)
        ((m.executed host program).filterMap (·.declared?)) ∧
      m'.rest.globals = m.rest.globals ∧
      ∀ t : ScopeId, t.index < m.store.scopes.size → t ≠ m.rest.globals →
        m'.store.bindings t = m.store.bindings t := by
  induction program generalizing m with
  | nil => exact ⟨rfl, rfl, fun _ _ _ => rfl⟩
  | cons s ss ih =>
    have hnames := names_execute_normal host hm hprogram.1
    have hkept := globals_execute host hm s
    have hframe := fun t ht hne => bindings_execute (t := t) hm hm.globals_lt host s ht
      fun heq => absurd heq hne
    rw [executed]
    cases hrun : (Evaluator.inRoom host).execute s m.rest.globals m with
    | error e m₁ =>
      simp only [hrun, Outcome.state] at hnames hkept hframe
      rw [executeProgram_cons_error host hrun]
      exact ⟨hnames, hkept.2.1, hframe⟩
    | ok _ m₁ =>
      simp only [hrun, Outcome.state] at hnames hkept hframe
      obtain ⟨hm₁, hglobals, hsize⟩ := hkept
      obtain ⟨hnames₁, hglobals₁, hframe₁⟩ := ih hm₁ hprogram.2
      rw [hglobals] at hnames₁ hglobals₁ hframe₁
      rw [executeProgram_cons_ok host hrun hglobals]
      refine ⟨hnames₁.trans ?_, hglobals₁, fun t ht hne => ?_⟩
      · -- the names of the rest are added behind that of the first statement
        rw [show m₁.store.names m.rest.globals = _ from hnames]
        simp only [addNames, List.filterMap_cons]
        cases s.declared? <;> rfl
      · exact (hframe₁ t (Nat.lt_of_lt_of_le ht hsize) hne).trans (hframe t ht hne)

end Session

/-- **Only the current scope gains names.** In a session whose store has integrity, however a run ends:
an expression leaves the bindings of all scopes alone that were there before, and a statement those of
all others than its own, in which it neither loses nor reorders a name. A statement that stands
anywhere in a program that was read from a source text changes its own scope only if it is a
declaration which comes to its end, and then by the name that it declares. In the sessions that can
be reached, a source text that is rejected leaves the store as it is; and the global names behind one
that is run are the earlier ones, followed by those that it has newly declared at the top, in the
order in which they came first. -/
theorem only_current_scope_gains (host : Host) :
    (∀ (m : Session) (scope : ScopeId), m.store.Integral (fun _ => True) m.rest.globals →
      scope.index < m.store.scopes.size →
      (∀ e, let m' := Outcome.state ((Evaluator.inRoom host).evaluate e scope m)
        ∀ t : ScopeId, t.index < m.store.scopes.size →
          m'.store.bindings t = m.store.bindings t) ∧
      (∀ s, let m' := Outcome.state ((Evaluator.inRoom host).execute s scope m)
        ∀ t : ScopeId, t.index < m.store.scopes.size →
          (t ≠ scope → m'.store.bindings t = m.store.bindings t) ∧
          m.store.names t <+: m'.store.names t) ∧
      ∀ room source program p s, parse room source = .ok program →
        nodeAt [program] p = some (.stmt s) →
        Outcome (fun _ m' => match s.declared? with
            | some name => m.store.Gains m'.store scope name
            | none => m'.store.bindings scope = m.store.bindings scope)
          (fun _ m' => m'.store.bindings scope = m.store.bindings scope)
          ((Evaluator.inRoom host).execute s scope m)) ∧
    ∀ inputs source,
      let m := (Session.feedAll host inputs).2
      let (verdict, m') := m.interpret host source
      m'.rest.globals = m.rest.globals ∧
      (∀ t : ScopeId, t.index < m.store.scopes.size → t ≠ m.rest.globals →
        m'.store.bindings t = m.store.bindings t) ∧
      match parse host.room source with
      | .error _ => m'.store = m.store
      | .ok program => ∃ events,
        let m₀ : Session := ⟨m.store, { m.rest with events := events }⟩
        let names := m.store.names m.rest.globals
        let new := (m₀.executed host program).filterMap (·.declared?)
        (verdict, m') = m₀.executeProgram host program ∧
        m'.store.names m.rest.globals = names ++ (new.filter (· ∉ names)).eraseDups := by
  refine ⟨fun m scope hm hscope => ⟨fun e t ht => ?_, fun s t ht => ⟨fun hne => ?_, ?_⟩, ?_⟩, ?_⟩
  · exact Session.bindings_evaluate hm hscope host e ht
  · exact Session.bindings_execute hm hscope host s ht fun heq => absurd heq hne
  · exact Session.names_execute hm hscope host s t
  · intro room source program p s hparse hnode
    obtain ⟨inside, hs⟩ : ∃ inside, s.Normal inside :=
      normal_of_nodeAt (by simpa using normal_of_parse hparse) hnode
    exact Session.gains_normal hm hscope host hs
  · intro inputs source
    have hm := Session.integral_feedAll host inputs
    generalize (Session.feedAll host inputs).2 = m at hm
    obtain ⟨events, ⟨e, hparse, hrejected⟩ | ⟨program, hparse, hrun⟩⟩ :=
      m.interpret_parse host source
    · simp [hparse, hrejected]
    · simp only [hparse, hrun]
      let m₀ : Session := ⟨m.store, { m.rest with events := events }⟩
      obtain ⟨hnames, hglobals, hframe⟩ :=
        Session.names_executeProgram (m := m₀) host hm (normal_of_parse hparse)
      rw [Session.addNames_eq] at hnames
      exact ⟨hglobals, hframe, events, rfl, hnames⟩

/-- A name of fresh sessions that is declared again. -/
theorem only_current_scope_gains_again :
    let m := Session.new Host.standard
    ∃ program s, parse 20 "var clock;" = .ok program ∧
      nodeAt [program] ⟨0, [0]⟩ = some (.stmt s) ∧
      Outcome (fun _ m' => m.store.Gains m'.store m.rest.globals "clock")
        (fun _ m' => m'.store.bindings m.rest.globals = m.store.bindings m.rest.globals)
        ((Evaluator.inRoom Host.standard).execute s m.rest.globals m) := by
  intro m
  have hm := Session.integral_new Host.standard fun _ => True
  obtain ⟨-, -, hgains⟩ :=
    (only_current_scope_gains Host.standard).1 m m.rest.globals hm hm.globals_lt
  have hread : ((parse 20 "var clock;").toOption.bind fun program =>
      program[0]?.bind Stmt.declared?) = some "clock" := by decide +kernel
  cases hparse : parse 20 "var clock;" with
  | error e =>
    rw [hparse] at hread
    contradiction
  | ok program =>
    rw [hparse, Except.toOption, Option.bind_some] at hread
    obtain ⟨s, hfirst, hdeclared⟩ := Option.bind_eq_some_iff.1 hread
    have hnode : nodeAt [program] ⟨0, [0]⟩ = some (.stmt s) :=
      congrArg (Option.map Node.stmt) hfirst
    have hs := hgains 20 _ program ⟨0, [0]⟩ s hparse hnode
    rw [hdeclared] at hs
    exact ⟨program, s, rfl, hnode, hs⟩

end Lox
