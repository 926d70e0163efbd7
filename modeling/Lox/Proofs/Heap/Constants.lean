import Lox.Proofs.Heap.Loops

/-!
# Constants

Whether a cell is constant is decided when a name is declared, or when a loop copies a cell; and
nothing that a program does later writes a constant cell. An assignment is refused exactly if the
innermost binding of its name is constant. So a loop whose first clause declares a constant has it in
every pass, with the value that its initializer had.

* `Store.KeepsConstants` — constants of a store that grows, `Store.keepsConstants_replay` over any
  history;
* `Session.keepsConstants_feedAll` — from one input of a session to the next;
* `Exec.write_innermost`, `Exec.write_refused_iff` — what an assignment makes of it;
* `Session.holds_constant` — the moments of a loop over a constant;
* `constants_kept` — sessions, assignments and loops.
-/

namespace Lox

namespace Store

/-! ### Histories -/

/-- **Constants are kept,** and no other cell becomes one. -/
structure KeepsConstants (s s' : Store) : Prop where
  cells_le : s.cells.size ≤ s'.cells.size
  const_eq : ∀ c : CellId, c.index < s.cells.size → (s'.cell c).const = (s.cell c).const
  cell_eq : ∀ c : CellId, c.index < s.cells.size → (s.cell c).const = true → s'.cell c = s.cell c

variable (s : Store)

/-- **One operation.** A cell that it changes was not constant, and is not made so. -/
theorem keepsConstants_perform (op : Operation) : s.KeepsConstants (s.perform op) where
  cells_le := (grown_perform s op).cells_le
  const_eq c hc := by
    by_cases hchanged : (s.perform op).cell c = s.cell c
    · rw [hchanged]
    · obtain ⟨scope, name, value, -, -, hcell, -⟩ := cell_perform s hc hchanged
      rw [hcell]
  cell_eq c hc hconst := by
    by_contra hchanged
    obtain ⟨scope, name, value, -, -, -, hwritable⟩ := cell_perform s hc hchanged
    rw [hconst] at hwritable
    contradiction

/-- **Any history.** -/
theorem keepsConstants_replay (ops : List Operation) : s.KeepsConstants (s.replay ops) := by
  induction ops generalizing s with
  | nil => exact ⟨Nat.le_refl _, fun _ _ => rfl, fun _ _ _ => rfl⟩
  | cons op ops ih =>
    have hop := keepsConstants_perform s op
    have hops := ih (s.perform op)
    constructor
    case cells_le => exact hop.cells_le.trans hops.cells_le
    case const_eq =>
      intro c hc
      exact (hops.const_eq c (hc.trans_le hop.cells_le)).trans (hop.const_eq c hc)
    case cell_eq =>
      intro c hc hconst
      -- the cell is still constant when the rest of the history begins
      have hstill : ((s.perform op).cell c).const = true := (hop.const_eq c hc).trans hconst
      exact (hops.cell_eq c (hc.trans_le hop.cells_le) hstill).trans (hop.cell_eq c hc hconst)

end Store

/-- **The journal of a session goes on** with its further inputs. -/
theorem Journal.later_feedAll (host : Host) (inputs more : List Input) :
    Later (Terms.session host) (scribe.feedAll host inputs).2
      (scribe.feedAll host (inputs ++ more)).2 := by
  induction more using List.reverseRecOn with
  | nil =>
    rw [List.append_nil]
    exact .refl _
  | append_singleton more input ih =>
    obtain ⟨hm, -⟩ := sound_session host (inputs ++ more)
    have hfits : input.Fits host (Terms.session host).fits := by
      cases input with
      | source text => exact fun _ _ _ _ => trivial
      | tree s => trivial
    obtain ⟨-, hlater, -⟩ :=
      sound_feed host (inputs ++ more).length hm (fun _ => trivial) hfits
    rw [← List.append_assoc, Scribe.feedAll_concat]
    exact ih.trans hlater

/-- **A session keeps its constants,** whatever it is given next. -/
theorem Session.keepsConstants_feedAll (host : Host) (inputs more : List Input) :
    (feedAll host inputs).2.store.KeepsConstants (feedAll host (inputs ++ more)).2.store := by
  obtain ⟨new, -, hstore, -⟩ := Journal.later_feedAll host inputs more
  have hkept := (Journal.scribe.feedAll host inputs).2.store.keepsConstants_replay new
  rw [← hstore] at hkept
  rwa [← Journal.scribe.feedAll_plain, ← Journal.scribe.feedAll_plain]

/-! ### Assignments -/

/-- **An assignment** is refused, and changes nothing, exactly if the innermost binding of its name is
constant or there is none. -/
theorem Exec.write_innermost (scope : ScopeId) (name : Token) (v : Value) (m : Session) :
    (∃ c, m.store.Innermost scope name.lexeme c ∧ (m.store.cell c).const = true ∧
      Exec.write scope name v m =
        .error (.failed ⟨.constAssignment name.lexeme, some name.line⟩) m) ∨
    (∃ c, m.store.Innermost scope name.lexeme c ∧ (m.store.cell c).const = false ∧
      Exec.write scope name v m = .ok v ⟨m.store.setCell c v, m.rest⟩) ∨
    (∀ c, ¬ m.store.Innermost scope name.lexeme c) ∧
      Exec.write scope name v m =
        .error (.failed ⟨.undefinedVariable name.lexeme, some name.line⟩) m := by
  rw [Exec.write_eq_assign]
  obtain ⟨hnone, hassign⟩ | ⟨c, hc, hconst, hassign⟩ | ⟨c, hc, hconst, hassign⟩ :=
    m.store.assign_cases scope name.lexeme v
  · exact .inr (.inr ⟨fun c hc => hc.not_unbound hnone, by rw [hassign]⟩)
  · exact .inl ⟨c, hc, hconst, by rw [hassign]⟩
  · exact .inr (.inl ⟨c, hc, hconst, by rw [hassign]⟩)

/-- **An assignment is refused for a constant** exactly if the innermost binding is one. Where there is
an innermost binding, it decides. -/
theorem Exec.write_refused_iff (scope : ScopeId) (name : Token) (v : Value) (m : Session) :
    ((∃ lexeme line m',
        Exec.write scope name v m = .error (.failed ⟨.constAssignment lexeme, line⟩) m') ↔
      ∃ c, m.store.Innermost scope name.lexeme c ∧ (m.store.cell c).const = true) ∧
    ∀ c, m.store.Innermost scope name.lexeme c →
      Exec.write scope name v m = if (m.store.cell c).const
        then .error (.failed ⟨.constAssignment name.lexeme, some name.line⟩) m
        else .ok v ⟨m.store.setCell c v, m.rest⟩ := by
  -- the innermost binding is constant, or it is not, or there is none
  obtain ⟨c, hc, hconst, hwrite⟩ | ⟨c, hc, hconst, hwrite⟩ | ⟨hnone, hwrite⟩ :=
    Exec.write_innermost scope name v m
  · rw [hwrite]
    refine ⟨⟨fun _ => ⟨c, hc, hconst⟩, fun _ => ⟨_, _, _, rfl⟩⟩, fun c' hc' => ?_⟩
    obtain rfl := hc.unique hc'
    rw [if_pos hconst]
  · rw [hwrite]
    refine ⟨⟨fun ⟨_, _, _, h⟩ => (nomatch h), fun ⟨c', hc', hconst'⟩ => ?_⟩, fun c' hc' => ?_⟩
    · obtain rfl := hc.unique hc'
      rw [hconst] at hconst'
      contradiction
    · obtain rfl := hc.unique hc'
      rw [hconst, if_neg Bool.false_ne_true]
  · rw [hwrite]
    refine ⟨⟨fun ⟨_, _, _, h⟩ => (nomatch h), fun ⟨c, hc, _⟩ => absurd hc (hnone c)⟩, ?_⟩
    exact fun c hc => absurd hc (hnone c)

namespace Session

/-! ### Loops over a constant -/

/-- **At this moment the scope of the pass holds one constant,** and it will whatever is done to the
store. -/
structure HoldsConstant (name : String) (v : Value) (a : Moment Console) : Prop where
  begun : a.clause = .start → a.ended = true
  contents_eq : a.store.contents a.scope = [(name, v, true)]
  cell_eq : ∀ ops, ∀ b ∈ a.store.bindings a.scope, (a.store.replay ops).cell b.2 = ⟨v, true⟩

variable {m : Session} {scope : ScopeId} {name : String} {v : Value} {a b : Moment Console}

/-- What a scope holds does not change as long as its bindings stay and all that it binds is
constant. -/
theorem contents_of_constant {s : Store} (htidy : s.Tidy 0) {t : ScopeId}
    (hcontents : s.contents t = [(name, v, true)]) (ops : List Store.Operation) :
    (∀ b ∈ s.bindings t, (s.replay ops).cell b.2 = ⟨v, true⟩) ∧
      ((s.replay ops).bindings t = s.bindings t →
        (s.replay ops).contents t = [(name, v, true)]) := by
  have hkept := s.keepsConstants_replay ops
  obtain ⟨b, hbindings, hb⟩ := List.map_eq_singleton_iff.1 hcontents
  obtain ⟨hname, hcell⟩ := Prod.mk.inj hb
  obtain ⟨hvalue, hconst⟩ := Prod.mk.inj hcell
  -- the cell has been there before, so that no operation changes it
  have hlive : b.2.index < s.cells.size :=
    htidy.cells_lt t (Nat.zero_le _) b (hbindings ▸ List.mem_cons_self)
  have hafter : (s.replay ops).cell b.2 = ⟨v, true⟩ :=
    (hkept.cell_eq b.2 hlive hconst).trans (by rw [← hvalue, ← hconst])
  constructor
  · rw [hbindings]
    rintro b' hb'
    obtain rfl := List.mem_singleton.1 hb'
    exact hafter
  · intro hsame
    rw [Store.contents, hsame, hbindings]
    show [(b.1, ((s.replay ops).cell b.2).value, ((s.replay ops).cell b.2).const)] = _
    rw [hafter, hname]

/-- A scope that holds one constant. -/
theorem HoldsConstant.of_contents (hsound : a.store.Tidy 0)
    (hbegun : a.clause = .start → a.ended = true)
    (hcontents : a.store.contents a.scope = [(name, v, true)]) : HoldsConstant name v a :=
  ⟨hbegun, hcontents, fun ops => (contents_of_constant hsound hcontents ops).1⟩

section Loop

variable (host : Host) (room : Nat) (start : Option Stmt) (condition update : Option Expr)
  {body : Stmt}

/-- **A clause behind the first one** leaves the constant of the pass. -/
theorem contents_effect (hbody : body.declaresHere = false) {clause : Clause}
    (hclause : clause ≠ .start) {enclosing : ScopeId} (h : InLoop enclosing scope m)
    (hcontents : m.store.contents scope = [(name, v, true)]) :
    ((loopOf host room start condition update body).effect clause scope m).store.contents scope =
      [(name, v, true)] := by
  have hopened : ¬ m.store.scopes.size ≤ scope.index := Nat.not_le.2 h.scope_lt
  -- no clause declares a name in the scope of the pass
  have hperforms : ∀ {m' : Session} {opens : ScopeId → Prop}, ¬ opens scope →
      Performs (fun _ => True) opens m m' → m'.store.contents scope = [(name, v, true)] := by
    intro m' opens hclosed hm'
    have hsame := hm'.bindings_eq h.scope_lt hclosed
    obtain ⟨ops, hstore, -, -⟩ := hm'.history
    rw [hstore] at hsame ⊢
    exact (contents_of_constant h.integral.tidy hcontents ops).2 hsame
  -- an expression declares nothing in a scope that was there before
  have hevaluate : ∀ e : Expr, (Outcome.state
      ((recurse .full (Evaluator.step host) room 3).evaluate e scope m)).store.contents scope =
        [(name, v, true)] := fun e =>
    (outcome_evaluate h.integral h.scope_lt host room 3 e).of_state
      (fun _ _ hm' => hperforms hopened hm') fun _ _ hm' => hperforms hopened hm'
  cases clause with
  | start => exact absurd rfl hclause
  | condition =>
    cases condition with
    | none => exact hcontents
    | some e => exact hevaluate e
  | body =>
    -- the body is no declaration, so that names are declared in scopes of its own
    have hclosed : ¬ (m.store.scopes.size ≤ scope.index ∨
        body.declaresHere = true ∧ scope = scope) := by
      rw [hbody]
      simp [h.scope_lt]
    exact (outcome_execute h.integral h.scope_lt host room 3 body).of_state
      (fun _ _ hm' => hperforms hclosed hm') fun _ _ hm' => hperforms hclosed hm'
  | update =>
    cases update with
    | none => exact hcontents
    | some e =>
      have hupdate := hevaluate e
      rw [← Outcome.state_bind_pure _ fun _ => ()] at hupdate
      exact hupdate

variable (body)

/-- **From moment to moment** the constant is handed on. -/
theorem HoldsConstant.leads (hbody : body.declaresHere = false) {enclosing : ScopeId}
    (ha : HoldsConstant name v a) (hloop : InLoop enclosing a.scope a.machine)
    (hloop' : InLoop enclosing b.scope b.machine)
    (h : Moment.Leads (loopOf host room start condition update body) enclosing a b) :
    HoldsConstant name v b := by
  have htidy : b.store.Tidy 0 := hloop'.integral.tidy
  cases h with
  | ran clause scope m =>
    have hclause : clause ≠ .start := fun h => nomatch ha.begun h
    exact .of_contents htidy (fun _ => rfl)
      (contents_effect host room start condition update hbody hclause hloop ha.contents_eq)
  | @turned clause next hnext scope m =>
    refine .of_contents htidy (fun hstart => ?_) ha.contents_eq
    -- the first clause is behind no other
    obtain rfl : next = .start := hstart
    cases clause <;> cases hnext
  | @copied scope following m s rest hcopy hreport =>
    have hcopies := Store.copies_nextIteration hcopy
      (hloop.integral.tidy.names_nodup scope (Nat.zero_le _))
    refine .of_contents htidy (fun h => nomatch h) ?_
    exact hcopies.contents_eq.trans ha.contents_eq

/-- **A constant declared in an empty scope** is all that the scope holds. -/
theorem contents_declaration (hm : m.store.Integral (fun _ => True) m.rest.globals)
    (hscope : scope.index < m.store.scopes.size) (hempty : m.store.bindings scope = []) (cost : Nat)
    {name : Token} {initial : Option Expr} {m₁ : Session}
    (hrun : (recurse .full (Evaluator.step host) room cost).execute (.variable name initial true) scope
      m = .ok () m₁) :
    ∃ v m₀, evaluateOption
        (fun e => (recurse .full (Evaluator.step host) room (cost + 1)).evaluate e scope) initial m =
        .ok v m₀ ∧
      m₁.store.contents scope = [(name.lexeme, v, true)] := by
  have hinner : recurse .full (Evaluator.step host) room (cost + 1) =
      recurse .full (Evaluator.step host) (room - cost - 1) 0 := recurse_eq_sub ..
  rw [recurse_eq_sub] at hrun
  rw [hinner]
  cases hroom : room - cost with
  | zero =>
    rw [hroom] at hrun
    exact nomatch hrun
  | succ left =>
    rw [hroom] at hrun
    let initializer := evaluateOption
      (fun e => (recurse .full (Evaluator.step host) left 0).evaluate e scope) initial
    -- the initializer declares nothing here, so that the scope is still empty behind it
    have hquiet : Outcome
        (fun _ m₀ => m.store.Grown m₀.store ∧ m₀.store.bindings scope = []) (fun _ _ => True)
        (initializer m) := by
      cases initial with
      | none => exact ⟨.refl _, hempty⟩
      | some e =>
        refine (outcome_evaluate hm hscope host left 0 e).mono (fun _ m₀ hm₀ => ⟨hm₀.grown, ?_⟩)
          fun _ _ _ => trivial
        exact (hm₀.bindings_eq hscope (Nat.not_le.2 hscope)).trans hempty
    -- the value is there when the scope gets its only name
    change EStateM.bind initializer (fun v => Exec.declare host scope name.lexeme v true) m =
      .ok () m₁ at hrun
    unfold EStateM.bind at hrun
    cases hvalue : initializer m with
    | error e m₀ =>
      rw [hvalue] at hrun
      exact nomatch hrun
    | ok v m₀ =>
      rw [hvalue] at hrun hquiet
      obtain ⟨hgrown, hnothing⟩ := hquiet
      refine ⟨v, m₀, hvalue, ?_⟩
      obtain ⟨events, hemit⟩ := reports_emit host (fun _ => .declared name.lexeme v)
        { m₀ with store := (m₀.store.declare scope name.lexeme v true).2 }
      obtain ⟨-, rfl⟩ := EStateM.Result.ok.inj (hemit.symm.trans hrun)
      have hunbound : name.lexeme ∉ (m₀.store.bindings scope).map Prod.fst := by simp [hnothing]
      have hcontents := Store.contents_declare m₀.store v true
        (Nat.lt_of_lt_of_le hscope hgrown.scopes_le) hunbound (by simp [hnothing])
      -- so the constant is all that the scope holds
      have hnone : m₀.store.contents scope = [] := by
        rw [Store.contents, hnothing]
        rfl
      rw [hnone] at hcontents
      exact hcontents

end Loop

end Session

section FirstClause

variable {ω ε α : Type} {e : ε} {m m₁ : Machine ω}

/-- A clause that fails takes one note. -/
theorem watch_of_error {act : ScopeId → Action ω ε α} {w : Machine (Watcher ω)} {scope : ScopeId}
    (clause : Clause) (h : act scope w.unwatched = .error e m) :
    watch clause act scope w =
      .error e (m.watched (w.moments ++ [⟨clause, false, scope, w.unwatched⟩])) := by
  unfold watch
  simp only
  rw [h]

/-- **A loop whose first clause fails** comes to no other clause. -/
theorem ForLoop.watched_run_of_error (loop : ForLoop ω ε) {enclosing : ScopeId}
    (h : ForLoop.clause loop.start ⟨m.store.scopes.size⟩ (beginning enclosing m).machine =
      .error e m₁) (gaveUp : ε) (passes : Nat) :
    loop.watched.run gaveUp passes enclosing (m.watched []) =
      .error e (m₁.watched [beginning enclosing m]) := by
  let w : Machine (Watcher ω) := (beginning enclosing m).machine.watched []
  have hwatch : watch .start (ForLoop.clause loop.start) ⟨m.store.scopes.size⟩ w =
      .error e (m₁.watched [beginning enclosing m]) := watch_of_error .start h
  change EStateM.bind (watch .start (ForLoop.clause loop.start) ⟨m.store.scopes.size⟩) _ w = _
  rw [EStateM.bind, hwatch]

end FirstClause

namespace Session

variable {m : Session} {scope : ScopeId}

/-- **The moments of a loop over a constant.** Behind the first clause the scope of every pass holds
the constant, with the value that its initializer had. -/
theorem holds_constant (hm : m.store.Integral (fun _ => True) m.rest.globals)
    (hscope : scope.index < m.store.scopes.size) (host : Host) (room : Nat) {name : Token}
    {initial : Option Expr} (condition update : Option Expr) {body : Stmt}
    (hbody : body.declaresHere = false) :
    let loop := loopOf host room (some (.variable name initial true)) condition update body
    let first := ForLoop.beginning scope m
    ∀ a ∈ (Outcome.state (loop.watched.run .unfinished host.passes scope (m.watched []))).moments,
      a = first ∨ ∃ v m₁, evaluateOption
          (fun e => (recurse .full (Evaluator.step host) room 4).evaluate e first.scope) initial
          first.machine = .ok v m₁ ∧
        HoldsConstant name.lexeme v a := by
  intro loop first a ha
  have hfirst := inLoop_beginning hm hscope
  have hempty : first.machine.store.bindings first.scope = [] :=
    Store.bindings_newScope_self m.store (some scope)
  cases hstart : ForLoop.clause loop.start first.scope first.machine with
  | error e m₁ =>
    -- there is no other moment
    rw [ForLoop.watched_run_of_error loop hstart] at ha
    exact .inl (List.mem_singleton.1 ha)
  | ok _ m₁ =>
    -- behind the first clause the scope of the loop holds the constant
    obtain ⟨v, m₀, hvalue, hcontents⟩ :=
      contents_declaration host room hfirst.integral hfirst.scope_lt hempty 3 hstart
    have hdeclares : loop.DeclaresAtStart scope m :=
      declaresAtStart_forLoop host room condition update body hm hscope rfl
    have hends := ForLoop.trail_run
      (reportsCopies_forLoop host room (some (.variable name initial true)) condition update body)
      hdeclares .unfinished host.passes
    generalize Outcome.state (loop.watched.run .unfinished host.passes scope (m.watched [])) = w
      at ha hends
    have hhead := hends.trail.head
    have hturns := hends.trail.turns
    -- all moments are sound, from the first one on
    have hbegins : ∀ a ∈ w.moments.head?, a.Sound (InLoop scope) scope m.store := by
      rw [hhead]
      rintro _ ⟨⟩
      exact ForLoop.sound_beginning hfirst
    obtain ⟨hsound, -⟩ := Moment.pairwise_before
      (acts_forLoop host room (some (.variable name initial true)) condition update body scope) hturns
      hbegins
    obtain ⟨rest, hrest⟩ := List.head?_eq_some_iff.1 hhead
    -- the first moment is the beginning, and the others are behind the first clause
    rw [hrest] at ha hturns hsound
    obtain hfirst' | ha := List.mem_cons.1 ha
    · exact .inl hfirst'
    refine .inr ⟨v, m₀, hvalue, ?_⟩
    obtain ⟨hsecond, hturns⟩ := List.isChain_cons.1 hturns
    -- the constant is there when the first clause has ended, and is handed on from then
    have hchain : rest.IsChain fun a b => (a ∈ rest ∧ b ∈ rest) ∧
        Moment.Leads loop scope a b := by
      exact (List.IsChain.iff_mem.1 hturns).imp fun a b h => ⟨⟨h.1, h.2.1⟩, h.2.2⟩
    refine hchain.induction (HoldsConstant name.lexeme v) rest ?_ ?_ a ha
    · rintro a b ⟨⟨ha, hb⟩, hleads⟩ hholds
      exact hholds.leads host room (some (.variable name initial true)) condition update body hbody
        (hsound a (List.mem_cons_of_mem _ ha)).ready (hsound b (List.mem_cons_of_mem _ hb)).ready
        hleads
    · intro hne
      -- the second moment comes from the first clause, which declared the constant
      have hleads := hsecond _ (List.head?_eq_some_head hne)
      have hready := (hsound _ (List.mem_cons_of_mem _ (List.head_mem hne))).ready
      generalize rest.head hne = b at hleads hready
      cases hleads with
      | ran clause scope' m' =>
        refine .of_contents hready.integral.tidy (fun _ => rfl) ?_
        have heffect : loop.effect .start first.scope first.machine = m₁ :=
          congrArg Outcome.state hstart
        exact (congrArg (fun m' : Session => m'.store.contents first.scope) heffect).trans hcontents

end Session

/-- **Constants are kept.** In a session that is given source texts and trees, in any order and with
any outcomes, constant cells keep their values, and no cell begins or ceases to be constant: from the
end of one input to that of any later one; and inside them, since all that happens to the store are
the operations of the journal, from any operation to any later one.

An assignment whose value has been found is refused for a constant exactly if the innermost binding of
its name is constant; nothing is changed then, and if that binding is no constant, its cell is
written.

If the first clause of a for statement, anywhere in a program that was read from a source text,
declares a constant, then at all moments of a run of the loop but its beginning the scope of the pass
holds this constant alone, with the value of its initializer; and neither a clause nor anything else
that may happen to the store will change that. -/
theorem constants_kept (host : Host) :
    (∀ inputs more,
      (Session.feedAll host inputs).2.store.KeepsConstants
        (Session.feedAll host (inputs ++ more)).2.store) ∧
    (∀ inputs,
      let (verdicts, m) := Journal.scribe.feedAll host inputs
      (verdicts, m.plain) = Session.feedAll host inputs ∧
      m.store = (Session.new host).store.replay m.operations ∧
      ∀ before between after, m.operations = before ++ between ++ after →
        ((Session.new host).store.replay before).KeepsConstants
          ((Session.new host).store.replay (before ++ between))) ∧
    (∀ room (name : Token) value scope (m : Session) v m₁,
      (recurse .full (Evaluator.step host) room 0).evaluate value scope m = .ok v m₁ →
      let result := (recurse .full (Evaluator.step host) (room + 1) 0).evaluate (.assign name value)
        scope m
      ((∃ lexeme line m', result = .error (.failed ⟨.constAssignment lexeme, line⟩) m') ↔
        ∃ c, m₁.store.Innermost scope name.lexeme c ∧ (m₁.store.cell c).const = true) ∧
      ∀ c, m₁.store.Innermost scope name.lexeme c →
        result = if (m₁.store.cell c).const
          then .error (.failed ⟨.constAssignment name.lexeme, some name.line⟩) m₁
          else .ok v ⟨m₁.store.setCell c v, m₁.rest⟩) ∧
    ∀ source depth program p name initial condition update body,
      parse depth source = .ok program →
      nodeAt [program] p =
        some (.stmt (.forLoop (some (.variable name initial true)) condition update body)) →
      ∀ room (m : Session) (scope : ScopeId), m.store.Integral (fun _ => True) m.rest.globals →
        scope.index < m.store.scopes.size →
        let loop := Session.loopOf host room (some (.variable name initial true)) condition update body
        let result := loop.watched.run .unfinished host.passes scope (m.watched [])
        let first := ForLoop.beginning scope m
        Outcome.project Machine.unwatched result =
          (recurse .full (Evaluator.step host) (room + 1) 0).execute
            (.forLoop (some (.variable name initial true)) condition update body) scope m ∧
        ∀ a ∈ (Outcome.state result).moments, a = first ∨
          ∃ v m₁, evaluateOption
              (fun e => (recurse .full (Evaluator.step host) room 4).evaluate e first.scope) initial
              first.machine = .ok v m₁ ∧
            Session.HoldsConstant name.lexeme v a := by
  refine ⟨Session.keepsConstants_feedAll host, ?_, ?_, ?_⟩
  · -- what happens inside the inputs are the operations of the journal
    intro inputs
    obtain ⟨hm, -⟩ := Journal.sound_session host inputs
    refine ⟨Journal.scribe.feedAll_plain host inputs, hm.store_eq, fun before between after _ => ?_⟩
    rw [Store.replay_append]
    exact Store.keepsConstants_replay _ between
  · -- the refusal is decided by the innermost binding, after the value has been found
    intro room name value scope m v m₁ hvalue result
    have hresult : result = Exec.write scope name v m₁ := by
      change evaluateStep host (fun cost => recurse .full (Evaluator.step host) room (cost - 1))
        (.assign name value) scope m = _
      rw [evaluateStep_assign]
      change EStateM.bind ((recurse .full (Evaluator.step host) room 0).evaluate value scope) _ m = _
      rw [EStateM.bind, hvalue]
    rw [hresult]
    exact Exec.write_refused_iff scope name v m₁
  · intro source depth program p name initial condition update body hparse hnode room m scope hm
      hscope loop result first
    -- the watched loop is the loop itself, with the moments noted
    refine ⟨?_, ?_⟩
    · rw [Session.execute_forLoop]
      exact ForLoop.watched_run _ Interrupt.unfinished host.passes scope (m.watched [])
    · -- the body is no declaration, because it was read
      obtain ⟨inside, hloop⟩ : ∃ inside, (Stmt.forLoop (some (.variable name initial true)) condition
          update body).Normal inside :=
        normal_of_nodeAt (by simpa using normal_of_parse hparse) hnode
      obtain ⟨-, -, -, hbody, hdeclaration⟩ := Stmt.normal_forLoop.1 hloop
      exact Session.holds_constant hm hscope host room condition update
        ((Stmt.declaresHere_eq_isDeclaration hbody).trans hdeclaration)

/-- A constant that is declared and assigned to, and a loop over one. -/
theorem constants_kept_assigned :
    let x : Token := ⟨.identifier, "x", none, 6, 1⟩
    let made : Session := ⟨(Session.new .standard).store.replay [.declared ⟨0⟩ "x" .nil true],
      (Session.new .standard).rest⟩
    ((Session.new .standard).store.replay [.declared ⟨0⟩ "x" .nil true]).KeepsConstants
      ((Session.new .standard).store.replay
        ([.declared ⟨0⟩ "x" .nil true] ++ [.declared ⟨0⟩ "x" (.bool true) false])) ∧
    (recurse .full (Evaluator.step .standard) 2 0).evaluate
        (.assign x (.literal (.bool true))) ⟨0⟩ made =
      .error (.failed ⟨.constAssignment "x", some 1⟩) made ∧
    ∃ program name initial condition update body, parse 30 "for (const i = true;;) {}" = .ok program ∧
      nodeAt [program] ⟨0, [0]⟩ =
        some (.stmt (.forLoop (some (.variable name initial true)) condition update body)) ∧
      let m := Session.new .standard
      let loop := Session.loopOf .standard 9 (some (.variable name initial true)) condition update body
      let result := loop.watched.run .unfinished Host.standard.passes m.rest.globals (m.watched [])
      let first := ForLoop.beginning m.rest.globals m
      ∀ a ∈ (Outcome.state result).moments, a = first ∨
        ∃ v m₁, evaluateOption
            (fun e => (recurse .full (Evaluator.step .standard) 9 4).evaluate e first.scope) initial
            first.machine = .ok v m₁ ∧
          Session.HoldsConstant name.lexeme v a := by
  intro x made
  refine ⟨?_, ?_, ?_⟩
  · obtain ⟨-, -, hkept⟩ := (constants_kept .standard).2.1
      [.tree (.variable x none true), .tree (.variable x (some (.literal (.bool true))) false)]
    exact hkept [.declared ⟨0⟩ "x" .nil true] [.declared ⟨0⟩ "x" (.bool true) false] [] rfl
  · obtain ⟨-, hresult⟩ := (constants_kept .standard).2.2.1 1 x (.literal (.bool true)) ⟨0⟩ made
      (.bool true) made rfl
    exact hresult ⟨1⟩ ⟨[], ⟨0⟩, [], rfl, nofun, rfl⟩
  · have hread : ((parse 30 "for (const i = true;;) {}").toOption.bind fun program =>
        program[0]?.map fun
          | .forLoop start _ _ _ => start.any fun
            | .variable _ _ const => const
            | _ => false
          | _ => false) = some true := by decide +kernel
    cases hparse : parse 30 "for (const i = true;;) {}" with
    | error e =>
      rw [hparse] at hread
      contradiction
    | ok program =>
      rw [hparse, Except.toOption, Option.bind_some] at hread
      obtain ⟨s, hfirst, hshape⟩ := Option.map_eq_some_iff.1 hread
      split at hshape
      · next start condition update body =>
        obtain ⟨clause, rfl, hclause⟩ := (Option.any_eq_true _ _).1 hshape
        split at hclause
        · next name initial const =>
          subst hclause
          have hm := Session.integral_new Host.standard fun _ => True
          have hnode : nodeAt [program] ⟨0, [0]⟩ = some (.stmt
              (.forLoop (some (.variable name initial true)) condition update body)) :=
            congrArg (Option.map Node.stmt) hfirst
          exact ⟨program, name, initial, condition, update, body, rfl, hnode,
            ((constants_kept .standard).2.2.2 _ 30 program ⟨0, [0]⟩ name initial condition update body
              hparse hnode 9 _ _ hm hm.globals_lt).2⟩
        · contradiction
      · contradiction

end Lox
