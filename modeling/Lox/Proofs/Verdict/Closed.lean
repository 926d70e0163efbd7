import Lox.Proofs.Grammar.Safety
import Lox.Proofs.Heap.Histories
import Lox.Proofs.Verdict.Returns

/-!
# Verdicts on source texts

A source text is either carried out, or rejected, or it fails at run time for a reason that a program
can have. Nothing else leaves an interpreter: no return, because the grammar has none outside of
functions and the body of a function stops those in it; no node that cannot be run and no operator
that is not known, because programs are in normal form and so are the bodies of all functions that
earlier texts have left behind.

* `Session.Reached`, `Session.InOrder` — the sessions that source texts lead to, and what they keep;
* `Verdict.Closed` — the verdicts on source texts;
* `forLoopAsserting`, `invokeAsserting` — loops and calls that check what they take for granted;
* `outcomes_closed` — every source text in every session that is reached.
-/

namespace Lox

variable {host : Host}

/-! ### Sessions that are reached -/

/-- **The sessions that source texts lead to,** whatever becomes of each text. -/
inductive Session.Reached (host : Host) : Session → Prop
  | fresh : Reached host (Session.new host)
  | interpreted {m : Session} (h : Reached host m) (source : String) :
    Reached host (m.interpret host source).2
  | reported {m : Session} (h : Reached host m) (source : String) :
    Reached host (m.run host source).2

/-- **The terms of source texts:** all their nodes are in normal form. -/
def Terms.sources (host : Host) : Terms where
  base := (Session.new host).store
  globals := (Session.new host).rest.globals
  fits := Node.Normal
  opens _ := True
  inherited _ _ _ hnode hpart := hnode.part hpart
  integral := Session.integral_new host _

theorem Journal.concludes_interpret {m : Journal} (hm : Sound (Terms.sources host) m)
    (source : String) :
    Concludes (Terms.sources host) m (scribe.interpret host 0 m source).1
      (scribe.interpret host 0 m source).2 :=
  sound_interpret host 0 hm (fun _ => trivial) fun _ hprogram s hs =>
    ⟨false, Stmt.allNormal_iff.1 (normal_of_parse hprogram) s hs⟩

/-- **Sessions in order** have a journal that is sound on the terms of source texts. -/
def Session.InOrder (host : Host) (m : Session) : Prop :=
  ∃ m' : Journal, m'.plain = m ∧ Journal.Sound (Terms.sources host) m'

namespace Session

variable {m : Session}

theorem inOrder_new (host : Host) : (Session.new host).InOrder host :=
  ⟨Journal.scribe.new host, rfl, rfl, Store.lawful_nil, rfl⟩

theorem InOrder.interpret (hm : m.InOrder host) (source : String) :
    (m.interpret host source).2.InOrder host := by
  obtain ⟨m', rfl, hm'⟩ := hm
  rw [← Journal.scribe.interpret_plain host 0]
  exact ⟨_, rfl, (Journal.concludes_interpret hm' source).1⟩

/-- What has been written and recorded does not matter. -/
theorem InOrder.of_store_eq (hm : m.InOrder host) {c : Console}
    (hglobals : c.globals = m.rest.globals) : InOrder host ⟨m.store, c⟩ := by
  obtain ⟨m', rfl, hm'⟩ := hm
  exact ⟨_, rfl, (hm'.of_store_eq (c := c) hglobals).1⟩

theorem InOrder.run (hm : m.InOrder host) (source : String) :
    (m.run host source).2.InOrder host := by
  -- a report leaves the session as it is, apart from the events
  let after := m.interpret host source
  obtain ⟨events, hrecord⟩ := after.2.exists_record_eq host after.1.report.status.events
  change (after.2.record host after.1.report.status.events).InOrder host
  rw [hrecord]
  exact (hm.interpret source).of_store_eq rfl

/-- **A session that is reached** is in order. -/
theorem Reached.inOrder (hm : m.Reached host) : m.InOrder host := by
  induction hm with
  | fresh => exact inOrder_new host
  | interpreted _ source ih => exact ih.interpret source
  | reported _ source ih => exact ih.run source

end Session

/-! ### The verdicts -/

/-- **The verdicts on source texts.** A loop that is given up is a run that does not end. -/
inductive Verdict.Closed : Verdict → Prop
  | ok : Closed .ok
  | unscanned (e : ScanError) : Closed (.rejected (.scan e))
  | complained {e : SyntaxError} (h : e.IsComplaint) : Closed (.rejected (.syntactic e))
  | failed {e : RuntimeError} (h : e.cause.isInternal = false) : Closed (.interrupted (.failed e))
  | unending : Closed (.interrupted .unfinished)

/-- **Reports** on these verdicts are no crashes. -/
theorem Verdict.Closed.status_ne_crashed {verdict : Verdict} (h : verdict.Closed)
    (hends : verdict ≠ .interrupted .unfinished) : verdict.report.status ≠ .crashed := by
  cases h with
  | unending => exact absurd rfl hends
  | _ => exact nofun

theorem Session.conclude_ne_rejected (result : EStateM.Result Interrupt Session Unit)
    (e : CompileError) : (conclude result).1 ≠ .rejected e := by
  cases result <;> exact nofun

theorem Session.eq_error_of_conclude {result : EStateM.Result Interrupt Session Unit}
    {e : Interrupt} (h : (conclude result).1 = .interrupted e) : ∃ m, result = .error e m := by
  cases result with
  | ok _ m => contradiction
  | error e' m => exact ⟨m, Verdict.interrupted.inj h ▸ rfl⟩

/-- **No program lets a return out** if none of its statements contains one. -/
theorem Session.executeProgram_ne_returning (m : Session) {program : List Stmt}
    (hprogram : Stmt.anyReturns program = false) (value : Value) :
    (m.executeProgram host program).1 ≠ .interrupted (.returning value) := by
  have hall := returnsOnlyIf_executeAll
    (fun s => returnsOnlyIf_execute host s m.rest.globals) program m
  intro hverdict
  obtain ⟨m', hresult⟩ := eq_error_of_conclude hverdict
  rw [hresult] at hall
  rw [hall value rfl] at hprogram
  contradiction

/-- **The verdict on a source text** in a session that is in order. -/
theorem Session.InOrder.closed_interpret {m : Session} (hm : m.InOrder host) (source : String) :
    (m.interpret host source).1.Closed := by
  obtain ⟨m', rfl, hm'⟩ := hm
  obtain ⟨-, -, horder⟩ := Journal.concludes_interpret hm' source
  -- the verdict is what it is without a journal
  have hverdict : (Journal.scribe.interpret host 0 m' source).1 =
      (m'.plain.interpret host source).1 :=
    congrArg Prod.fst (Journal.scribe.interpret_plain host 0 m' source)
  rw [hverdict] at horder
  have hrunnable : ∀ node, (Terms.sources host).fits node → node.IsRunnable :=
    fun node hnode => Node.Normal.isRunnable hnode
  obtain ⟨events, ⟨e, hparse, hrejected⟩ | ⟨program, hparse, hrun⟩⟩ :=
    Session.interpret_parse host m'.plain source
  · rw [hrejected]
    cases e with
    | scan e => exact .unscanned e
    | syntactic e => exact .complained (isComplaint_of_parse hparse)
  · have hreturns : Stmt.anyReturns program = false :=
      Stmt.AllNormal.anyReturns_eq_false (normal_of_parse hparse)
    cases hend : (m'.plain.interpret host source).1 with
    | ok => exact .ok
    | rejected e =>
      rw [hrun] at hend
      exact absurd hend (conclude_ne_rejected _ e)
    | interrupted e =>
      cases e with
      | returning value =>
        -- a program that was parsed has no return outside functions
        rw [hrun] at hend
        exact absurd hend (executeProgram_ne_returning _ hreturns value)
      | failed e => exact .failed (horder _ hend hrunnable)
      | misplaced node => exact absurd hrunnable (horder _ hend)
      | unfinished => exact .unending

/-! ### What loops and calls take for granted -/

section Asserting

variable {α β ω ε : Type}

/-- An action that insists on a clause which may be absent, and crashes without it. -/
def asserting (crash : ε) (clause : Option α) (act : α → ScopeId → Action ω ε β)
    (scope : ScopeId) : Action ω ε β :=
  match clause with
  | none => throw crash
  | some a => act a scope

/-- **The clauses of a for statement,** each of which insists on being there when it is run. -/
def forLoopAsserting (crash : Interrupt) (host : Host) (d : Nat → Evaluator) (start : Option Stmt)
    (condition update : Option Expr) (body : Stmt) : ForLoop Console Interrupt where
  start := if start.isNone then none
    else some (asserting crash start fun s scope => (d 4).execute s scope)
  condition := if condition.isNone then none
    else some (asserting crash condition fun e scope => (d 4).evaluate e scope)
  update := if update.isNone then none
    else some (asserting crash update fun e scope => do let _ ← (d 4).evaluate e scope)
  body := fun scope => (d 4).execute body scope
  copied := Exec.emitContents host

/-- **No clause is run that is not there.** -/
theorem forLoopAsserting_eq (crash : Interrupt) (host : Host) (d : Nat → Evaluator)
    (start : Option Stmt) (condition update : Option Expr) (body : Stmt) :
    forLoopAsserting crash host d start condition update body =
      forLoop host d start condition update body := by
  cases start <;> cases condition <;> cases update <;> rfl

/-- The two kinds of functions. -/
inductive FunctionKind
  | native | closure

/-- What a call asks a value for: its kind, its name and its arity, if it is a function. -/
def Value.function? : Value → Option (FunctionKind × String × Int)
  | .literal _ => none
  | .native f => some (.native, f.name, f.arity)
  | .closure f => some (.closure, f.name, f.arity)

/-- **Calls by the kind of the function,** which insist on a value of that kind. -/
def invokeAsserting (crash : ε) (hooks : CallHooks ω ε) (callee : Value) (arguments : List Value) :
    Action ω ε Value :=
  match callee.function? with
  | none => throw (hooks.refuse .notCallable)
  | some (kind, name, arity) =>
    if arguments.length = arity then
      match kind, callee with
      | .native, .native f => hooks.native f arguments
      | .closure, .closure f => do
        let activation ← Action.onStore (·.activate f arguments)
        hooks.body f arguments activation
      | _, _ => throw crash
    else throw (hooks.refuse (.arityMismatch name arity arguments.length))

/-- **No function is taken for one of the other kind.** -/
theorem invokeAsserting_eq (crash : ε) (hooks : CallHooks ω ε) (callee : Value)
    (arguments : List Value) :
    invokeAsserting crash hooks callee arguments = invoke hooks callee arguments := by
  cases callee with
  | literal value => rfl
  | native f => rfl
  | closure f => simp only [invokeAsserting, invoke, Value.function?, Int.natCast_inj]

end Asserting

/-! ### Arithmetic -/

/-- **Arithmetic does not fail:** the binary operators have a value on all numbers. -/
theorem exists_applyBinary {kind : TokenKind} {level : Precedence}
    (hlevel : binaryLevel? kind = some level) (x y : Float) :
    ∃ v, applyBinary kind (.number x) (.number y) = .ok v := by
  cases kind <;> first | contradiction | exact ⟨_, rfl⟩

/-! ### Outcomes -/

/-- **The outcomes of a source text** in a session that is reached. The text is carried out, it is
rejected with a complaint, or it fails for a reason that is not internal, unless it does not end; so
a report never tells of a crash. The reasons hold in general. No expression lets a return out, in any
session, and a statement does so only if it contains one outside the functions in it, which no
statement of a program does that was parsed. Arithmetic has a value on all numbers. And what loops
and calls take for granted is so: they are the same as those that crash if it is not. -/
theorem outcomes_closed {m : Session} (hm : m.Reached host) (source : String) :
    (m.interpret host source).1.Closed ∧
    ((m.interpret host source).1 ≠ .interrupted .unfinished →
      (m.run host source).1.status ≠ .crashed) ∧
    (∀ e scope (before after : Session) value,
      (Evaluator.inRoom host).evaluate e scope before ≠ .error (.returning value) after) ∧
    (∀ s scope (before after : Session) value,
      (Evaluator.inRoom host).execute s scope before = .error (.returning value) after →
        s.returns = true) ∧
    (∀ program, parse host.room source = .ok program → Stmt.anyReturns program = false) ∧
    (∀ kind level, binaryLevel? kind = some level → ∀ x y : Float,
      ∃ v, applyBinary kind (.number x) (.number y) = .ok v) ∧
    (∀ x : Float, ∃ v, applyUnary .minus (.number x) = .ok v) ∧
    (∀ crash d start condition update body,
      forLoopAsserting crash host d start condition update body =
        forLoop host d start condition update body) ∧
    ∀ (crash : Interrupt) (hooks : CallHooks Console Interrupt) callee arguments,
      invokeAsserting crash hooks callee arguments = invoke hooks callee arguments := by
  have hclosed := hm.inOrder.closed_interpret source
  refine ⟨hclosed, hclosed.status_ne_crashed, ?_, ?_, ?_, ?_, ?_, ?_, ?_⟩
  · intro e scope before after value hresult
    have houtcome := returnsOnlyIf_evaluate host e scope before
    rw [hresult] at houtcome
    exact houtcome value rfl
  · intro s scope before after value hresult
    have houtcome := returnsOnlyIf_execute host s scope before
    rw [hresult] at houtcome
    exact houtcome value rfl
  · exact fun program hparse => Stmt.AllNormal.anyReturns_eq_false (normal_of_parse hparse)
  · exact fun kind level hlevel x y => exists_applyBinary hlevel x y
  · exact fun x => ⟨_, rfl⟩
  · exact fun crash d start condition update body => forLoopAsserting_eq crash host d ..
  · exact fun crash hooks callee arguments => invokeAsserting_eq crash hooks callee arguments

/-- A text that calls a function of an earlier one, in a session in which a text has failed. -/
theorem outcomes_closed_call :
    ∃ m : Session, m.Reached Host.standard ∧
      (m.interpret Host.standard "print half(1) / 0;").1.Closed := by
  have hnew : Session.Reached Host.standard (Session.new Host.standard) := .fresh
  have hm := (hnew.interpreted "fun half(n) \x7b return n / 2; \x7d").reported "half();"
  exact ⟨_, hm, (outcomes_closed hm "print half(1) / 0;").1⟩

end Lox
