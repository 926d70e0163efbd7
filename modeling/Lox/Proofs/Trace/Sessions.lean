import Lox.Proofs.Trace.Additions
import Lox.Proofs.Trace.Grammar

/-!
# Traces of sessions

What a traced session logs while it reads a source text. Between the tokens and the statements stand
the visits of the productions, and they are the brackets of the tree that has been read. When the
text is rejected the visits break off, and the productions without an exit are those in which the
error arose.

* `Complete` — the visits of a program that has been read;
* `BrokenOff` — the visits up to an error;
* `Reading.visits_ofTokens` — the visits of some tokens are one or the other;
* `Session.Logs`, `logs_bracketed` — what a session logs of a source text.
-/

namespace Lox

/-- **The visits of a program.** -/
structure Complete (visits : List Visit) (program : List Stmt) : Prop where
  /-- The visits can be read off the program. -/
  eq_words : visits = Stmt.words program
  /-- Every exit names the latest entry that has none yet, and every entry has its exit. -/
  balanced : Balanced visits
  /-- Every expression is built by one visit of its production, and no other visit builds one. -/
  built : visits.filterMap Visit.built? = (Stmt.allNodes program).flatMap Expr.builtBy
  /-- There is one pair of brackets for each node. -/
  pairs : ∀ production : Production, production.builds = true →
    visits.count (.entering production) =
        (Stmt.allNodes program).countP (production ∈ ·.builtBy) ∧
      visits.count (.exiting production) =
        (Stmt.allNodes program).countP (production ∈ ·.builtBy)

/-- **The visits up to an error.** The productions in progress are those that the error tells of
when the same tokens are read with a backtrace. -/
structure BrokenOff (room : Nat) (tokens : Array Token) (visits : List Visit) (h : Halt) :
    Prop where
  /-- The backtrace belongs to the error at which the tokens are given up. -/
  halted : ∃ c, (Parse.program (.inRoom room) : Parse (List Stmt)) (.start tokens) =
      .error h.error c ∧
    (Parse.program (.inRoom room) : Backtraced (List Stmt)) (.start tokens) = .error h c
  /-- The entries without an exit are those of the productions in progress, the innermost last. -/
  unmatched_eq : unmatched visits = some h.inProgress.reverse
  /-- Nothing but their exits is missing. -/
  completed : Balanced (visits ++ h.inProgress.reverse.map .exiting)

theorem Complete.of_eq_words {visits : List Visit} {program : List Stmt}
    (h : visits = Stmt.words program) (hbalanced : Balanced visits) : Complete visits program := by
  have hbuilt : visits.filterMap Visit.built? = (Stmt.allNodes program).flatMap Expr.builtBy :=
    h ▸ Stmt.filterMap_built_words program
  exact ⟨h, hbalanced, hbuilt, fun _ hbuilds => count_of_filterMap_built hbalanced hbuilt hbuilds⟩

/-- **The visits of some tokens.** -/
theorem Reading.visits_ofTokens (room : Nat) (tokens : Array Token) :
    (∃ program, (Reading.ofTokens room tokens).statements = .ok program ∧
      Complete (Reading.ofTokens room tokens).visits program) ∨
    ∃ h : Halt, (Reading.ofTokens room tokens).statements = .error h.error ∧
      BrokenOff room tokens (Reading.ofTokens room tokens).visits h := by
  obtain ⟨hsame, hends⟩ := records_program (Descent.records_inRoom room) (.start tokens)
  change _ = Parse.program (.inRoom room) (.start tokens) at hsame
  unfold Reading.ofTokens
  rw [← hsame]
  cases htraced : (Parse.program (.inRoom room) : Backtraced (List Stmt)) (.start tokens) with
  | ok program c =>
    rw [htraced] at hends
    obtain ⟨word, hvisits, hword, hprogram⟩ := hends
    have hreverse : c.visits.reverse = word := by simp [hvisits, Cursor.start]
    have hbalanced : Balanced c.visits.reverse := hreverse ▸ hword
    exact .inl ⟨program, rfl, .of_eq_words (hreverse.trans hprogram) hbalanced⟩
  | error h c =>
    rw [htraced] at hends hsame
    obtain ⟨word, hvisits, hword⟩ := hends
    have hreverse : c.visits.reverse = word := by simp [hvisits, Cursor.start]
    have hunmatched : unmatched c.visits.reverse = some h.inProgress.reverse := hreverse ▸ hword
    exact .inr ⟨h, rfl, ⟨c, hsame.symm, htraced⟩, hunmatched, balanced_completed hunmatched⟩

/-- **What a session logs of a source text.** -/
inductive Session.Logs (host : Host) (m : Session) (source : String) : Prop
  /-- A text without tokens is not logged at all. -/
  | unscanned {e : ScanError} (htokens : tokenize source = .error e)
    (hsame : m.interpret host source = (.rejected (.scan e), m))
  /-- The tokens are followed by the visits of the program, and these by its statements and by what
  is logged when they are run. -/
  | parsed {tokens : Array Token} {visits : List Visit} {program : List Stmt} {later : List Event}
    (htokens : tokenize source = .ok tokens) (hparse : parse host.room source = .ok program)
    (hvisits : Complete visits program)
    (hlog : (m.interpret host source).2.log =
      m.log ++ .tokens tokens.toList :: visits.map .visit ++ .statements program :: later)
  /-- The tokens are followed by the visits up to the error, and these by nothing. -/
  | rejected {tokens : Array Token} {visits : List Visit} {h : Halt}
    (htokens : tokenize source = .ok tokens)
    (hparse : parse host.room source = .error (.syntactic h.error))
    (hvisits : BrokenOff host.room tokens visits h)
    (hlog : (m.interpret host source).2.log = m.log ++ .tokens tokens.toList :: visits.map .visit)

/-- **Traced sessions log the brackets of what they read,** of every source text, in every session
and in any room. -/
theorem logs_bracketed {host : Host} (htracing : host.tracing = true) (m : Session)
    (source : String) : m.Logs host source := by
  cases htokens : tokenize source with
  | error e => exact .unscanned htokens (by rw [Session.interpret, Session.read, htokens])
  | ok tokens =>
    obtain ⟨program, hstatements, hvisits⟩ | ⟨h, hstatements, hvisits⟩ :=
      Reading.visits_ofTokens host.room tokens
    · obtain ⟨later, hlater⟩ := Session.exists_log_executeProgram host
        ((m.record host (.tokens tokens.toList ::
          (Reading.ofTokens host.room tokens).visits.map .visit)).record host
            [.statements program, .interpreting program.length]) program
      have hlog : (m.interpret host source).2.log = m.log ++ .tokens tokens.toList ::
          (Reading.ofTokens host.room tokens).visits.map .visit ++
            .statements program :: .interpreting program.length :: later := by
        simp only [Session.interpret, Session.read, htokens, hstatements]
        rw [hlater, Session.log_record htracing, Session.log_record htracing]
        simp
      exact .parsed htokens (by simp only [parse, htokens, hstatements]) hvisits hlog
    · have hlog : (m.interpret host source).2.log = m.log ++ .tokens tokens.toList ::
          (Reading.ofTokens host.room tokens).visits.map .visit := by
        simp only [Session.interpret, Session.read, htokens, hstatements]
        exact Session.log_record htracing m _
      exact .rejected htokens (by simp only [parse, htokens, hstatements]) hvisits hlog

/-- A text that is given up among the arguments of a call: five productions are in progress then. -/
theorem logs_bracketed_call : ∃ host : Host, host.tracing = true ∧
    ∃ (tokens : Array Token) (visits : List Visit) (h : Halt),
      tokenize "print f(1;" = .ok tokens ∧ BrokenOff host.room tokens visits h ∧
      h.inProgress = [.printStatement, .expression, .precedence, .call, .argumentList] ∧
      ((Session.new host).interpret host "print f(1;").2.log =
        (Session.new host).log ++ .tokens tokens.toList :: visits.map .visit := by
  let host : Host := { Host.standard with tracing := true }
  have htracing : host.tracing = true := rfl
  refine ⟨host, htracing, ?_⟩
  have hread : ((tokenize "print f(1;").toOption.map fun tokens =>
      match (Parse.program (.inRoom 5000) : Backtraced (List Stmt)) (.start tokens) with
      | .ok _ _ => []
      | .error h _ => h.inProgress) =
      some [.printStatement, .expression, .precedence, .call, .argumentList] := by decide +kernel
  cases logs_bracketed htracing (Session.new host) "print f(1;" with
  | unscanned htokens => rw [htokens] at hread; contradiction
  | parsed htokens hparse =>
    have hfails : (parse 5000 "print f(1;").isOk = false := by decide +kernel
    rw [show parse 5000 "print f(1;" = _ from hparse] at hfails
    contradiction
  | rejected htokens hparse hvisits hlog =>
    obtain ⟨c, -, hbacktraced⟩ := hvisits.halted
    rw [htokens, Except.toOption, Option.map_some, Option.some.injEq,
      show (Parse.program (.inRoom 5000) : Backtraced (List Stmt)) _ = _ from hbacktraced] at hread
    exact ⟨_, _, _, htokens, hvisits, hread, hlog⟩

end Lox
