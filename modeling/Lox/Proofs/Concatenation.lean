import Lox.Proofs.Heap.Frame
import Lox.Proofs.Heap.Integrity
import Lox.Proofs.Monitor.Lines
import Lox.Proofs.Relocation.Origins

/-!
# Sources one after the other

It makes no difference whether two sources are run one after the other or as one, joined by a newline,
apart from the lines of errors: those of nodes of the second source are farther on. A source that is
rejected makes no difference either.

The two runs of the second source come from one run of the same program with marks on its tokens. The
marks are taken away in two ways, one of which moves the marked tokens farther on.

* `Session.LeftAlike` — sessions in which nothing but the places of tokens differs;
* `Verdict.Later` — the same verdict, with the error some lines farther on;
* `Monitor.markedRun` — the run with marks, `Monitor.later_interpret` for what comes of it;
* `Session.interpret_append_ok`, `Session.interpret_append_interrupted` — the two sources joined;
* `Session.feedAll_rejected` — a source that is rejected;
* `concatenation_unobservable` — whole sessions.
-/

namespace Lox

/-! ### What is the same -/

/-- **All places blotted out.** -/
def Relocation.blank : Relocation where
  move t := { t with start := 0, line := 0 }
  line _ := 0
  kind_eq _ := rfl
  lexeme_eq _ := rfl
  value_eq _ := rfl
  line_eq _ := rfl

theorem Relocation.blank_after (r : Relocation) : blank.after r = blank := by
  refine Relocation.ext (funext fun t => ?_) rfl
  change (⟨(r.move t).kind, (r.move t).lexeme, (r.move t).value, 0, 0⟩ : Token) =
    ⟨t.kind, t.lexeme, t.value, 0, 0⟩
  rw [r.kind_eq, r.lexeme_eq, r.value_eq]

namespace Session

/-- **What is seen of the globals:** their names in order, each with the text of its value and whether
it is a constant. -/
def globalView (m : Session) : List (String × String × Bool) :=
  m.globalContents.map fun item => (item.1, item.2.1.display, item.2.2)

/-- **Sessions that are left alike.** -/
structure LeftAlike (m m' : Session) : Prop where
  output_eq : m'.rest.output = m.rest.output
  frames_eq : m'.rest.frames = m.rest.frames
  globals_eq : m'.globalView = m.globalView
  /-- All else is the same as well, events aside, once the places of tokens are blotted out. -/
  places_only : Relocation.blank.session m' = Relocation.blank.session m

theorem globalView_relocate (r : Relocation) (m : Session) :
    (r.session m).globalView = m.globalView := by
  change ((m.store.relocate r.move).contents m.rest.globals).map _ = _
  rw [Store.contents_relocate, List.map_map]
  refine List.map_congr_left fun item _ => ?_
  change (item.1, (item.2.1.relocate r.move).display, item.2.2) = _
  rw [Value.display_relocate]

/-- **Two relocations of one session** are alike. -/
theorem leftAlike_of_relocated {r r' : Relocation} {m m' m₀ : Session}
    (h : m.quiet = r.session m₀) (h' : m'.quiet = r'.session m₀) : m.LeftAlike m' := by
  have hview : ∀ {r : Relocation} {m : Session}, m.quiet = r.session m₀ →
      m.rest.output = m₀.rest.output ∧ m.rest.frames = m₀.rest.frames ∧
        m.globalView = m₀.globalView ∧
        Relocation.blank.session m = Relocation.blank.session m₀ := by
    intro r m h
    refine ⟨congrArg (fun m => m.rest.output) h, congrArg (fun m => m.rest.frames) h, ?_, ?_⟩
    · exact (congrArg globalView h).trans (globalView_relocate r m₀)
    · have hblank := congrArg Relocation.blank.session h
      rw [← Relocation.session_after, Relocation.blank_after] at hblank
      exact hblank
  obtain ⟨houtput, hframes, hglobals, hplaces⟩ := hview h
  obtain ⟨houtput', hframes', hglobals', hplaces'⟩ := hview h'
  exact ⟨houtput'.trans houtput.symm, hframes'.trans hframes.symm, hglobals'.trans hglobals.symm,
    hplaces'.trans hplaces.symm⟩

end Session

/-- **The same verdict, some lines farther on.** -/
structure Verdict.Later (lines : Int) (verdict verdict' : Verdict) : Prop where
  status_eq : verdict'.report.status = verdict.report.status
  error_eq : verdict'.error? =
    verdict.error?.map fun e => { e with line := e.line.map (· + lines) }
  report_eq : verdict.error? = none → verdict'.report = verdict.report

theorem Verdict.eq_ok_of_status {v : Verdict} (h : v.report.status = .ok) : v = .ok := by
  cases v with
  | ok => rfl
  | rejected e => contradiction
  | interrupted i => cases i <;> contradiction

theorem exists_error {room : Nat} {source : String}
    (h : (parse room source).toOption.isSome = false) : ∃ e, parse room source = .error e := by
  cases hparse : parse room source with
  | ok program =>
    rw [hparse] at h
    contradiction
  | error e => exact ⟨e, rfl⟩

/-- **How far on an error with marks comes to stand** when the marks are gone: its line tells. -/
def Verdict.added (line : Nat) : Verdict → Int
  | interrupted (.failed ⟨_, some l⟩) => if l % 2 = 1 then line else 0
  | _ => 0

theorem Verdict.added_eq (line : Nat) (v : Verdict) : v.added line = 0 ∨ v.added line = line := by
  unfold Verdict.added
  split
  · split
    · exact .inr rfl
    · exact .inl rfl
  · exact .inl rfl

theorem Relocation.unmarkLine_eq (line : Nat) (l : Int) :
    unmarkLine line l = unmarkLine 0 l + if l % 2 = 1 then (line : Int) else 0 := by
  unfold unmarkLine
  split <;> simp

/-- **A verdict with marks** is the same without them, wherever the tokens with marks go. -/
theorem Relocation.later_of_unmark (start line : Nat) (v : Verdict) :
    Verdict.Later (v.added line) ((unmark 0 0).verdict v) ((unmark start line).verdict v) := by
  cases v with
  | ok => exact ⟨rfl, rfl, fun _ => rfl⟩
  | rejected e => exact ⟨rfl, rfl, fun _ => rfl⟩
  | interrupted i =>
    cases i with
    | returning v => exact ⟨rfl, rfl, fun _ => rfl⟩
    | misplaced node => exact ⟨rfl, rfl, fun _ => rfl⟩
    | unfinished => exact ⟨rfl, rfl, fun _ => rfl⟩
    | failed e =>
      obtain ⟨cause, l⟩ := e
      cases l with
      | none => exact ⟨rfl, rfl, fun _ => rfl⟩
      | some l =>
        have herror := congrArg (fun l => some (RuntimeError.mk cause (some l))) (unmarkLine_eq line l)
        exact ⟨rfl, herror, fun h => by contradiction⟩

/-- A relocated verdict is a failure only where the verdict was one, for the same cause. -/
theorem Relocation.failed_of_verdict {r : Relocation} {v : Verdict} {e : RuntimeError}
    (h : r.verdict v = .interrupted (.failed e)) :
    ∃ line, v = .interrupted (.failed ⟨e.cause, line⟩) := by
  cases v with
  | ok => contradiction
  | rejected e' => contradiction
  | interrupted i =>
    have hi : r.interrupt i = .failed e := Verdict.interrupted.inj h
    cases i with
    | failed e' =>
      obtain rfl := Interrupt.failed.inj hi
      exact ⟨e'.line, rfl⟩
    | returning v => contradiction
    | misplaced node => contradiction
    | unfinished => contradiction

/-! ### Programs one after the other -/

namespace Session

variable {host : Host} {m : Session}

/-- **Programs one after the other** are run as one: the second only behind the end of the first. -/
theorem executeProgram_append (hm : m.store.Integral (fun _ => True) m.rest.globals)
    (first second : List Stmt) :
    m.executeProgram host (first ++ second) =
      match m.executeProgram host first with
      | (.ok, m₁) => m₁.executeProgram host second
      | stopped => stopped := by
  induction first generalizing m with
  | nil => rfl
  | cons s first ih =>
    -- a statement at the top leaves the global scope where it is, and the rest starts in it
    have hglobals := globals_execute host hm s
    rw [List.cons_append]
    cases hrun : (Evaluator.inRoom host).execute s m.rest.globals m with
    | ok _ m₂ =>
      rw [hrun] at hglobals
      obtain ⟨hm₂, hsame, -⟩ := hglobals
      rw [executeProgram_cons_ok host hrun hsame, executeProgram_cons_ok host hrun hsame]
      exact ih hm₂
    | error e m₂ =>
      rw [executeProgram_cons_error host hrun, executeProgram_cons_error host hrun]

end Session

/-! ### The run with marks -/

namespace Monitor

open Relocation

variable (host : Host) (inputs : List Input)

/-- **The run with marks.** All tokens of the session stand on even lines, and those of the program on
odd ones. -/
def markedRun (chunk : Nat) (m : Monitor) (program : List Stmt) : Verdict × Monitor :=
  scribe.executeProgram host.untraced chunk ((mark 0).monitor m)
    (Stmt.relocateAll (mark 1).move program)

/-- **Without its marks** this is the run of the program where it stands, or farther on. -/
theorem executeProgram_later (chunk : Nat) (m : Monitor) (program : List Stmt) (start line : Nat) :
    scribe.executeProgram host.untraced chunk (stay.monitor m)
        (Stmt.relocateAll (Token.later start line) program) =
      Prod.map (unmark start line).verdict (unmark start line).monitor
        (markedRun host chunk m program) := by
  have hrun := executeProgram_relocate (unmark start line) host.untraced chunk ((mark 0).monitor m)
    (Stmt.relocateAll (mark 1).move program)
  have hodd : (unmark start line).move ∘ (mark 1).move = Token.later start line :=
    congrArg Relocation.move (unmark_after_odd start line)
  rw [← monitor_after, unmark_after_even, Stmt.relocateAll_comp, hodd] at hrun
  exact hrun

/-- **The run of a source** where it stands. -/
theorem interpret_unmark (chunk : Nat) (m : Monitor) {source : String} {program : List Stmt}
    (h : parse host.room source = .ok program) :
    Prod.map id stay.monitor (scribe.interpret host chunk m source) =
      Prod.map (unmark 0 0).verdict (unmark 0 0).monitor (markedRun host chunk m program) := by
  have hstay := interpret_relocate stay host chunk m h
  have hlater : Token.later 0 0 = id := congrArg Relocation.move later_zero
  rw [← executeProgram_later, hlater]
  refine Eq.trans ?_ hstay.symm
  exact Prod.ext (verdict_stay _).symm rfl

/-- **The marks tell the inputs apart:** an error of the run with marks is explained by nodes on odd
lines, if they are from the last input, and by nodes on even lines otherwise. -/
theorem explained_markedRun (program : List Stmt) {i : Interrupt}
    (hi : (markedRun host inputs.length (cleared (scribe.feedAll host inputs).2) program).1 =
      .interrupted i) :
    Explained (.placed 0 fun chunk => mark (if chunk = inputs.length then 1 else 0))
      (markedRun host inputs.length (cleared (scribe.feedAll host inputs).2) program).2 i := by
  let place : Nat → Relocation := fun chunk => mark (if chunk = inputs.length then 1 else 0)
  obtain ⟨hm, -⟩ := sound_session host inputs []
  rw [List.append_nil] at hm
  have hcleared : Sound (.session host inputs) (cleared (scribe.feedAll host inputs).2) :=
    ⟨hm.counted, hm.seen, hm.vouched⟩
  -- the functions of earlier inputs have their nodes on even lines
  have hready : Ready (.placed 0 place)
      ((mark 0).monitor (cleared (scribe.feedAll host inputs).2)) := by
    refine ⟨hcleared.relocate (mark 0) rfl ?_ fun hall => ?_, rfl⟩
    · rintro chunk s ⟨input, hinput, -⟩
      have hold : chunk < inputs.length := (List.getElem?_eq_some_iff.1 hinput).1
      have hplace : place chunk = mark 0 := congrArg mark (if_neg (Nat.ne_of_lt hold))
      exact ⟨.stmt s, by rw [hplace]; rfl⟩
    · -- no input has the number of the next one
      obtain ⟨input, hinput, -⟩ := hall inputs.length (.program [])
      rw [List.getElem?_length] at hinput
      contradiction
  -- and the program has its own on odd ones
  have hprogram : ∀ s ∈ Stmt.relocateAll (mark 1).move program,
      (Premises.placed 0 place).fits inputs.length (.stmt s) := by
    intro s hs
    rw [Stmt.relocateAll_eq_map] at hs
    obtain ⟨s₀, -, rfl⟩ := List.mem_map.1 hs
    have hplace : place inputs.length = mark 1 := congrArg mark (if_pos rfl)
    exact ⟨.stmt s₀, by rw [hplace]; rfl⟩
  obtain ⟨-, -, hexplained⟩ :=
    (runs_executeAll (watched_evaluator host.untraced host.untraced.room 0) hprogram hready).concludes
      (.refl _)
  exact hexplained i hi

/-- **How far on the error of the last input is:** some lines, if its culprit is from this input, and
nothing otherwise. -/
def FartherOn (m : Monitor) (line : Nat) (lines : Int) : Prop :=
  ∃ chunk node input, m.notes.culprit = some (chunk, node) ∧ inputs[chunk]? = some input ∧
    input.Contains host node ∧ lines = if chunk + 1 = inputs.length then (line : Int) else 0

/-- **The line of the run with marks tells** how far on the error is. -/
theorem fartherOn_added {source : String} {program : List Stmt}
    (h : parse host.room source = .ok program) {e : RuntimeError}
    (he : (scribe.feed host inputs.length (scribe.feedAll host inputs).2 (.source source)).1 =
      .interrupted (.failed e)) (hroom : e.cause ≠ .roomExhausted) (line : Nat) :
    FartherOn host (inputs ++ [.source source])
      (scribe.feed host inputs.length (scribe.feedAll host inputs).2 (.source source)).2 line
      ((markedRun host inputs.length (cleared (scribe.feedAll host inputs).2) program).1.added
        line) := by
  -- the error of the marked run has the same cause
  let run := markedRun host inputs.length (cleared (scribe.feedAll host inputs).2) program
  have hwatched := interpret_unmark host inputs.length (cleared (scribe.feedAll host inputs).2) h
  obtain ⟨l₀, hmarked⟩ : ∃ l₀, run.1 = .interrupted (.failed ⟨e.cause, l₀⟩) :=
    failed_of_verdict ((congrArg Prod.fst hwatched).symm.trans he)
  obtain ⟨chunk, node, l, hculprit, rfl⟩ :=
    (explained_markedRun host inputs program hmarked).placed_line hroom
  -- the culprit is from the same input as without the marks
  obtain ⟨hm, -⟩ := sound_session host inputs [.source source]
  obtain ⟨-, -, hexplained⟩ := sound_feed hm host fun node hnode => fits_next host inputs hnode
  obtain ⟨chunk', node', input, -, hculprit', hinput, hnode, -⟩ := (hexplained _ he).traced hroom
  have hsame : some chunk' = some chunk := by
    have hculprits := congrArg (fun run => run.2.notes.culprit.map Prod.fst) hwatched
    change (stay.monitor _).notes.culprit.map Prod.fst =
      ((run.2.notes.culprit.map _).map Prod.fst : Option Nat) at hculprits
    rw [culprit_stay, hculprit] at hculprits
    exact (congrArg (Option.map Prod.fst) hculprit').symm.trans hculprits
  obtain rfl := Option.some.inj hsame
  refine ⟨chunk', node', input, hculprit', hinput, hnode, ?_⟩
  change run.1.added line = _
  rw [hmarked, List.length_append, List.length_singleton]
  -- tokens of the last input stand on odd lines, and all others on even ones
  by_cases hlast : chunk' = inputs.length
  · have hodd : (2 * l + 1) % 2 = 1 := by omega
    rw [if_pos hlast, if_pos (by omega)]
    exact if_pos hodd
  · have heven : ¬ (2 * l + 0) % 2 = 1 := by omega
    rw [if_neg hlast, if_neg (by omega)]
    exact if_neg heven

/-- **A source that is run farther on** looks the same but for the lines of errors. -/
theorem later_interpret {source : String} {program : List Stmt}
    (h : parse host.room source = .ok program) (start line : Nat) (joined : Verdict × Session)
    (hjoined : (Session.feedAll host inputs).2.quiet.executeProgram host.untraced
      (Stmt.relocateAll (Token.later start line) program) = Prod.map id Session.quiet joined) :
    let alone := (Session.feedAll host inputs).2.interpret host source
    alone.2.LeftAlike joined.2 ∧ ∃ lines : Int, (lines = 0 ∨ lines = line) ∧
      Verdict.Later lines alone.1 joined.1 ∧
      ∀ e, alone.1.error? = some e → e.cause ≠ .roomExhausted →
        FartherOn host (inputs ++ [.source source])
          (scribe.feed host inputs.length (scribe.feedAll host inputs).2 (.source source)).2 line
          lines := by
  intro alone
  let m := (cleared (scribe.feedAll host inputs).2)
  let run := markedRun host inputs.length m program
  have hplain : m.plain = (Session.feedAll host inputs).2 :=
    congrArg Prod.snd (scribe.feedAll_plain host inputs)
  -- the source where it stands
  have hwatched := interpret_unmark host inputs.length m h
  have halone : Prod.map id Machine.plain (scribe.interpret host inputs.length m source) = alone := by
    rw [Scribe.interpret_plain, hplain]
  have hverdict : alone.1 = (unmark 0 0).verdict run.1 :=
    (congrArg Prod.fst halone).symm.trans (congrArg Prod.fst hwatched)
  have hsession : alone.2.quiet = (unmark 0 0).session run.2.plain := by
    rw [← halone, ← session_stay]
    exact congrArg (fun run => run.2.plain) hwatched
  -- and farther on
  have hlater : Prod.map id Session.quiet joined =
      Prod.map (unmark start line).verdict (fun m => (unmark start line).session m.plain) run := by
    rw [← hjoined, ← hplain, ← session_stay]
    refine (scribe.executeProgram_plain host.untraced inputs.length (stay.monitor m) _).symm.trans ?_
    rw [executeProgram_later]
    rfl
  have hverdict' : joined.1 = (unmark start line).verdict run.1 := congrArg Prod.fst hlater
  refine ⟨Session.leftAlike_of_relocated hsession (congrArg Prod.snd hlater), run.1.added line,
    run.1.added_eq line, ?_, fun e he hroom => ?_⟩
  · rw [hverdict, hverdict']
    exact later_of_unmark start line run.1
  · have hfeed : (scribe.feed host inputs.length (scribe.feedAll host inputs).2 (.source source)).1 =
        .interrupted (.failed e) := (congrArg Prod.fst halone).trans (Verdict.eq_of_error? he)
    exact fartherOn_added host inputs h hfeed hroom line

end Monitor

/-! ### Sources one after the other -/

namespace Session

variable {host : Host} {m : Session} {a b : String} {first second : List Stmt}

/-- **The joined source** is run as the two programs, of which the second is farther on. -/
theorem interpret_append (m : Session) (ha : parse host.room a = .ok first)
    (hb : parse host.room b = .ok second) :
    m.quiet.executeProgram host.untraced (first ++
        Stmt.relocateAll (Token.later (a.length + 1) (1 + a.toList.count '\n')) second) =
      Prod.map id quiet (m.interpret host (a ++ "\n" ++ b)) :=
  interpret_quiet_of_parse host m (parse_append ha hb)

variable (hm : m.store.Integral (fun _ => True) m.rest.globals)

include hm

/-- Behind a source that comes to its end, the second program is run. -/
theorem interpret_append_ok (ha : parse host.room a = .ok first)
    (hb : parse host.room b = .ok second) (hok : (m.interpret host a).1 = .ok) :
    (m.interpret host a).2.quiet.executeProgram host.untraced
        (Stmt.relocateAll (Token.later (a.length + 1) (1 + a.toList.count '\n')) second) =
      Prod.map id quiet (m.interpret host (a ++ "\n" ++ b)) := by
  have hfirst := interpret_quiet_of_parse host m ha
  rw [← Prod.eta (m.interpret host a), hok] at hfirst
  rw [← interpret_append m ha hb, executeProgram_append (m := m.quiet) hm, hfirst]
  rfl

/-- Behind one that is interrupted, nothing is. -/
theorem interpret_append_interrupted (ha : parse host.room a = .ok first)
    (hb : parse host.room b = .ok second) {i : Interrupt}
    (hi : (m.interpret host a).1 = .interrupted i) :
    Prod.map id quiet (m.interpret host (a ++ "\n" ++ b)) =
      (.interrupted i, (m.interpret host a).2.quiet) := by
  have hfirst := interpret_quiet_of_parse host m ha
  rw [← Prod.eta (m.interpret host a), hi] at hfirst
  rw [← interpret_append m ha hb, executeProgram_append (m := m.quiet) hm, hfirst]
  rfl

end Session

/-! ### Sources that are rejected -/

namespace Session

variable {host : Host} {source : String} {e : CompileError}

/-- **Without a trace** not even events remain of a source that is rejected. -/
theorem interpret_eq_of_error (m : Session) (h : parse host.room source = .error e)
    (htracing : host.tracing = false) : (m.interpret host source).2 = m := by
  have hrecord : ∀ events, m.record host events = m := fun events =>
    if_neg (by rw [htracing]; exact Bool.false_ne_true)
  -- whatever is rejected, it is rejected after nothing but records
  have hread : m.read host source = (.error e, m) := by
    unfold parse at h
    unfold read
    cases htokens : tokenize source with
    | error e' =>
      rw [htokens] at h
      exact congrArg (fun r => (r, m)) h
    | ok tokens =>
      simp only [htokens, hrecord] at h ⊢
      cases hstatements : (Reading.ofTokens host.room tokens).statements with
      | error e' =>
        rw [hstatements] at h
        exact congrArg (fun r => (r, m)) h
      | ok program =>
        rw [hstatements] at h
        contradiction
  rw [interpret, hread]

/-- **A source that is rejected** can be taken out of a session. -/
theorem feedAll_rejected (inputs after : List Input) (h : parse host.room source = .error e) :
    ∃ verdicts,
      (feedAll host (inputs ++ after)).1 = (feedAll host inputs).1 ++ verdicts ∧
      (feedAll host (inputs ++ .source source :: after)).1 =
        (feedAll host inputs).1 ++ .rejected e :: verdicts ∧
      (feedAll host (inputs ++ .source source :: after)).2.quiet =
        (feedAll host (inputs ++ after)).2.quiet := by
  let before := feedAll host inputs
  have hrejected := interpret_quiet_of_error host before.2 h
  -- what comes later goes the same way from the session that the source leaves as from the one before
  obtain ⟨verdicts, m, hfold, hsame⟩ := foldl_feedNext_quiet host after before.1 before.2
  obtain ⟨m', hfold', hquiet⟩ := hsame (before.1 ++ [.rejected e])
    (before.2.interpret host source).2 (congrArg Prod.snd hrejected)
  have hwithout : feedAll host (inputs ++ after) = (before.1 ++ verdicts, m) :=
    List.foldl_append.trans hfold
  have hwith : feedAll host (inputs ++ .source source :: after) =
      (before.1 ++ .rejected e :: verdicts, m') := by
    have hverdict : (before.2.interpret host source).1 = .rejected e := congrArg Prod.fst hrejected
    have hnext : feedNext host before (.source source) =
        (before.1 ++ [.rejected e], (before.2.interpret host source).2) := by
      rw [← hverdict]
      rfl
    refine List.foldl_append.trans ?_
    rw [List.foldl_cons]
    change after.foldl (feedNext host) (feedNext host before (.source source)) = _
    rw [hnext, hfold', List.append_assoc, List.singleton_append]
  refine ⟨verdicts, congrArg Prod.fst hwithout, congrArg Prod.fst hwith, ?_⟩
  rw [hwith, hwithout]
  exact hquiet

end Session

/-! ### Whole sessions -/

/-- **Two sources one after the other are one source.** In every session, whatever it has been given and
whatever has become of it, take two sources that are accepted in the room of the host.

* If the first one comes to its end, then the second one is run behind it as it is with the two joined
  by a newline: with the same output, and the same frames, globals and all else in the end but for the
  places of tokens; and with the same verdict but for the line of an error. This is farther on by the
  lines of the first source where the second one has the culprit, the node that the error was the first
  to leave, and is the same where the culprit is from any input before.
* If the first one is interrupted, then the two joined are interrupted by the same, in the same state.

A source that is rejected leaves nothing behind but the events of a trace, and whatever is given to the
session later has the same verdicts and the same effects without it. -/
theorem concatenation_unobservable (host : Host) (inputs : List Input) :
    (∀ a b first second, parse host.room a = .ok first → parse host.room b = .ok second →
      let alone := (Session.feedAll host inputs).2.interpret host a
      let joined := (Session.feedAll host inputs).2.interpret host (a ++ "\n" ++ b)
      (alone.1 = .ok →
        let next := alone.2.interpret host b
        let watched := Monitor.scribe.feed host (inputs.length + 1)
          (Monitor.scribe.feedAll host (inputs ++ [.source a])).2 (.source b)
        let added : Nat := 1 + a.toList.count '\n'
        Prod.map id Machine.plain watched = next ∧ next.2.LeftAlike joined.2 ∧
        ∃ lines : Int, (lines = 0 ∨ lines = added) ∧ Verdict.Later lines next.1 joined.1 ∧
          ∀ e, next.1.error? = some e → e.cause ≠ .roomExhausted →
            Monitor.FartherOn host (inputs ++ [.source a, .source b]) watched.2 added lines) ∧
      ∀ i, alone.1 = .interrupted i →
        joined.1 = .interrupted i ∧ joined.2.quiet = alone.2.quiet) ∧
    ∀ source e, parse host.room source = .error e →
      let m := (Session.feedAll host inputs).2
      let rejected := m.interpret host source
      rejected.1 = .rejected e ∧ rejected.2.quiet = m.quiet ∧
      (host.tracing = false → rejected.2 = m) ∧
      ∀ after, ∃ verdicts,
        (Session.feedAll host (inputs ++ after)).1 =
          (Session.feedAll host inputs).1 ++ verdicts ∧
        (Session.feedAll host (inputs ++ .source source :: after)).1 =
          (Session.feedAll host inputs).1 ++ .rejected e :: verdicts ∧
        (Session.feedAll host (inputs ++ .source source :: after)).2.quiet =
          (Session.feedAll host (inputs ++ after)).2.quiet := by
  refine ⟨?_, ?_⟩
  · intro a b first second ha hb alone joined
    have hm := Session.integral_feedAll host inputs
    refine ⟨?_, ?_⟩
    · intro hok next watched added
      have hafter : (Session.feedAll host (inputs ++ [.source a])).2 = alone.2 :=
        congrArg Prod.snd (List.foldl_append (f := Session.feedNext host))
      have hplain : (Monitor.scribe.feedAll host (inputs ++ [.source a])).2.plain = alone.2 :=
        (congrArg Prod.snd (Monitor.scribe.feedAll_plain host _)).trans hafter
      have hwatched : Prod.map id Machine.plain watched = next :=
        (Monitor.scribe.feed_plain host (inputs.length + 1) _ (.source b)).trans
          (congrArg (fun m => m.feed host (.source b)) hplain)
      -- the second source is run behind the first one, once where it stands and once farther on
      have hjoined := Session.interpret_append_ok hm ha hb hok
      have hlater := Monitor.later_interpret host (inputs ++ [.source a]) hb (a.length + 1) added
        joined (by rw [hafter]; exact hjoined)
      rw [hafter, List.append_assoc, List.length_append] at hlater
      exact ⟨hwatched, hlater⟩
    · intro i hi
      -- the second source is not run at all
      have hjoined := Session.interpret_append_interrupted hm ha hb hi
      exact ⟨congrArg Prod.fst hjoined, congrArg Prod.snd hjoined⟩
  · intro source e h m rejected
    have hrejected := Session.interpret_quiet_of_error host m h
    exact ⟨congrArg Prod.fst hrejected, congrArg Prod.snd hrejected,
      Session.interpret_eq_of_error m h, fun after => Session.feedAll_rejected inputs after h⟩

/-- A variable that is missing on the second line of the second source: it is missing on the fourth line
of the two joined, of which the first has two lines. The other way round the first of the two fails, and
so do the two joined. A third source is rejected. -/
theorem concatenation_unobservable_missing :
    let host : Host := ⟨40, 40, fun _ => 0, false⟩
    let earlier : List Input := [.source "var x = 1;"]
    let m := (Session.feedAll host earlier).2
    let a := "fun f() \x7b\n  return x; \x7d"
    let b := "print f();\nprint y;"
    let next := (m.interpret host a).2.interpret host b
    let joined := m.interpret host (a ++ "\n" ++ b)
    next.1.error? = some ⟨.undefinedVariable "y", some 2⟩ ∧
    joined.1.error? = some ⟨.undefinedVariable "y", some 4⟩ ∧
    next.2.LeftAlike joined.2 ∧
    (m.interpret host (b ++ "\n" ++ a)).1 =
      .interrupted (.failed ⟨.undefinedVariable "f", some 1⟩) ∧
    (m.interpret host "print x").2 = m := by
  intro host earlier m a b next joined
  obtain ⟨haccepted, hrejected⟩ := concatenation_unobservable host earlier
  obtain ⟨first, ha⟩ : ∃ program, parse host.room a = .ok program :=
    exists_program (by decide +kernel)
  obtain ⟨second, hb⟩ : ∃ program, parse host.room b = .ok program :=
    exists_program (by decide +kernel)
  obtain ⟨e, hc⟩ : ∃ e, parse host.room "print x" = .error e := exists_error (by decide +kernel)
  have hnext : next.1.error? = some ⟨.undefinedVariable "y", some 2⟩ := by decide +kernel
  have hjoined : joined.1.error? = some ⟨.undefinedVariable "y", some 4⟩ := by
    have hstatus : (m.interpret host a).1.report.status = .ok := by decide +kernel
    have hculprit : (Monitor.scribe.feed host (earlier.length + 1)
        (Monitor.scribe.feedAll host (earlier ++ [.source a])).2 (.source b)).2.notes.culprit.map
          Prod.fst = some 2 := by decide +kernel
    -- the culprit is from the last source, and so the line is two farther on in the joined one
    obtain ⟨-, -, lines, -, hlater, hlines⟩ :=
      (haccepted a b first second ha hb).1 (Verdict.eq_ok_of_status hstatus)
    obtain ⟨chunk, node, input, hchunk, -, -, rfl⟩ := hlines _ hnext nofun
    rw [hchunk] at hculprit
    obtain rfl := Option.some.inj hculprit
    refine hlater.error_eq.trans ?_
    rw [show Verdict.error? _ = _ from hnext]
    decide +kernel
  -- the end of the two sources is that of the joined one
  have halike : next.2.LeftAlike joined.2 := by
    have hstatus : (m.interpret host a).1.report.status = .ok := by decide +kernel
    exact ((haccepted a b first second ha hb).1 (Verdict.eq_ok_of_status hstatus)).2.1
  -- the other way round the first source is interrupted
  have hfails : (m.interpret host b).1.error? = some ⟨.undefinedVariable "f", some 1⟩ := by
    decide +kernel
  have hswapped := (haccepted b a second first hb ha).2 _ (Verdict.eq_of_error? hfails)
  exact ⟨hnext, hjoined, halike, hswapped.1, (hrejected _ e hc).2.2.1 rfl⟩

end Lox
