import Lox.Proofs.Grammar.Rejection.Agreement
import Lox.Proofs.Grammar.Rejection.Expression

/-!
# Statements that can still be completed

Wherever a statement or a declaration fails, what has been read of it can be completed. A
conditional is completed without a second branch, a constant is given a value, and what is left of a
loop is as short as can be. A return outside all functions counts as not begun.

* `mends_block` — blocks, inside a function or not;
* `mends_statementStep`, `mends_declarationStep` — statements and declarations, from the productions
  that are reached from them;
* `descent_mends` — the productions that are tied together, by induction on the room;
* `mends_program` — whole programs.
-/

namespace Lox

/-- **A statement that is missing** can be supplied. -/
theorem bodyMarks_nil (inside : Bool) :
    BodyMarks inside [.literal .nil, .word .semicolon] :=
  ⟨.expression (.literal .nil), trivial, rfl, rfl⟩

theorem BodyMarks.stmtMarks {inside : Bool} {ms : List Mark} (h : BodyMarks inside ms) :
    StmtMarks inside ms := by
  obtain ⟨st, hnormal, -, hmarks⟩ := h
  exact ⟨st, hnormal, hmarks⟩

section Statements

variable {α : Type} {d : Descent} {s : Spot} {t : Token}

/-! ### Simple statements -/

/-- **An expression and a semicolon.** Behind the expression, the semicolon is what is missing. -/
theorem mends_expression_semicolon {want : List Mark → Prop} {origin : Spot} {front : List Mark}
    {about : Complaint} {make : Expr → α} (hd : d.Mend) (hs : s.Lexed)
    (hfront : Passed origin front s)
    (hwant : ∀ e : Expr, e.Normal → want (front ++ e.marks ++ [.word .semicolon])) :
    Mends want origin (do
      let e ← Parse.expression d
      let _ ← Parse.expect .semicolon about
      return make e) s := by
  refine mends_bind (finds_expression hd.sound hs) ?_ fun e s₁ he => ?_
  · refine (mends_expression hd hs).within hfront ?_
    rintro _ ⟨e, hnormal, -, rfl⟩
    exact ⟨_, hwant e hnormal⟩
  · refine mends_expect_bind ?_ fun _ _ _ => mends_pure _ _
    exact .of_passed (hfront.trans he.passed) _ (hwant e he.normal)

theorem mends_expressionStatement (hd : d.Mend) (hs : s.Lexed) :
    Mends (fun ms => ∃ st : Stmt, st.Normal s.isInside ∧ st.isDeclaration = false ∧
      st.beginsLoop = true ∧ st.marks = ms) s (Parse.expressionStatement d) s :=
  mends_traced (mends_expression_semicolon (hd.below 2) hs (Passed.refl s)
    fun e hnormal => ⟨.expression e, hnormal, rfl, rfl, rfl⟩)

theorem mends_printStatement (hd : d.Mend) (hs : s.Lexed) (ht : s.next? = some t)
    (hkind : t.kind = .printWord) :
    Mends (BodyMarks s.isInside) s (Parse.printStatement d) s.advance := by
  have hword : Passed s [.word .printWord] s.advance := Passed.step ht hkind
  exact mends_traced (mends_expression_semicolon (hd.below 2) (hword.lexed hs) hword
    fun e hnormal => ⟨.print e, hnormal, rfl, rfl⟩)

/-- An expression that may be absent. -/
theorem mends_expressionUnless {want : List Mark → Prop} {origin : Spot} {front : List Mark}
    (hd : d.Mend) (hs : s.Lexed) (kind : TokenKind) (hfront : Passed origin front s)
    (hwant : ∀ e : Expr, e.Normal → ∃ tail, want (front ++ Expr.optionMarks (some e) ++ tail)) :
    Mends want origin (Parse.expressionUnless d kind) s := by
  refine mends_check_bind fun absent => ?_
  cases absent with
  | true => exact mends_pure none s
  | false =>
    refine mends_bind_pure ((mends_expression hd hs).within hfront ?_)
    rintro _ ⟨e, hnormal, -, rfl⟩
    exact hwant e hnormal

/-- **An expression that may be absent, and the token behind it.** -/
theorem mends_optional_bind {want : List Mark → Prop} {origin : Spot} {front : List Mark}
    {kind : TokenKind} {about : Complaint} {next : Option Expr → Parse α} (hd : d.Mend)
    (hs : s.Lexed) (hfront : Passed origin front s)
    (hwant : ∀ value : Option Expr, Expr.OptionNormal value →
      ∃ rest, want (front ++ Expr.optionMarks value ++ rest))
    (hnext : ∀ value s', Passed s (Expr.optionMarks value ++ [.word kind]) s' →
      Expr.OptionNormal value → Mends want origin (next value) s') :
    Mends want origin (do
      let value ← Parse.expressionUnless d kind
      let _ ← Parse.expect kind about
      next value) s := by
  refine mends_bind (finds_expressionUnless hd.sound hs kind) ?_ ?_
  · exact mends_expressionUnless hd hs kind hfront fun e hnormal =>
      hwant (some e) hnormal.optionNormal
  · rintro value s₁ ⟨hpassed, hnormal⟩
    refine mends_expect_bind ?_ fun t ht hkind => ?_
    · obtain ⟨rest, hwhole⟩ := hwant value hnormal
      exact .of_passed (hfront.trans hpassed) rest hwhole
    · exact hnext value _ (hpassed.trans (Passed.step ht hkind)) hnormal

/-- **Returns.** The keyword of one outside all functions has been passed, but it is what is
reported, so that any statement may stand there instead. -/
theorem mends_returnStatement (hd : d.Mend) (hs : s.Lexed) (ht : s.next? = some t)
    (hkind : t.kind = .returnWord) :
    Mends (BodyMarks s.isInside) s (Parse.returnStatement d) s.advance := by
  have hword : Passed s [.token t] s.advance := Passed.step ht rfl
  have hs₁ := hword.lexed hs
  refine mends_traced (mends_previous_bind ht ?_)
  have hget : Mends (BodyMarks s.isInside) s (get : Parse Cursor) s.advance := fun _ => trivial
  refine mends_bind (finds_get s.advance) hget fun c s₁ ⟨hs₁, hc⟩ => ?_
  subst hs₁
  by_cases hdepth : c.functionDepth = 0
  · simp only [if_pos hdepth]
    -- the keyword is what is reported, and in its place the whole statement may stand
    have hopens : Opens (BodyMarks s.isInside) s s.index :=
      .of_passed (Passed.refl s) _ (bodyMarks_nil _)
    have hfinds : Finds (fun _ _ => False) (throw (.topLevelReturn t) : Parse PUnit) s.advance :=
      finds_throw _ _
    have hthrow : Mends (BodyMarks s.isInside) s (throw (.topLevelReturn t) : Parse PUnit)
        s.advance := fun _ _ _ => hopens
    exact mends_bind hfinds hthrow fun _ _ hfalse => hfalse.elim
  have hinside : s.advance.isInside = true := hc ▸ Cursor.isInside_spot hdepth
  simp only [if_neg hdepth]
  -- whatever has been read of the value, a semicolon completes the statement
  have hreturn : ∀ value : Option Expr, Expr.OptionNormal value →
      BodyMarks s.isInside ([.token t] ++ Expr.optionMarks value ++ [.word .semicolon]) :=
    fun value hnormal => ⟨.returning t value, ⟨hinside, hkind, hnormal⟩, rfl, rfl⟩
  exact mends_optional_bind (hd.below 2) hs₁ hword (fun value hnormal => ⟨_, hreturn value hnormal⟩)
    fun _ _ _ _ => mends_pure _ _

/-! ### Conditionals and loops -/

/-- **A condition in parentheses,** and what is read behind it. The whole is completed by any
condition and any statement. -/
theorem mends_condition_bind {want : List Mark → Prop} {origin : Spot} {front : List Mark}
    {inside : Bool} {before behind : Complaint} {next : Expr → Parse α} (hd : d.Mend)
    (hs : s.Lexed) (hfront : Passed origin front s)
    (hwant : ∀ (e : Expr) (ms : List Mark), e.Normal → BodyMarks inside ms →
      want (front ++ (.word .leftParen :: e.marks ++ [.word .rightParen]) ++ ms))
    (hnext : ∀ e s', Passed s (.word .leftParen :: e.marks ++ [.word .rightParen]) s' → e.Normal →
      Mends want origin (next e) s') :
    Mends want origin (do
      let _ ← Parse.expect .leftParen before
      let e ← Parse.expression d
      let _ ← Parse.expect .rightParen behind
      next e) s := by
  have hbody := bodyMarks_nil inside
  refine mends_expect_bind ?_ fun t ht hkind => ?_
  · -- without the parenthesis the condition is missing too, for which any expression will do
    have hmissing := hwant (.literal .nil) _ trivial hbody
    rw [List.append_assoc] at hmissing
    exact .of_passed hfront _ hmissing
  have hopen : Passed s [.word .leftParen] s.advance := Passed.step ht hkind
  have hs₁ := hopen.lexed hs
  refine mends_bind (finds_expression hd.sound hs₁) ?_ fun e s₁ he => ?_
  · refine (mends_expression hd hs₁).within (hfront.trans hopen) ?_
    rintro _ ⟨e, hnormal, -, rfl⟩
    exact ⟨_, by simpa using hwant e _ hnormal hbody⟩
  · have hcondition := hopen.trans he.passed
    refine mends_expect_bind ?_ fun u hu hukind => ?_
    · refine .of_passed (hfront.trans hcondition)
        [.word .rightParen, .literal .nil, .word .semicolon] ?_
      simpa using hwant e _ he.normal hbody
    · exact hnext e _ (hcondition.trans (Passed.step hu hukind)) he.normal

theorem mends_ifStatement (hd : d.Mend) (hs : s.Lexed) (ht : s.next? = some t)
    (hkind : t.kind = .ifWord) :
    Mends (BodyMarks s.isInside) s (Parse.ifStatement d) s.advance := by
  have hword : Passed s [.word .ifWord] s.advance := Passed.step ht hkind
  have hfirst : ∀ (e : Expr) (ms : List Mark), e.Normal → BodyMarks s.isInside ms →
      BodyMarks s.isInside ([.word .ifWord] ++
        (.word .leftParen :: e.marks ++ [.word .rightParen]) ++ ms) := by
    rintro e _ hnormal ⟨yes, hyes, hdecl, rfl⟩
    exact ⟨.conditional e yes none, ⟨hnormal, hyes, hdecl⟩, rfl, by simp [Stmt.marks]⟩
  refine mends_traced (mends_condition_bind (hd.below 2) (hword.lexed hs) hword hfirst ?_)
  intro condition s₁ hparens hcondition
  have hhead := hword.trans hparens
  have hs₁ := hhead.lexed hs
  have hinside : s₁.isInside = s.isInside := hhead.isInside_eq
  refine mends_bind ((hd 2).sound.statement s₁ hs₁) ?_ ?_
  · refine ((hd 2).statement s₁ hs₁).within hhead fun ms hms => ⟨[], ?_⟩
    rw [List.append_nil]
    exact hfirst condition ms hcondition (hinside ▸ hms)
  rintro yes s₂ ⟨hyes, hdecl⟩
  have hyesNormal : yes.Normal s.isInside := hinside ▸ hyes.normal
  have hthen := hhead.trans hyes.passed
  refine mends_choice (fun w hw hwkind => ?_) fun _ _ _ => mends_pure _ _
  -- the first branch would have taken this `else` itself if it could
  have hclosed : yes.endsOpen = false := by
    by_contra hopen
    exact hyes.ahead (by simpa using hopen) w hw hwkind
  have helse := hthen.trans (Passed.step hw (m := .word _) hwkind)
  refine mends_bind_pure (((hd 2).statement _ (helse.lexed hs)).within helse ?_)
  rintro _ ⟨no, hno, hnoDecl, rfl⟩
  have hnoNormal : no.Normal s.isInside := helse.isInside_eq ▸ hno
  refine ⟨[], .conditional condition yes (some no), ?_, rfl, by simp [Stmt.marks]⟩
  exact ⟨hcondition, hyesNormal, hdecl, hclosed, hnoNormal, hnoDecl⟩

theorem mends_whileStatement (hd : d.Mend) (hs : s.Lexed) (ht : s.next? = some t)
    (hkind : t.kind = .whileWord) :
    Mends (BodyMarks s.isInside) s (Parse.whileStatement d) s.advance := by
  have hword : Passed s [.word .whileWord] s.advance := Passed.step ht hkind
  have hloop : ∀ (e : Expr) (ms : List Mark), e.Normal → BodyMarks s.isInside ms →
      BodyMarks s.isInside ([.word .whileWord] ++
        (.word .leftParen :: e.marks ++ [.word .rightParen]) ++ ms) := by
    rintro e _ hnormal ⟨body, hbody, hdecl, rfl⟩
    exact ⟨.whileLoop e body, ⟨hnormal, hbody, hdecl⟩, rfl, by simp [Stmt.marks]⟩
  refine mends_traced (mends_condition_bind (hd.below 2) (hword.lexed hs) hword hloop ?_)
  intro condition s₁ hparens hcondition
  have hhead := hword.trans hparens
  have hs₁ := hhead.lexed hs
  refine mends_bind_pure (((hd 2).statement s₁ hs₁).within hhead fun ms hms => ⟨[], ?_⟩)
  rw [List.append_nil]
  exact hloop condition ms hcondition (hhead.isInside_eq ▸ hms)

/-! ### Declarations of variables, and for loops -/

/-- A name for what has none yet. -/
def someName : Token := ⟨.identifier, "f", none, 0, 1⟩

/-- The written form of a statement that a loop may begin with. -/
def FirstMarks (inside : Bool) (ms : List Mark) : Prop :=
  ∃ st : Stmt, st.Normal inside ∧ st.beginsLoop = true ∧ st.marks = ms

theorem FirstMarks.stmtMarks {inside : Bool} {ms : List Mark} (h : FirstMarks inside ms) :
    StmtMarks inside ms := by
  obtain ⟨st, hnormal, -, hmarks⟩ := h
  exact ⟨st, hnormal, hmarks⟩

/-- **Declarations of variables.** A value completes the declaration of a constant. -/
theorem mends_variableDeclaration (hd : d.Mend) (hs : s.Lexed) (ht : s.next? = some t)
    (const : Bool) (hkind : t.kind = if const then .constWord else .varWord) :
    Mends (FirstMarks s.isInside) s (Parse.variableDeclaration d const) s.advance := by
  let word : Mark := .word (if const then .constWord else .varWord)
  have hword : Passed s [word] s.advance := Passed.step ht hkind
  -- a value and a semicolon complete what has been read so far, at every point
  have hvalue : ∀ (name : Token) (e : Expr), name.kind = .identifier → e.Normal →
      FirstMarks s.isInside
        ([word] ++ [.token name] ++ [.word .equal] ++ e.marks ++ [.word .semicolon]) := by
    intro name e hname hnormal
    refine ⟨.variable name (some e) const, ⟨hname, hnormal.optionNormal, fun _ => rfl⟩, rfl, ?_⟩
    simp [Stmt.marks, word]
  refine mends_traced (mends_expect_bind ?_ fun name hname hident => ?_)
  · exact .of_passed hword _ (hvalue someName (.literal .nil) rfl trivial)
  have hnamed := hword.trans (Passed.step hname (m := .token _) rfl)
  refine mends_choice (fun u hu hukind => ?_) fun u hu hukind => ?_
  · have hequal := hnamed.trans (Passed.step hu (m := .word _) hukind)
    have hs₁ := hequal.lexed hs
    have hfinds : Finds (fun i s' => ∃ e, i = some e ∧
        ExprRead .assignment s.advance.advance.advance e s')
        (some <$> Parse.expression (d.below 2)) s.advance.advance.advance :=
      finds_map (finds_expression (hd.below 2).sound hs₁) fun e _ he => ⟨e, rfl, he⟩
    refine mends_bind hfinds ?_ ?_
    · refine mends_bind_pure ((mends_expression (hd.below 2) hs₁).within hequal ?_)
      rintro _ ⟨e, hnormal, -, rfl⟩
      exact ⟨_, hvalue name e hident hnormal⟩
    · rintro _ s₁ ⟨e, rfl, he⟩
      refine mends_expect_bind ?_ fun _ _ _ => mends_pure _ _
      exact .of_passed (hequal.trans he.passed) _ (hvalue name e hident he.normal)
  · -- the declaration of a variable may end here, that of a constant may not
    have hopens : Opens (FirstMarks s.isInside) s s.advance.advance.index := by
      refine .of_passed hnamed [.word .equal, .literal .nil, .word .semicolon] ?_
      simpa [Expr.marks] using hvalue name (.literal .nil) hident trivial
    cases const with
    | true => exact mends_reject_bind (fun _ => hopens) _
    | false => exact mends_expect_bind hopens fun _ _ _ => mends_pure _ _

/-- What a loop does first. -/
theorem mends_forStart (hd : d.Mend) (hs : s.Lexed) :
    Mends (fun ms => ∃ start : Option Stmt,
      (∀ st ∈ start, st.beginsLoop = true ∧ st.Normal s.isInside) ∧ startMarks start = ms) s
      (Parse.forStart d) s := by
  have hsome : ∀ {walk : Parse Stmt} {s₁ : Spot}, Mends (FirstMarks s.isInside) s walk s₁ →
      Mends (fun ms => ∃ start : Option Stmt,
        (∀ st ∈ start, st.beginsLoop = true ∧ st.Normal s.isInside) ∧ startMarks start = ms) s
        (walk >>= fun st => pure (some st)) s₁ := by
    intro walk s₁ hwalk
    refine mends_bind_pure (hwalk.mono ?_)
    rintro _ ⟨st, hnormal, hbegins, rfl⟩
    exact ⟨some st, by simpa using ⟨hbegins, hnormal⟩, rfl⟩
  -- a semicolon, a variable, a constant or an expression
  refine mends_choice (fun _ _ _ => mends_pure _ _) fun _ _ _ => ?_
  refine mends_choice (fun t ht hkind => ?_) fun _ _ _ => ?_
  · exact hsome (mends_variableDeclaration hd hs ht false hkind)
  refine mends_choice (fun t ht hkind => ?_) fun _ _ _ => ?_
  · exact hsome (mends_variableDeclaration hd hs ht true hkind)
  refine hsome ((mends_expressionStatement hd hs).mono ?_)
  rintro _ ⟨st, hnormal, -, hbegins, rfl⟩
  exact ⟨st, hnormal, hbegins, rfl⟩

/-- **A whole loop,** from its clauses and the written form of its body. -/
theorem bodyMarks_forLoop {inside : Bool} {start : Option Stmt} {condition update : Option Expr}
    {ms : List Mark} (hstart : ∀ st ∈ start, st.beginsLoop = true ∧ st.Normal inside)
    (hcondition : Expr.OptionNormal condition) (hupdate : Expr.OptionNormal update)
    (hms : BodyMarks inside ms) :
    BodyMarks inside ([.word .forWord] ++ [.word .leftParen] ++ startMarks start ++
      Expr.optionMarks condition ++ [.word .semicolon] ++ Expr.optionMarks update ++
      [.word .rightParen] ++ ms) := by
  obtain ⟨body, hnormal, hdecl, rfl⟩ := hms
  refine ⟨.forLoop start condition update body, ?_, rfl, by simp [Stmt.marks_forLoop]⟩
  exact Stmt.normal_forLoop.2 ⟨hstart, hcondition, hupdate, hnormal, hdecl⟩

/-- **For loops.** The clauses that have been read are kept, and all others may be absent. -/
theorem mends_forStatement (hd : d.Mend) (hs : s.Lexed) (ht : s.next? = some t)
    (hkind : t.kind = .forWord) :
    Mends (BodyMarks s.isInside) s (Parse.forStatement d) s.advance := by
  have hword : Passed s [.word .forWord] s.advance := Passed.step ht hkind
  have hbody := bodyMarks_nil s.isInside
  have hnone := Expr.optionNormal_none
  refine mends_traced (mends_expect_bind ?_ fun u hu hukind => ?_)
  · -- without the parenthesis all clauses are missing
    have hempty : ∀ st ∈ (none : Option Stmt), st.beginsLoop = true ∧ st.Normal s.isInside := by
      simp
    have hmissing := bodyMarks_forLoop hempty hnone hnone hbody
    simp only [List.append_assoc] at hmissing
    exact .of_passed hword _ hmissing
  have hopen := hword.trans (Passed.step hu (m := .word _) hukind)
  have hs₁ := hopen.lexed hs
  -- the first clause, which brings its own semicolon
  refine mends_bind (finds_forStart (hd.below 2).sound hs₁) ?_ ?_
  · refine (mends_forStart (hd.below 2) hs₁).within hopen ?_
    rintro _ ⟨start, hstart, rfl⟩
    rw [hopen.isInside_eq] at hstart
    have hwhole := bodyMarks_forLoop hstart hnone hnone hbody
    exact ⟨_, by simpa only [List.append_assoc] using hwhole⟩
  rintro start s₁ ⟨hstartMarks, hstart⟩
  rw [hopen.isInside_eq] at hstart
  have h₁ := hopen.trans hstartMarks
  -- the condition, for which the update may still be absent
  refine mends_optional_bind (hd.below 2) (h₁.lexed hs) h₁ (fun condition hcondition => ?_)
    fun condition s₂ hconditionMarks hcondition => ?_
  · have hwhole := bodyMarks_forLoop hstart hcondition hnone hbody
    exact ⟨_, by simpa only [List.append_assoc] using hwhole⟩
  have h₂ := h₁.trans hconditionMarks
  -- the update, for which any body will do
  refine mends_optional_bind (hd.below 2) (h₂.lexed hs) h₂ (fun update hupdate => ?_)
    fun update s₃ hupdateMarks hupdate => ?_
  · have hwhole := bodyMarks_forLoop hstart hcondition hupdate hbody
    exact ⟨_, by simpa only [List.append_assoc] using hwhole⟩
  have h₃ := h₂.trans hupdateMarks
  -- the body, whose own written form is the rest of the loop
  refine mends_bind_pure (((hd 2).statement _ (h₃.lexed hs)).within h₃ fun ms hms => ⟨[], ?_⟩)
  have hwhole := bodyMarks_forLoop hstart hcondition hupdate (h₃.isInside_eq ▸ hms)
  simpa only [List.append_assoc, List.append_nil] using hwhole

/-! ### Blocks and functions -/

/-- The written form of the declarations of a block, the closing brace included. -/
def BlockMarks (inside : Bool) (ms : List Mark) : Prop :=
  ∃ body : List Stmt, Stmt.AllNormal inside body ∧ Stmt.listMarks body ++ [.word .rightBrace] = ms

/-- **Declarations with one more behind them.** -/
theorem DeclarationsRead.allNormal_append {s s' : Spot} {body : List Stmt} {st : Stmt}
    (h : DeclarationsRead s body s') (hst : st.Normal s'.isInside) :
    Stmt.AllNormal s.isInside (body.reverse ++ [st]) := by
  rw [Stmt.allNormal_append]
  exact ⟨h.normal, h.passed.isInside_eq ▸ hst, trivial⟩

/-- **Blocks,** the closing brace included. -/
theorem mends_block (hd : d.Mend) (hs : s.Lexed) :
    Mends (BlockMarks s.isInside) s (Parse.block d) s := by
  have hfinds : ∀ body s', DeclarationsRead s body s' → Finds (Turn.Says (DeclarationsRead s)
      fun body s'' => Passed s (Stmt.listMarks body) s'' ∧ Stmt.AllNormal s.isInside body)
      (do if ← Parse.check .rightBrace then return Turn.done body.reverse
          if ← Parse.check .eof then return Turn.done body.reverse
          return Turn.again ((← (d 1).declaration) :: body)) s' := fun _ _ h =>
    finds_blockTurn hd.sound hs h
  refine mends_bind (finds_repeated (DeclarationsRead s) hfinds (.nil s)) ?_ ?_
  · refine mends_repeated id (DeclarationsRead s) hfinds (fun body s' h => ?_) (.nil s)
    refine mends_check_bind fun b => ?_
    cases b with
    | true => exact mends_pure _ _
    | false =>
    refine mends_check_bind fun b => ?_
    cases b with
    | true => exact mends_pure _ _
    | false =>
    -- behind the declarations so far, another one and a brace complete the block
    refine mends_bind_pure (((hd 1).declaration s' (h.passed.lexed hs)).within h.passed ?_)
    rintro _ ⟨st, hst, rfl⟩
    refine ⟨[.word .rightBrace], body.reverse ++ [st], h.allNormal_append hst, ?_⟩
    rw [Stmt.listMarks_append, Stmt.listMarks, Stmt.listMarks, List.append_nil]
  · rintro body s₁ ⟨hpassed, hnormal⟩
    refine mends_expect_bind ?_ fun _ _ _ => mends_pure _ _
    exact .of_passed hpassed [.word .rightBrace] ⟨body, hnormal, rfl⟩

/-- **A whole function,** from its name, its parameters and the written form of its block. -/
theorem stmtMarks_function {name : Token} {parameters : List Token} {ms : List Mark}
    (inside : Bool) (hident : name.kind = .identifier)
    (hall : ∀ p ∈ parameters, p.kind = .identifier) (hlength : parameters.length ≤ maxArguments)
    (hms : BlockMarks true ms) :
    StmtMarks inside ([.word .funWord] ++ [.token name] ++ [.word .leftParen] ++
      between (fun p => [.token p]) parameters ++ [.word .rightParen] ++ [.word .leftBrace] ++
      ms) := by
  obtain ⟨body, hbody, rfl⟩ := hms
  exact ⟨.function name parameters body, ⟨hident, hall, hlength, hbody⟩, by simp [Stmt.marks]⟩

/-- A block that is missing can be empty. -/
theorem blockMarks_nil (inside : Bool) : BlockMarks inside [.word .rightBrace] :=
  ⟨[], trivial, rfl⟩

/-- **A parameter.** -/
theorem mends_parameter (s : Spot) :
    Mends (fun ms => ∃ p : Token, p.kind = .identifier ∧ [.token p] = ms) s
      (Parse.expect .identifier (.expected "parameter name")) s :=
  mends_expect (.of_passed (Passed.refl s) [.token someName] ⟨someName, rfl, rfl⟩)

/-- **The rest of a function,** behind its parameters. -/
theorem mends_functionRest (hd : d.Mend) (hs : s.Lexed) {name : Token} {parameters : List Token}
    {s₁ : Spot} (hident : name.kind = .identifier)
    (hpassed : Passed s ([.word .funWord] ++ [.token name] ++ [.word .leftParen] ++
      between (fun p => [.token p]) parameters) s₁)
    (hlength : parameters.length ≤ maxArguments) (hall : ∀ p ∈ parameters, p.kind = .identifier) :
    Mends (StmtMarks s.isInside) s (do
      let _ ← Parse.expect .rightParen (.expected ") after parameters")
      let _ ← Parse.expect .leftBrace (.expected "\x7b before function body")
      return Stmt.function name parameters (← Parse.insideFunction (Parse.block d))) s₁ := by
  -- an empty body completes the function, wherever its head ends
  have hmissing := stmtMarks_function s.isInside hident hall hlength (blockMarks_nil true)
  refine mends_expect_bind ?_ fun v hv hvkind => ?_
  · exact .of_passed hpassed _ (by simpa only [List.append_assoc] using hmissing)
  have hclose := hpassed.trans (Passed.step hv (m := .word _) hvkind)
  refine mends_expect_bind ?_ fun w hw hwkind => ?_
  · exact .of_passed hclose _ (by simpa only [List.append_assoc] using hmissing)
  have hhead := hclose.trans (Passed.step hw (m := .word _) hwkind)
  have hs₂ : s₁.advance.advance.inside.Lexed := hhead.lexed hs
  have hblock : Mends (BlockMarks true) s₁.advance.advance
      (Parse.insideFunction (Parse.block d)) s₁.advance.advance :=
    mends_insideFunction (mends_block hd hs₂)
  refine mends_bind_pure (hblock.within hhead fun ms hms => ⟨[], ?_⟩)
  rw [List.append_nil]
  exact stmtMarks_function s.isInside hident hall hlength hms

theorem mends_functionDeclaration (hd : d.Mend) (hs : s.Lexed) (ht : s.next? = some t)
    (hkind : t.kind = .funWord) :
    Mends (StmtMarks s.isInside) s (Parse.functionDeclaration d) s.advance := by
  have hword : Passed s [.word .funWord] s.advance := Passed.step ht hkind
  have hempty := blockMarks_nil true
  -- up to its parameters, a function is completed without any
  have hwhole : ∀ name : Token, name.kind = .identifier → StmtMarks s.isInside
      ([.word .funWord] ++ [.token name] ++ [.word .leftParen] ++ [.word .rightParen] ++
        [.word .leftBrace] ++ [.word .rightBrace]) := by
    intro name hident
    have hnone : ∀ p ∈ ([] : List Token), p.kind = .identifier := List.forall_mem_nil _
    have hmarks := stmtMarks_function s.isInside hident hnone (Nat.zero_le _) hempty
    exact hmarks
  refine mends_traced (mends_expect_bind ?_ fun name hname hident => ?_)
  · exact .of_passed hword _ (by simpa only [List.append_assoc] using hwhole someName rfl)
  have hnamed := hword.trans (Passed.step hname (m := .token _) rfl)
  refine mends_expect_bind ?_ fun u hu hukind => ?_
  · exact .of_passed hnamed _ (by simpa only [List.append_assoc] using hwhole name hident)
  have hopen := hnamed.trans (Passed.step hu (m := .word _) hukind)
  have hs₁ := hopen.lexed hs
  -- a parenthesis behind the other one means that there are no parameters
  refine mends_check_bind fun none => ?_
  cases none with
  | true => exact mends_functionRest (hd.below 2) hs hident hopen (Nat.zero_le _) (by simp)
  | false =>
    have hfinds := fun (s : Spot) (_ : s.Lexed) => finds_parameter s
    refine mends_bind (finds_commaSeparated hs₁ hfinds) ?_ ?_
    · have hmends := fun (s : Spot) (_ : s.Lexed) => mends_parameter s
      refine (mends_commaSeparated rfl hs₁ hfinds hmends).within hopen ?_
      rintro _ ⟨parameters, hlength, hall, rfl⟩
      -- the parameters that have been read are kept
      have hmissing := stmtMarks_function s.isInside hident hall hlength hempty
      exact ⟨_, by simpa only [List.append_assoc] using hmissing⟩
    · rintro parameters s₂ ⟨hpassed, hlength, hall⟩
      exact mends_functionRest (hd.below 2) hs hident (hopen.trans hpassed) hlength hall

/-! ### Tying the productions together -/

/-- **Statements.** -/
theorem mends_statementStep (hd : d.Mend) (hs : s.Lexed) :
    Mends (BodyMarks s.isInside) s (Parse.statementStep d) s := by
  have hd₁ := hd.below 1
  refine mends_choice (fun t ht hkind => mends_printStatement hd₁ hs ht hkind) fun _ _ _ => ?_
  refine mends_choice (fun t ht hkind => mends_ifStatement hd₁ hs ht hkind) fun _ _ _ => ?_
  refine mends_choice (fun t ht hkind => mends_whileStatement hd₁ hs ht hkind) fun _ _ _ => ?_
  refine mends_choice (fun t ht hkind => mends_forStatement hd₁ hs ht hkind) fun _ _ _ => ?_
  refine mends_choice (fun t ht hkind => mends_returnStatement hd₁ hs ht hkind) fun _ _ _ => ?_
  refine mends_choice (fun t ht hkind => ?_) fun _ _ _ => ?_
  · have hbrace : Passed s [.word .leftBrace] s.advance := Passed.step ht hkind
    refine mends_bind_pure ((mends_block hd₁ (hbrace.lexed hs)).within hbrace ?_)
    rintro _ ⟨body, hnormal, rfl⟩
    exact ⟨[], .block body, hbrace.isInside_eq ▸ hnormal, rfl, by simp [Stmt.marks]⟩
  · refine (mends_expressionStatement hd₁ hs).mono ?_
    rintro _ ⟨st, hnormal, hdecl, -, rfl⟩
    exact ⟨st, hnormal, hdecl, rfl⟩

/-- **Declarations.** -/
theorem mends_declarationStep (hd : d.Mend) (hs : s.Lexed) :
    Mends (StmtMarks s.isInside) s (Parse.declarationStep d) s := by
  have hd₁ := hd.below 1
  refine mends_choice (fun t ht hkind => ?_) fun _ _ _ => ?_
  · exact (mends_variableDeclaration hd₁ hs ht false hkind).mono fun _ h => h.stmtMarks
  refine mends_choice (fun t ht hkind => ?_) fun _ _ _ => ?_
  · exact (mends_variableDeclaration hd₁ hs ht true hkind).mono fun _ h => h.stmtMarks
  refine mends_choice (fun t ht hkind => mends_functionDeclaration hd₁ hs ht hkind) fun _ _ _ => ?_
  exact ((hd 1).statement s hs).mono fun _ h => h.stmtMarks

end Statements

/-- **Every descent fails in the middle of something** that can be completed. -/
theorem descent_mends (room : Nat) : (Descent.inRoom room).Mend := by
  have hnesting : ∀ {α : Type} (want : List Mark → Prop) (s : Spot),
      Mends want s (Parse.reject .tooMuchNesting : Parse α) s := by
    intro α want s visits
    obtain ⟨e, c, herror, hnot⟩ := reject_tooMuchNesting (α := α) (s.cursor visits)
    rw [herror]
    exact fun he => absurd he hnot
  have hfull : Productions.full.Mend :=
    ⟨productions_full_sound, fun _ s _ _ => hnesting _ s, fun s _ => hnesting _ s,
      fun s _ => hnesting _ s⟩
  refine recurse_induction hfull (fun inner hinner => ?_) room
  have hinner : Descent.Mend inner := hinner
  exact ⟨productions_step_sound hinner.sound,
    fun _ _ hs hlevel => mends_precedenceStep hinner hs hlevel,
    fun _ hs => mends_statementStep hinner hs, fun _ hs => mends_declarationStep hinner hs⟩

/-- **Programs.** -/
theorem mends_program {d : Descent} {s : Spot} (hd : d.Mend) (hs : s.Lexed) :
    Mends (fun ms => ∃ program : List Stmt, Stmt.AllNormal s.isInside program ∧
      Stmt.listMarks program = ms) s (Parse.program d) s := by
  refine mends_repeated id (DeclarationsRead s) (fun _ _ h => finds_programTurn hd.sound hs h)
    (fun program s' h => ?_) (.nil s)
  refine mends_choice (fun _ _ _ => mends_pure _ _) fun _ _ _ => ?_
  refine mends_bind_pure (((hd 0).declaration s' (h.passed.lexed hs)).within h.passed ?_)
  rintro _ ⟨st, hst, rfl⟩
  refine ⟨[], program.reverse ++ [st], h.allNormal_append hst, ?_⟩
  rw [Stmt.listMarks_append, Stmt.listMarks, Stmt.listMarks, List.append_nil, List.append_nil]

end Lox
