import Lox.Proofs.Grammar.Soundness.Expression

/-!
# Soundness of the productions of statements

Every production of a statement passes exactly the tokens of what it finds, the keyword in front of
it included. A conditional takes every `else` that follows it, so that behind a conditional without
a second branch there is none.

* `DeclarationsRead` — the declarations of a block or a program that have been read so far;
* `finds_block` — blocks, inside a function or not;
* `finds_statementStep`, `finds_declarationStep` — statements and declarations, from the productions
  that are reached from them;
* `descent_sound` — the productions that are tied together, by induction on the room.
-/

namespace Lox

/-- A statement that is no declaration, as the body of a loop or a branch is. -/
def BodyRead (s : Spot) (st : Stmt) (s' : Spot) : Prop :=
  StmtRead s st s' ∧ st.isDeclaration = false

/-- Statements that do not end in an open conditional can be followed by anything. -/
theorem StmtRead.of_closed {s s' : Spot} {st : Stmt} (hpassed : Passed s st.marks s')
    (hnormal : st.Normal s.isInside) (hclosed : st.endsOpen = false) : StmtRead s st s' where
  passed := hpassed
  normal := hnormal
  ahead hopen := by rw [hclosed] at hopen; contradiction

/-! ### Functions -/

theorem Passed.of_inside {s s' : Spot} {ms : List Mark} (h : Passed s.inside ms s') :
    Passed s ms s'.outside := by
  refine ⟨h.tokens_eq, ?_, h.index_eq, h.fits⟩
  rw [Spot.outside, h.depth_eq]
  rfl

section Statements

variable {d : Descent} {s : Spot} {t : Token}

/-! ### Simple statements -/

theorem finds_expressionStatement (hd : d.Sound) (hs : s.Lexed) :
    Finds (fun st s' => BodyRead s st s' ∧ st.beginsLoop = true) (Parse.expressionStatement d)
      s := by
  refine finds_traced (finds_bind (finds_expression (hd.below 2) hs) fun e s₁ he => ?_)
  refine finds_bind (finds_expect .semicolon _) fun t s₂ ⟨ht, hkind, hs₂⟩ => ?_
  subst hs₂
  have hpassed := he.passed.trans (Passed.step ht (m := .word _) hkind)
  exact finds_pure ⟨⟨StmtRead.of_closed hpassed he.normal rfl, rfl⟩, rfl⟩

theorem finds_printStatement (hd : d.Sound) (hs : s.Lexed) (ht : s.next? = some t)
    (hkind : t.kind = .printWord) : Finds (BodyRead s) (Parse.printStatement d) s.advance := by
  have hword : Passed s [.word .printWord] s.advance := Passed.step ht hkind
  refine finds_traced (finds_bind (finds_expression (hd.below 2) (hword.lexed hs)) ?_)
  intro e s₁ he
  refine finds_bind (finds_expect .semicolon _) fun u s₂ ⟨hu, hukind, hs₂⟩ => ?_
  subst hs₂
  have hpassed := (hword.trans he.passed).trans (Passed.step hu (m := .word _) hukind)
  exact finds_pure ⟨StmtRead.of_closed hpassed he.normal rfl, rfl⟩

/-- An expression that is absent in front of a token of some kind. -/
theorem finds_expressionUnless (hd : d.Sound) (hs : s.Lexed) (kind : TokenKind) :
    Finds (fun e s' => Passed s (Expr.optionMarks e) s' ∧ Expr.OptionNormal e)
      (Parse.expressionUnless d kind) s := by
  refine finds_bind (finds_check kind) fun absent s₁ ⟨hs₁, _⟩ => ?_
  subst hs₁
  cases absent with
  | true => exact finds_pure ⟨Passed.refl _, Expr.optionNormal_none⟩
  | false =>
    exact finds_bind (finds_expression hd hs) fun e s₂ he =>
      finds_pure ⟨he.passed, he.normal.optionNormal⟩

theorem finds_returnStatement (hd : d.Sound) (hs : s.Lexed) (ht : s.next? = some t)
    (hkind : t.kind = .returnWord) : Finds (BodyRead s) (Parse.returnStatement d) s.advance := by
  have hword : Passed s [.token t] s.advance := Passed.step ht rfl
  refine finds_traced (finds_bind (finds_previous_of ht) ?_)
  rintro _ _ ⟨rfl, rfl⟩
  refine finds_bind (finds_get s.advance) fun c s₁ ⟨hs₁, hc⟩ => ?_
  subst hs₁
  by_cases hdepth : c.functionDepth = 0
  · simp only [if_pos hdepth]
    exact finds_throw_bind _ _ _
  -- the walk has not complained, so that it is inside of a function
  have hinside : s.advance.isInside = true := hc ▸ Cursor.isInside_spot hdepth
  simp only [if_neg hdepth]
  refine finds_bind (finds_expressionUnless (hd.below 2) (hword.lexed hs) .semicolon) ?_
  rintro value s₂ ⟨hvalue, hnormal⟩
  refine finds_bind (finds_expect .semicolon _) fun u s₃ ⟨hu, hukind, hs₃⟩ => ?_
  subst hs₃
  have hpassed := (hword.trans hvalue).trans (Passed.step hu (m := .word _) hukind)
  exact finds_pure ⟨StmtRead.of_closed hpassed ⟨hinside, hkind, hnormal⟩ rfl, rfl⟩

/-! ### Conditionals and loops -/

/-- **A condition in parentheses,** and what is read behind it. -/
theorem finds_condition_bind {α : Type} {said : α → Spot → Prop} (hd : d.Sound) (hs : s.Lexed)
    {before behind : Complaint} {next : Expr → Parse α}
    (hnext : ∀ e s', Passed s (.word .leftParen :: e.marks ++ [.word .rightParen]) s' → e.Normal →
      Finds said (next e) s') :
    Finds said (do
      let _ ← Parse.expect .leftParen before
      let e ← Parse.expression d
      let _ ← Parse.expect .rightParen behind
      next e) s := by
  refine finds_bind (finds_expect .leftParen _) ?_
  rintro t _ ⟨ht, hkind, rfl⟩
  have hopen : Passed s [.word .leftParen] s.advance := Passed.step ht hkind
  refine finds_bind (finds_expression hd (hopen.lexed hs)) fun e s₁ he => ?_
  refine finds_bind (finds_expect .rightParen _) ?_
  rintro u _ ⟨hu, hukind, rfl⟩
  exact hnext e _ ((hopen.trans he.passed).trans (Passed.step hu hukind)) he.normal

theorem finds_ifStatement (hd : d.Sound) (hs : s.Lexed) (ht : s.next? = some t)
    (hkind : t.kind = .ifWord) : Finds (BodyRead s) (Parse.ifStatement d) s.advance := by
  have hword : Passed s [.word .ifWord] s.advance := Passed.step ht hkind
  refine finds_traced (finds_condition_bind (hd.below 2) (hword.lexed hs) ?_)
  intro condition s₁ hparens hcondition
  have hhead := hword.trans hparens
  refine finds_bind ((hd 2).statement s₁ (hhead.lexed hs)) ?_
  rintro yes s₂ ⟨hyes, hdecl⟩
  have hfirst := hhead.trans hyes.passed
  have hyesNormal : yes.Normal s.isInside := hhead.isInside_eq ▸ hyes.normal
  refine finds_choice (fun w hw helse => ?_) fun w hw hne => ?_
  · -- the first branch would have taken this `else` itself if it could
    have hclosed : yes.endsOpen = false := by
      by_contra hopen
      exact hyes.ahead (by simpa using hopen) w hw helse
    have hsecond := hfirst.trans (Passed.step hw (m := .word _) helse)
    refine finds_bind ((hd 2).statement _ (hsecond.lexed hs)) ?_
    rintro no s₄ ⟨hno, hnoDecl⟩
    have hnoNormal : no.Normal s.isInside := hsecond.isInside_eq ▸ hno.normal
    refine finds_pure ⟨⟨?_, ?_, hno.ahead⟩, rfl⟩
    · simpa [Stmt.marks] using hsecond.trans hno.passed
    · exact ⟨hcondition, hyesNormal, hdecl, hclosed, hnoNormal, hnoDecl⟩
  · refine finds_pure ⟨⟨?_, ⟨hcondition, hyesNormal, hdecl⟩, ?_⟩, rfl⟩
    · simpa [Stmt.marks] using hfirst
    · exact fun _ => Spot.Ahead.of_next? hw hne

theorem finds_whileStatement (hd : d.Sound) (hs : s.Lexed) (ht : s.next? = some t)
    (hkind : t.kind = .whileWord) : Finds (BodyRead s) (Parse.whileStatement d) s.advance := by
  have hword : Passed s [.word .whileWord] s.advance := Passed.step ht hkind
  refine finds_traced (finds_condition_bind (hd.below 2) (hword.lexed hs) ?_)
  intro condition s₁ hparens hcondition
  have hhead := hword.trans hparens
  refine finds_bind ((hd 2).statement s₁ (hhead.lexed hs)) fun body s₂ ⟨hbody, hdecl⟩ => ?_
  have hnormal : body.Normal s.isInside := hhead.isInside_eq ▸ hbody.normal
  refine finds_pure ⟨⟨?_, ⟨hcondition, hnormal, hdecl⟩, hbody.ahead⟩, rfl⟩
  simpa [Stmt.marks] using hhead.trans hbody.passed

/-! ### Declarations of variables, and for loops -/

theorem finds_variableDeclaration (hd : d.Sound) (hs : s.Lexed) (ht : s.next? = some t)
    (const : Bool) (hkind : t.kind = if const then .constWord else .varWord) :
    Finds (fun st s' => StmtRead s st s' ∧ st.beginsLoop = true)
      (Parse.variableDeclaration d const) s.advance := by
  have hword : Passed s [.word (if const then .constWord else .varWord)] s.advance :=
    Passed.step ht hkind
  refine finds_traced (finds_bind (finds_expect .identifier _) ?_)
  rintro name _ ⟨hname, hident, rfl⟩
  have hhead := hword.trans (Passed.step hname (m := .token _) rfl)
  -- with or without a value, the declaration ends in a semicolon
  have hclose : ∀ (initial : Option Expr) (s₁ : Spot),
      Passed s ([.word (if const then .constWord else .varWord)] ++ [.token name] ++
        initial.elim [] fun e => .word .equal :: e.marks) s₁ →
      Expr.OptionNormal initial → (const = true → initial.isSome = true) →
      Finds (fun st s' => StmtRead s st s' ∧ st.beginsLoop = true)
        (do let _ ← Parse.expect .semicolon (.expected "; after variable declaration")
            pure (Stmt.variable name initial const)) s₁ := by
    intro initial s₁ hpassed hnormal hconst
    refine finds_bind (finds_expect .semicolon _) ?_
    rintro u _ ⟨hu, hukind, rfl⟩
    have hall := hpassed.trans (Passed.step hu (m := .word _) hukind)
    have hmarks : Passed s (Stmt.variable name initial const).marks s₁.advance := by
      simpa [Stmt.marks] using hall
    exact finds_pure ⟨StmtRead.of_closed hmarks ⟨hident, hnormal, hconst⟩ rfl, rfl⟩
  refine finds_choice (fun u hu hukind => ?_) fun _ _ _ => ?_
  · have hequal := hhead.trans (Passed.step hu (m := .word _) hukind)
    have hsome : Finds
        (fun i s' => ∃ e, i = some e ∧ ExprRead .assignment s.advance.advance.advance e s')
        (some <$> Parse.expression (d.below 2)) s.advance.advance.advance :=
      finds_map (finds_expression (hd.below 2) (hequal.lexed hs)) fun e _ he => ⟨e, rfl, he⟩
    refine finds_bind hsome ?_
    rintro _ s₂ ⟨e, rfl, he⟩
    refine hclose (some e) s₂ ?_ he.normal.optionNormal fun _ => rfl
    simpa using hequal.trans he.passed
  · -- only a constant has to have a value
    cases const with
    | true => exact finds_reject_bind _ _ _
    | false => exact hclose none _ (by simpa using hhead) Expr.optionNormal_none (by simp)

theorem finds_forStart (hd : d.Sound) (hs : s.Lexed) :
    Finds (fun start s' => Passed s (startMarks start) s' ∧
      ∀ st ∈ start, st.beginsLoop = true ∧ st.Normal s.isInside) (Parse.forStart d) s := by
  -- the clause is whatever statement has been found
  have hsome : ∀ {walk : Parse Stmt} {s₁ : Spot},
      Finds (fun st s' => StmtRead s st s' ∧ st.beginsLoop = true) walk s₁ →
      Finds (fun start s' => Passed s (startMarks start) s' ∧
        ∀ st ∈ start, st.beginsLoop = true ∧ st.Normal s.isInside)
        (walk >>= fun st => pure (some st)) s₁ := by
    intro walk s₁ hwalk
    refine finds_bind hwalk fun st s₂ ⟨hst, hbegins⟩ => finds_pure ⟨hst.passed, ?_⟩
    simpa using ⟨hbegins, hst.normal⟩
  refine finds_choice (fun t ht hkind => finds_pure ⟨Passed.step ht hkind, by simp⟩) fun _ _ _ => ?_
  refine finds_choice (fun t ht hkind => ?_) fun _ _ _ => ?_
  · exact hsome (finds_variableDeclaration hd hs ht false hkind)
  refine finds_choice (fun t ht hkind => ?_) fun _ _ _ => ?_
  · exact hsome (finds_variableDeclaration hd hs ht true hkind)
  exact hsome ((finds_expressionStatement hd hs).mono fun st s' ⟨⟨hst, _⟩, hbegins⟩ => ⟨hst, hbegins⟩)

theorem finds_forStatement (hd : d.Sound) (hs : s.Lexed) (ht : s.next? = some t)
    (hkind : t.kind = .forWord) : Finds (BodyRead s) (Parse.forStatement d) s.advance := by
  have hword : Passed s [.word .forWord] s.advance := Passed.step ht hkind
  refine finds_traced (finds_bind (finds_expect .leftParen _) ?_)
  rintro u _ ⟨hu, hukind, rfl⟩
  have hopen := hword.trans (Passed.step hu (m := .word _) hukind)
  refine finds_bind (finds_forStart (hd.below 2) (hopen.lexed hs)) fun start s₁ ⟨hst, hbegins⟩ => ?_
  rw [hopen.isInside_eq] at hbegins
  have h₁ := hopen.trans hst
  refine finds_bind (finds_expressionUnless (hd.below 2) (h₁.lexed hs) .semicolon) ?_
  rintro condition s₂ ⟨hc, hcNormal⟩
  refine finds_bind (finds_expect .semicolon _) ?_
  rintro v _ ⟨hv, hvkind, rfl⟩
  have h₂ := (h₁.trans hc).trans (Passed.step hv (m := .word _) hvkind)
  refine finds_bind (finds_expressionUnless (hd.below 2) (h₂.lexed hs) .rightParen) ?_
  rintro update s₃ ⟨hup, hupNormal⟩
  refine finds_bind (finds_expect .rightParen _) ?_
  rintro w _ ⟨hw, hwkind, rfl⟩
  have h₃ := (h₂.trans hup).trans (Passed.step hw (m := .word _) hwkind)
  refine finds_bind ((hd 2).statement _ (h₃.lexed hs)) fun body s₄ ⟨hbody, hdecl⟩ => ?_
  have hnormal : body.Normal s.isInside := h₃.isInside_eq ▸ hbody.normal
  -- the body decides what may come next, as it is what the loop ends with
  refine finds_pure ⟨⟨?_, ?_, hbody.ahead⟩, rfl⟩
  · simpa [Stmt.marks_forLoop] using h₃.trans hbody.passed
  · exact Stmt.normal_forLoop.2 ⟨hbegins, hcNormal, hupNormal, hnormal, hdecl⟩

/-! ### Blocks and functions -/

/-- **Declarations that have been read,** the latest first. -/
structure DeclarationsRead (s : Spot) (body : List Stmt) (s' : Spot) : Prop where
  passed : Passed s (Stmt.listMarks body.reverse) s'
  normal : Stmt.AllNormal s.isInside body.reverse

theorem DeclarationsRead.nil (s : Spot) : DeclarationsRead s [] s := ⟨Passed.refl s, trivial⟩

/-- One more declaration. -/
theorem DeclarationsRead.cons {s s' s'' : Spot} {body : List Stmt} {st : Stmt}
    (h : DeclarationsRead s body s') (hst : StmtRead s' st s'') :
    DeclarationsRead s (st :: body) s'' where
  passed := by
    rw [List.reverse_cons, Stmt.listMarks_append, Stmt.listMarks, Stmt.listMarks, List.append_nil]
    exact h.passed.trans hst.passed
  normal := by
    rw [List.reverse_cons, Stmt.allNormal_append]
    exact ⟨h.normal, h.passed.isInside_eq ▸ hst.normal, trivial⟩

/-- **One turn of a block** reads a declaration, or comes to the end of the block. -/
theorem finds_blockTurn (hd : d.Sound) (hs : s.Lexed) {body : List Stmt} {s' : Spot}
    (h : DeclarationsRead s body s') :
    Finds (Turn.Says (DeclarationsRead s) fun body s'' =>
        Passed s (Stmt.listMarks body) s'' ∧ Stmt.AllNormal s.isInside body)
      (do if ← Parse.check .rightBrace then return Turn.done body.reverse
          if ← Parse.check .eof then return Turn.done body.reverse
          return Turn.again ((← (d 1).declaration) :: body)) s' := by
  refine finds_bind (finds_check .rightBrace) ?_
  rintro b s₁ ⟨hs₁, _⟩
  subst hs₁
  cases b with
  | true => exact finds_pure ⟨h.passed, h.normal⟩
  | false =>
  refine finds_bind (finds_check .eof) ?_
  rintro b s₂ ⟨hs₂, _⟩
  subst hs₂
  cases b with
  | true => exact finds_pure ⟨h.passed, h.normal⟩
  | false =>
  exact finds_bind ((hd 1).declaration _ (h.passed.lexed hs)) fun st s₃ hst =>
    finds_pure (h.cons hst)

/-- **Blocks,** the closing brace included. -/
theorem finds_block (hd : d.Sound) (hs : s.Lexed) :
    Finds (fun body s' => Passed s (Stmt.listMarks body ++ [.word .rightBrace]) s' ∧
      Stmt.AllNormal s.isInside body) (Parse.block d) s := by
  refine finds_bind (finds_repeated (DeclarationsRead s) (fun _ _ h => finds_blockTurn hd hs h)
    (.nil s)) ?_
  rintro body s₁ ⟨hpassed, hnormal⟩
  refine finds_bind (finds_expect .rightBrace _) ?_
  rintro t _ ⟨ht, hkind, rfl⟩
  exact finds_pure ⟨hpassed.trans (Passed.step ht hkind), hnormal⟩

/-- **A parameter.** -/
theorem finds_parameter (s : Spot) :
    Finds (fun p s' => Passed s [.token p] s' ∧ p.kind = .identifier)
      (Parse.expect .identifier (.expected "parameter name")) s := by
  refine (finds_expect .identifier _).mono ?_
  rintro p _ ⟨hp, hkind, rfl⟩
  exact ⟨Passed.step hp rfl, hkind⟩

/-- **The rest of a function,** behind its parameters. -/
theorem finds_functionRest (hd : d.Sound) (hs : s.Lexed) {name : Token} {parameters : List Token}
    {s₁ : Spot} (hident : name.kind = .identifier)
    (hpassed : Passed s ([.word .funWord] ++ [.token name] ++ [.word .leftParen] ++
      between (fun p => [.token p]) parameters) s₁)
    (hlength : parameters.length ≤ maxArguments) (hall : ∀ p ∈ parameters, p.kind = .identifier) :
    Finds (StmtRead s) (do
      let _ ← Parse.expect .rightParen (.expected ") after parameters")
      let _ ← Parse.expect .leftBrace (.expected "\x7b before function body")
      return .function name parameters (← Parse.insideFunction (Parse.block d))) s₁ := by
  refine finds_bind (finds_expect .rightParen _) ?_
  rintro v _ ⟨hv, hvkind, rfl⟩
  refine finds_bind (finds_expect .leftBrace _) ?_
  rintro w _ ⟨hw, hwkind, rfl⟩
  have hhead := (hpassed.trans (Passed.step hv (m := .word _) hvkind)).trans
    (Passed.step hw (m := .word _) hwkind)
  have hs₂ : s₁.advance.advance.inside.Lexed := hhead.lexed hs
  have hblock : Finds (fun body s' =>
      Passed s₁.advance.advance (Stmt.listMarks body ++ [.word .rightBrace]) s' ∧
        Stmt.AllNormal true body)
      (Parse.insideFunction (Parse.block d)) s₁.advance.advance := by
    -- the block is read one function farther inside, and what it passes is the same
    refine finds_insideFunction ((finds_block hd hs₂).mono ?_)
    exact fun body s' hbody => ⟨hbody.1.of_inside, hbody.2⟩
  refine finds_bind hblock ?_
  rintro body s₂ ⟨hpassed', hnormal⟩
  refine finds_pure (StmtRead.of_closed ?_ ⟨hident, hall, hlength, hnormal⟩ rfl)
  simpa [Stmt.marks] using hhead.trans hpassed'

theorem finds_functionDeclaration (hd : d.Sound) (hs : s.Lexed) (ht : s.next? = some t)
    (hkind : t.kind = .funWord) : Finds (StmtRead s) (Parse.functionDeclaration d) s.advance := by
  have hword : Passed s [.word .funWord] s.advance := Passed.step ht hkind
  refine finds_traced (finds_bind (finds_expect .identifier _) ?_)
  rintro name _ ⟨hname, hident, rfl⟩
  have hnamed := hword.trans (Passed.step hname (m := .token _) rfl)
  refine finds_bind (finds_expect .leftParen _) ?_
  rintro u _ ⟨hu, hukind, rfl⟩
  have hopen := hnamed.trans (Passed.step hu (m := .word _) hukind)
  refine finds_bind (finds_check .rightParen) ?_
  rintro none s₁ ⟨hs₁, _⟩
  subst hs₁
  cases none with
  | true =>
    exact finds_functionRest (hd.below 2) hs hident hopen (Nat.zero_le _) (by simp)
  | false =>
    refine finds_bind (finds_commaSeparated (hopen.lexed hs) fun s _ => finds_parameter s) ?_
    rintro parameters s₂ ⟨hpassed, hlength, hall⟩
    exact finds_functionRest (hd.below 2) hs hident (hopen.trans hpassed) hlength hall

/-! ### Tying the productions together -/

/-- **Statements.** -/
theorem finds_statementStep (hd : d.Sound) (hs : s.Lexed) :
    Finds (BodyRead s) (Parse.statementStep d) s := by
  have hd₁ := hd.below 1
  refine finds_choice (fun t ht hkind => finds_printStatement hd₁ hs ht hkind) fun _ _ _ => ?_
  refine finds_choice (fun t ht hkind => finds_ifStatement hd₁ hs ht hkind) fun _ _ _ => ?_
  refine finds_choice (fun t ht hkind => finds_whileStatement hd₁ hs ht hkind) fun _ _ _ => ?_
  refine finds_choice (fun t ht hkind => finds_forStatement hd₁ hs ht hkind) fun _ _ _ => ?_
  refine finds_choice (fun t ht hkind => finds_returnStatement hd₁ hs ht hkind) fun _ _ _ => ?_
  refine finds_choice (fun t ht hkind => ?_) fun _ _ _ => ?_
  · have hbrace : Passed s [.word .leftBrace] s.advance := Passed.step ht hkind
    refine finds_bind (finds_block hd₁ (hbrace.lexed hs)) fun body s₁ ⟨hpassed, hnormal⟩ => ?_
    exact finds_pure ⟨StmtRead.of_closed (hbrace.trans hpassed) hnormal rfl, rfl⟩
  · exact (finds_expressionStatement hd₁ hs).mono fun st s' hst => hst.1

/-- **Declarations.** -/
theorem finds_declarationStep (hd : d.Sound) (hs : s.Lexed) :
    Finds (StmtRead s) (Parse.declarationStep d) s := by
  have hd₁ := hd.below 1
  have hvariable : ∀ {const : Bool} {t : Token}, s.next? = some t →
      t.kind = (if const then .constWord else .varWord) →
      Finds (StmtRead s) (Parse.variableDeclaration (d.below 1) const) s.advance := fun ht hkind =>
    (finds_variableDeclaration hd₁ hs ht _ hkind).mono fun _ _ hst => hst.1
  refine finds_choice (fun t ht hkind => hvariable ht hkind) fun _ _ _ => ?_
  refine finds_choice (fun t ht hkind => hvariable ht hkind) fun _ _ _ => ?_
  refine finds_choice (fun t ht hkind => finds_functionDeclaration hd₁ hs ht hkind) fun _ _ _ => ?_
  exact ((hd 1).statement _ hs).mono fun st _ hst => hst.1

end Statements

/-- Without room, nothing is found. -/
theorem productions_full_sound : Productions.full.Sound :=
  ⟨fun _ s _ _ => finds_reject _ s, fun s _ => finds_reject _ s, fun s _ => finds_reject _ s⟩

/-- One step further up. -/
theorem productions_step_sound {d : Descent} (hd : d.Sound) : (Productions.step d).Sound :=
  ⟨fun _ _ hs hlevel => finds_precedenceStep hd hs hlevel, fun _ hs => finds_statementStep hd hs,
    fun _ hs => finds_declarationStep hd hs⟩

/-- **Every descent finds what it stands for,** whatever room it has. -/
theorem descent_sound (room : Nat) : (Descent.inRoom room).Sound :=
  recurse_induction productions_full_sound (fun _ hinner => productions_step_sound hinner) room

/-- **One turn of a program** reads a declaration, or comes to the end of the tokens. -/
theorem finds_programTurn {d : Descent} {s s' : Spot} (hd : d.Sound) (hs : s.Lexed)
    {program : List Stmt} (h : DeclarationsRead s program s') :
    Finds (Turn.Says (DeclarationsRead s) fun program _ => ∃ s₁ eof,
        Passed s (Stmt.listMarks program) s₁ ∧ s₁.next? = some eof ∧ eof.kind = .eof ∧
          Stmt.AllNormal s.isInside program)
      (do if ← Parse.accept .eof then return Turn.done program.reverse
          return Turn.again ((← (d 0).declaration) :: program)) s' := by
  refine finds_choice (fun t ht hkind => ?_) fun _ _ _ => ?_
  · exact finds_pure ⟨s', t, h.passed, ht, hkind, h.normal⟩
  · exact finds_bind ((hd 0).declaration _ (h.passed.lexed hs)) fun st s₂ hst =>
      finds_pure (h.cons hst)

/-- **Programs.** The tokens are those of the statements, and behind them the end. -/
theorem finds_program {d : Descent} {s : Spot} (hd : d.Sound) (hs : s.Lexed) :
    Finds (fun program _ => ∃ s₁ eof, Passed s (Stmt.listMarks program) s₁ ∧
      s₁.next? = some eof ∧ eof.kind = .eof ∧ Stmt.AllNormal s.isInside program)
      (Parse.program d) s :=
  finds_repeated (DeclarationsRead s) (fun _ _ h => finds_programTurn hd hs h) (.nil s)

end Lox
