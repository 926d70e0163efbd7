import Lox.Proofs.Trace.Records

/-!
# What productions record

Every production records the word of the tree that it returns, whatever the productions inside of it
are, as long as they do so too. Nothing else is recorded on the way: no walk goes back to what it
has read, and no tree is given up for another one.

* `Productions.Records`, `Descent.Records` — productions that record words of trees;
* `records_operatorTurn`, `records_precedenceStep` — expressions, whose operands come before their
  operators;
* `records_statementStep`, `records_declarationStep` — statements and declarations;
* `Descent.records_inRoom`, `records_program` — the productions in any room, and programs.
-/

namespace Lox

variable {α β γ : Type}

/-- **Productions that record words of trees.** -/
structure Productions.Records (traced : Productions Halt) (p : Productions) : Prop where
  precedence : ∀ level, Lox.Records (fun e word => word = operandWord e.word)
    (traced.precedence level) (p.precedence level)
  statement : Lox.Records (fun s word => word = s.word) traced.statement p.statement
  declaration : Lox.Records (fun s word => word = s.word) traced.declaration p.declaration

/-- Descents to such productions. -/
def Descent.Records (traced : Descent Halt) (d : Descent) : Prop :=
  ∀ cost, (traced cost).Records (d cost)

theorem Descent.Records.below {traced : Descent Halt} {d : Descent} (h : traced.Records d)
    (cost : Nat) : (traced.below cost).Records (d.below cost) := fun further => h (further + cost)

/-- **Items between commas.** -/
theorem records_commaSeparated {tooMany : Complaint} {traced : Backtraced α} {item : Parse α}
    {wordOf : α → List Visit} (h : Records (fun a word => word = wordOf a) traced item) :
    Records (fun items word => word = items.flatMap wordOf)
      (Parse.commaSeparated tooMany traced) (Parse.commaSeparated tooMany item) := by
  refine records_bind h fun first _ hfirst => ?_
  subst hfirst
  -- the items are in reverse order while they are read
  refine records_repeated
    (fun items word => wordOf first ++ word = items.reverse.flatMap wordOf) ?_ (by simp)
  intro items word hword
  have hitem : Records
      (fun next word' => Turn.Says
        (fun (items : List α) word => wordOf first ++ word = items.reverse.flatMap wordOf)
        (fun (items : List α) word => wordOf first ++ word = items.flatMap wordOf)
        next (word ++ word'))
      (do return .again ((← traced) :: items)) (do return .again ((← item) :: items)) := by
    refine records_bind h fun a word' hword' => records_pure ?_
    subst hword'
    simp [Turn.Says, ← hword]
  refine records_quiet_bind (quiet_accept _) fun more => ?_
  cases more with
  | false => exact records_pure (by simpa [Turn.Says] using hword)
  | true =>
    by_cases hfull : items.length = maxArguments
    · simp only [if_pos hfull]
      exact records_quiet_bind (records_reject _) fun _ => hitem
    · simp only [if_neg hfull]
      exact hitem

section Productions

variable {traced : Descent Halt} {d : Descent} (hd : traced.Records d)

include hd

/-! ### Expressions -/

theorem records_expression :
    Records (fun e word => word = wholeWord e.word) (Parse.expression traced)
      (Parse.expression d) :=
  records_traced (((hd 2).precedence .assignment).mono fun _ _ hword => hword ▸ rfl)

theorem records_argumentList :
    Records (fun es word => word = Production.argumentList.around (Expr.words es))
      (Parse.argumentList traced) (Parse.argumentList d) := by
  refine records_traced (records_quiet_bind (quiet_check _) fun none => ?_)
  cases none with
  | true =>
    have hnone : Records (fun es word => es = [] ∧ word = []) (pure [] : Backtraced (List Expr))
        (pure []) := records_pure ⟨rfl, rfl⟩
    refine records_bind hnone ?_
    rintro es word ⟨rfl, rfl⟩
    exact records_quiet_bind (quiet_expect _ _) fun _ => records_pure rfl
  | false =>
    refine records_bind (records_commaSeparated (records_expression (hd.below 2))) ?_
    intro es word hword
    refine records_quiet_bind (quiet_expect _ _) fun _ => records_pure ?_
    rw [hword, List.append_nil, Expr.words_eq_flatMap]

/-! ### What a token begins -/

theorem records_grouping :
    Records (fun e word => word = e.word) (Parse.grouping traced) (Parse.grouping d) := by
  refine records_traced (records_bind (records_expression (hd.below 2)) fun inner word hword => ?_)
  refine records_quiet_bind (quiet_expect _ _) fun _ => records_pure ?_
  rw [hword, List.append_nil, Expr.word]

theorem records_unary :
    Records (fun e word => word = e.word) (Parse.unary traced) (Parse.unary d) := by
  refine records_traced (records_quiet_bind (quiet_peek _) fun operator => ?_)
  refine records_bind ((hd 2).precedence .unary) fun right word hword => records_pure ?_
  rw [hword, List.append_nil, Expr.word]

omit hd in
theorem records_literal :
    Records (fun e word => word = e.word) Parse.literal Parse.literal := by
  refine records_traced (records_quiet_bind (quiet_peek _) fun token => ?_)
  cases token.kind <;> first | exact records_pure rfl | exact records_fail _

theorem records_variableName (canAssign : Bool) :
    Records (fun e word => word = e.word) (Parse.variableName traced canAssign)
      (Parse.variableName d canAssign) := by
  refine records_traced (records_quiet_bind (quiet_peek _) fun name => ?_)
  cases canAssign with
  | false => exact records_pure rfl
  | true =>
    refine records_quiet_bind (quiet_accept _) fun equal => ?_
    cases equal with
    | false => exact records_pure rfl
    | true =>
      refine records_bind (records_expression (hd.below 2)) fun value word hword => records_pure ?_
      rw [hword, List.append_nil, Expr.word]

theorem records_beginning (canAssign : Bool) (rule : PrefixRule) :
    Records (fun e word => word = e.word) (Parse.beginning traced canAssign rule)
      (Parse.beginning d canAssign rule) := by
  cases rule with
  | grouping => exact records_grouping hd
  | unary => exact records_unary hd
  | literal => exact records_literal
  | «variable» => exact records_variableName hd canAssign

/-! ### What a token makes of the operand on its left -/

theorem records_binary (left : Expr) :
    Records (fun e word => left.word ++ word = e.word) (Parse.binary traced left)
      (Parse.binary d left) := by
  refine records_traced (records_quiet_bind (quiet_peek _) fun operator => ?_)
  cases (Rule.of operator.kind).precedence.next? with
  | none => exact records_fail _
  | some level =>
    refine records_bind ((hd 2).precedence level) fun right word hword => ?_
    have hboth : ∀ e : Expr, e.word = left.word ++ Production.binary.around word → Records
        (fun e word' => left.word ++ Production.binary.around (word ++ word') = e.word)
        (pure e) (pure e) :=
      fun e he => records_pure (by rw [List.append_nil, he])
    subst hword
    cases operator.kind <;> exact hboth _ rfl

theorem records_call (callee : Expr) :
    Records (fun e word => callee.word ++ word = e.word) (Parse.call traced callee)
      (Parse.call d callee) := by
  refine records_traced (records_quiet_bind (quiet_peek _) fun paren => ?_)
  refine records_bind (records_argumentList (hd.below 2)) fun es word hword => records_pure ?_
  rw [hword, List.append_nil, Expr.word]

/-- **One turn of an operator loop** adds to the word of its operand. -/
theorem records_operatorTurn (level : Precedence) (left : Expr) :
    Records
      (Turn.Says (fun e word => left.word ++ word = e.word)
        fun e word => left.word ++ word = e.word)
      (Parse.operatorTurn traced level left) (Parse.operatorTurn d level left) := by
  refine records_quiet_bind (quiet_peek _) fun next => ?_
  dsimp only
  split
  · refine records_quiet_bind quiet_advance fun _ => ?_
    cases (Rule.of next.kind).behind with
    | none => exact records_fail _
    | some rule =>
      have hmore : Records (fun e word => left.word ++ word = e.word)
          (Parse.continuation traced left rule) (Parse.continuation d left rule) := by
        cases rule with
        | binary => exact records_binary hd left
        | call => exact records_call hd left
      refine records_bind hmore fun e word hword => records_pure ?_
      rw [List.append_nil]
      exact hword
  · exact records_pure (List.append_nil _)

/-- **Expressions of at least one level.** -/
theorem records_precedenceStep (level : Precedence) :
    Records (fun e word => word = operandWord e.word) (Parse.precedenceStep traced level)
      (Parse.precedenceStep d level) := by
  refine records_traced (records_quiet_bind quiet_advance fun _ => ?_)
  refine records_quiet_bind (quiet_peek _) fun first => ?_
  cases (Rule.of first.kind).front with
  | none => exact records_quiet_bind quiet_retreat fun _ => records_reject _
  | some rule =>
    refine records_bind (records_beginning (hd.below 2) _ rule) fun left word hword => ?_
    subst hword
    -- every turn of the operator loop adds to the word of the expression so far
    have hloop : Records (fun e word => left.word ++ word = e.word)
        (Parse.repeated .badIndex (Parse.operatorTurn (traced.below 2) level) left)
        (Parse.repeated .badIndex (Parse.operatorTurn (d.below 2) level) left) := by
      refine records_repeated (fun e word => left.word ++ word = e.word) ?_
        (List.append_nil _)
      intro e word hword
      refine (records_operatorTurn (hd.below 2) level e).mono fun next word' hnext => ?_
      cases next <;> (rw [Turn.Says, ← List.append_assoc, hword]; exact hnext)
    refine records_bind hloop fun result word hword => ?_
    have hresult : Records
        (fun e word' =>
          Production.precedence.around (left.word ++ (word ++ word')) = operandWord e.word)
        (pure result) (pure result) :=
      records_pure (by rw [List.append_nil, hword, operandWord])
    split
    next =>
      -- a complaint about a target is no visit, so that the word is the same without it
      refine records_quiet_bind (quiet_check _) fun equal => ?_
      cases equal with
      | true => exact records_quiet_bind (records_reject _) fun _ => hresult
      | false => exact hresult
    next => exact hresult

/-! ### Statements -/

theorem records_expressionStatement :
    Records (fun s word => word = s.word) (Parse.expressionStatement traced)
      (Parse.expressionStatement d) := by
  refine records_traced (records_bind (records_expression (hd.below 2)) fun value word hword => ?_)
  refine records_quiet_bind (quiet_expect _ _) fun _ => records_pure ?_
  rw [hword, List.append_nil, Stmt.word]

theorem records_printStatement :
    Records (fun s word => word = s.word) (Parse.printStatement traced)
      (Parse.printStatement d) := by
  refine records_traced (records_bind (records_expression (hd.below 2)) fun value word hword => ?_)
  refine records_quiet_bind (quiet_expect _ _) fun _ => records_pure ?_
  rw [hword, List.append_nil, Stmt.word]

theorem records_expressionUnless (kind : TokenKind) :
    Records (fun e word => word = Expr.optionWord e) (Parse.expressionUnless traced kind)
      (Parse.expressionUnless d kind) := by
  refine records_quiet_bind (quiet_check _) fun absent => ?_
  cases absent with
  | true => exact records_pure rfl
  | false =>
    refine records_bind (records_expression hd) fun e word hword => records_pure ?_
    rw [hword, List.append_nil, Expr.optionWord]

theorem records_returnStatement :
    Records (fun s word => word = s.word) (Parse.returnStatement traced)
      (Parse.returnStatement d) := by
  refine records_traced (records_quiet_bind (quiet_peek _) fun keyword => ?_)
  refine records_get_bind fun c => ?_
  have hrest : Records
      (fun s word => Production.returnStatement.around word = s.word)
      (do
        let value ← Parse.expressionUnless (traced.below 2) .semicolon
        let _ ← (Parse.expect .semicolon (.expected "; after return value") : Backtraced Token)
        return Stmt.returning keyword value)
      (do
        let value ← Parse.expressionUnless (d.below 2) .semicolon
        let _ ← Parse.expect .semicolon (.expected "; after return value")
        return Stmt.returning keyword value) := by
    refine records_bind (records_expressionUnless (hd.below 2) _) fun value word hword => ?_
    refine records_quiet_bind (quiet_expect _ _) fun _ => records_pure ?_
    rw [hword, List.append_nil, Stmt.word]
  by_cases hdepth : c.functionDepth = 0
  · simp only [if_pos hdepth]
    -- outside functions nothing more is read
    have hfail : Records (fun _ _ => False) (Parse.fail (.topLevelReturn keyword))
        (throw (.topLevelReturn keyword) : Parse PUnit) := records_fail _
    exact records_bind hfail fun _ _ hnever => hnever.elim
  · simp only [if_neg hdepth]
    exact hrest

theorem records_ifStatement :
    Records (fun s word => word = s.word) (Parse.ifStatement traced)
      (Parse.ifStatement d) := by
  refine records_traced (records_quiet_bind (quiet_expect _ _) fun _ => ?_)
  refine records_bind (records_expression (hd.below 2)) fun condition word hword => ?_
  refine records_quiet_bind (quiet_expect _ _) fun _ => ?_
  refine records_bind (hd 2).statement fun yes word' hword' => ?_
  subst hword hword'
  refine records_quiet_bind (quiet_accept _) fun more => ?_
  cases more with
  | false => exact records_pure (by simp [Stmt.word])
  | true =>
    refine records_bind (hd 2).statement fun no word'' hword'' => records_pure ?_
    simp [hword'', Stmt.word]

theorem records_whileStatement :
    Records (fun s word => word = s.word) (Parse.whileStatement traced)
      (Parse.whileStatement d) := by
  refine records_traced (records_quiet_bind (quiet_expect _ _) fun _ => ?_)
  refine records_bind (records_expression (hd.below 2)) fun condition word hword => ?_
  refine records_quiet_bind (quiet_expect _ _) fun _ => ?_
  refine records_bind (hd 2).statement fun body word' hword' => records_pure ?_
  simp [hword, hword', Stmt.word]

theorem records_variableDeclaration (const : Bool) :
    Records (fun s word => word = s.word) (Parse.variableDeclaration traced const)
      (Parse.variableDeclaration d const) := by
  refine records_traced (records_quiet_bind (quiet_expect _ _) fun name => ?_)
  -- with or without a value, the declaration ends in a semicolon
  have hclose : ∀ (initial : Option Expr) word, word = Expr.optionWord initial → Records
      (fun s word' => Production.variableDeclaration.around (word ++ word') = s.word)
      (do
        let _ ← (Parse.expect .semicolon (.expected "; after variable declaration") :
          Backtraced Token)
        pure (Stmt.variable name initial const))
      (do
        let _ ← Parse.expect .semicolon (.expected "; after variable declaration")
        pure (Stmt.variable name initial const)) := by
    intro initial word hword
    refine records_quiet_bind (quiet_expect _ _) fun _ => records_pure ?_
    rw [hword, List.append_nil, Stmt.word]
  refine records_quiet_bind (quiet_accept _) fun equal => ?_
  cases equal with
  | true =>
    -- the word of the declaration is that of its value
    have hinitial : Records (fun e word => word = Expr.optionWord e)
        (some <$> Parse.expression (traced.below 2))
        (some <$> Parse.expression (d.below 2)) := by
      refine records_bind (records_expression (hd.below 2)) fun e word hword => records_pure ?_
      rw [hword, List.append_nil, Expr.optionWord]
    exact records_bind hinitial hclose
  | false =>
    cases const with
    | true => exact records_bind (records_reject _) hclose
    | false => exact records_bind (records_pure rfl) hclose

theorem records_forStart :
    Records (fun s word => word = (s.map Stmt.word).getD []) (Parse.forStart traced)
      (Parse.forStart d) := by
  have hsome : ∀ {walk : Backtraced Stmt} {walk' : Parse Stmt},
      Records (fun s word => word = s.word) walk walk' →
      Records (fun s word => word = (s.map Stmt.word).getD []) (do return some (← walk))
        (do return some (← walk')) := by
    intro walk walk' h
    refine records_bind h fun s word hword => records_pure ?_
    rw [hword, List.append_nil]
    rfl
  refine records_quiet_bind (quiet_accept _) fun absent => ?_
  cases absent with
  | true => exact records_pure rfl
  | false =>
    refine records_quiet_bind (quiet_accept _) fun isVariable => ?_
    cases isVariable with
    | true => exact hsome (records_variableDeclaration hd false)
    | false =>
      refine records_quiet_bind (quiet_accept _) fun isConstant => ?_
      cases isConstant with
      | true => exact hsome (records_variableDeclaration hd true)
      | false => exact hsome (records_expressionStatement hd)

theorem records_forStatement :
    Records (fun s word => word = s.word) (Parse.forStatement traced)
      (Parse.forStatement d) := by
  refine records_traced (records_quiet_bind (quiet_expect _ _) fun _ => ?_)
  refine records_bind (records_forStart (hd.below 2)) fun start word hword => ?_
  refine records_bind (records_expressionUnless (hd.below 2) _) fun condition word' hword' => ?_
  refine records_quiet_bind (quiet_expect _ _) fun _ => ?_
  refine records_bind (records_expressionUnless (hd.below 2) _) fun update word'' hword'' => ?_
  refine records_quiet_bind (quiet_expect _ _) fun _ => ?_
  refine records_bind (hd 2).statement fun body _ hbody => records_pure ?_
  subst hword hword' hword'' hbody
  cases start <;> simp [Stmt.word]

/-! ### Declarations and blocks -/

theorem records_block :
    Records (fun body word => word = Stmt.words body) (Parse.block traced)
      (Parse.block d) := by
  have hloop : Records (fun body word => word = Stmt.words body)
      (Parse.repeated .outOfRange (fun (body : List Stmt) => do
        if ← Parse.check .rightBrace then return .done body.reverse
        if ← Parse.check .eof then return .done body.reverse
        return .again ((← (traced 1).declaration) :: body)) [])
      (Parse.repeated .outOfRange (fun (body : List Stmt) => do
        if ← Parse.check .rightBrace then return .done body.reverse
        if ← Parse.check .eof then return .done body.reverse
        return .again ((← (d 1).declaration) :: body)) []) := by
    -- the statements are in reverse order while they are read
    refine records_repeated (fun body word => word = Stmt.words body.reverse) ?_ rfl
    intro body word hword
    subst hword
    refine records_quiet_bind (quiet_check _) fun closing => ?_
    cases closing with
    | true => exact records_pure (List.append_nil _)
    | false =>
      refine records_quiet_bind (quiet_check _) fun ended => ?_
      cases ended with
      | true => exact records_pure (List.append_nil _)
      | false =>
        refine records_bind (hd 1).declaration fun s word hword => records_pure ?_
        simp [Turn.Says, hword, Stmt.words_eq_flatMap]
  refine records_bind hloop fun body word hword => ?_
  refine records_quiet_bind (quiet_expect _ _) fun _ => records_pure ?_
  rw [hword, List.append_nil]

theorem records_functionDeclaration :
    Records (fun s word => word = s.word) (Parse.functionDeclaration traced)
      (Parse.functionDeclaration d) := by
  refine records_traced (records_quiet_bind (quiet_expect _ _) fun name => ?_)
  refine records_quiet_bind (quiet_expect _ _) fun _ => ?_
  refine records_quiet_bind (quiet_check _) fun none => ?_
  -- with or without parameters, the rest is the same
  have hrest : ∀ parameters word, word = [] → Records
      (fun s word' => Production.functionDeclaration.around (word ++ word') = s.word)
      (do
        let _ ← (Parse.expect .rightParen (.expected ") after parameters") : Backtraced Token)
        let _ ← (Parse.expect .leftBrace (.expected "\x7b before function body") : Backtraced Token)
        return Stmt.function name parameters
          (← Parse.insideFunction (Parse.block (traced.below 2))))
      (do
        let _ ← Parse.expect .rightParen (.expected ") after parameters")
        let _ ← Parse.expect .leftBrace (.expected "\x7b before function body")
        return Stmt.function name parameters
          (← Parse.insideFunction (Parse.block (d.below 2)))) := by
    rintro parameters _ rfl
    refine records_quiet_bind (quiet_expect _ _) fun _ => ?_
    refine records_quiet_bind (quiet_expect _ _) fun _ => ?_
    -- only the block inside the function is a production of its own
    refine records_bind (records_insideFunction (records_block (hd.below 2))) ?_
    intro body word hword
    exact records_pure (by rw [hword, List.nil_append, List.append_nil, Stmt.word])
  cases none with
  | true => exact records_bind (records_pure rfl) hrest
  | false =>
    have hitem : Records (fun _ word => word = [])
        (Parse.expect .identifier (.expected "parameter name"))
        (Parse.expect .identifier (.expected "parameter name")) := quiet_expect _ _
    refine records_bind (records_commaSeparated hitem) fun parameters word hword => ?_
    exact hrest parameters word (hword.trans (List.flatMap_eq_nil_iff.2 fun _ _ => rfl))

/-- **Statements,** by their first token. -/
theorem records_statementStep :
    Records (fun s word => word = s.word) (Parse.statementStep traced)
      (Parse.statementStep d) := by
  have h := hd.below 1
  -- looking for a word records nothing, so that the statement behind it is what is said
  refine records_quiet_bind (quiet_accept _) fun isPrint => ?_
  cases isPrint with
  | true => exact records_printStatement h
  | false =>
  refine records_quiet_bind (quiet_accept _) fun isIf => ?_
  cases isIf with
  | true => exact records_ifStatement h
  | false =>
  refine records_quiet_bind (quiet_accept _) fun isWhile => ?_
  cases isWhile with
  | true => exact records_whileStatement h
  | false =>
  refine records_quiet_bind (quiet_accept _) fun isFor => ?_
  cases isFor with
  | true => exact records_forStatement h
  | false =>
  refine records_quiet_bind (quiet_accept _) fun isReturn => ?_
  cases isReturn with
  | true => exact records_returnStatement h
  | false =>
  refine records_quiet_bind (quiet_accept _) fun isBlock => ?_
  cases isBlock with
  | true =>
    refine records_bind (records_block h) fun body word hword => records_pure ?_
    rw [hword, List.append_nil, Stmt.word]
  | false => exact records_expressionStatement h

/-- **Declarations,** by their first token. -/
theorem records_declarationStep :
    Records (fun s word => word = s.word) (Parse.declarationStep traced)
      (Parse.declarationStep d) := by
  have h := hd.below 1
  refine records_quiet_bind (quiet_accept _) fun isVariable => ?_
  cases isVariable with
  | true => exact records_variableDeclaration h false
  | false =>
  refine records_quiet_bind (quiet_accept _) fun isConstant => ?_
  cases isConstant with
  | true => exact records_variableDeclaration h true
  | false =>
  refine records_quiet_bind (quiet_accept _) fun isFunction => ?_
  cases isFunction with
  | true => exact records_functionDeclaration h
  | false => exact (hd 1).statement

/-- **Programs.** -/
theorem records_program :
    Records (fun program word => word = Stmt.words program) (Parse.program traced)
      (Parse.program d) := by
  refine records_repeated (fun program word => word = Stmt.words program.reverse) ?_ rfl
  intro program word hword
  subst hword
  refine records_quiet_bind (quiet_accept _) fun ended => ?_
  cases ended with
  | true => exact records_pure (List.append_nil _)
  | false =>
    refine records_bind (hd 0).declaration fun s word hword => records_pure ?_
    simp [Turn.Says, hword, Stmt.words_eq_flatMap]

end Productions

/-- **Productions in the same room** record words of trees. -/
theorem records_recurse (room cost : Nat) :
    (recurse .full .step room cost : Productions Halt).Records
      (recurse .full .step room cost) :=
  recurse_induction₂ ⟨fun _ => records_reject _, records_reject _, records_reject _⟩
    (fun _ _ hd => ⟨records_precedenceStep hd, records_statementStep hd, records_declarationStep hd⟩)
    room cost

theorem Descent.records_inRoom (room : Nat) :
    (Descent.inRoom room : Descent Halt).Records (.inRoom room) :=
  fun cost => records_recurse room cost

end Lox
