import Lox.Proofs.Grammar.Windows

/-!
# Productions on a window

Every production does on a window what it does on the tokens alone. Expressions look at the token that
follows them and do not pass it; a statement has passed its last token and looks at most for an `else`
behind it.

* `Productions.Transfers` — the recursive productions;
* `Window.transfers_precedenceStep` — expressions;
* `Window.transfers_statementStep`, `Window.transfers_declarationStep` — statements and declarations;
* `productions_transfer` — the productions that are tied together, by induction on the room.
-/

namespace Lox

variable {α α' : Type} {r : Relocation} {w : Window r}

/-- **The recursive productions do the same on a window.** -/
structure Productions.Transfers (w : Window r) (p : Productions) : Prop where
  precedence : ∀ level,
    w.Transfers 1 0 (Expr.relocate r.move) (p.precedence level) (p.precedence level)
  statement : w.Transfers 0 1 (Stmt.relocate r.move) p.statement p.statement
  declaration : w.Transfers 0 1 (Stmt.relocate r.move) p.declaration p.declaration

/-- All productions of a descent. -/
def Descent.Transfers (w : Window r) (d : Descent) : Prop := ∀ cost, (d cost).Transfers w

theorem Descent.Transfers.below {d : Descent} (hd : d.Transfers w) (cost : Nat) :
    (d.below cost).Transfers w := fun further => hd (further + cost)

namespace Window

variable {d : Descent}

/-! ### Expressions -/

theorem transfers_expression (hd : d.Transfers w) :
    w.Transfers 1 0 (Expr.relocate r.move) (Parse.expression d) (Parse.expression d) :=
  transfers_traced ((hd 2).precedence .assignment)

/-- **Items between commas.** -/
theorem transfers_commaSeparated {tooMany : Complaint} {item : Parse α} {item' : Parse α'}
    {onItem : α → α'} (h : w.Transfers 1 0 onItem item item') :
    w.Transfers 1 0 (List.map onItem) (Parse.commaSeparated tooMany item)
      (Parse.commaSeparated tooMany item') := by
  refine transfers_bind h fun first => ?_
  change w.Transfers 1 0 _ _ (Parse.repeated _ _ (List.map onItem [first]))
  refine transfers_repeated (fun items => ?_) [first]
  refine transfers_bind (transfers_accept .comma) fun b => ?_
  cases b with
  | false =>
    have hreverse : (items.map onItem).reverse = items.reverse.map onItem := List.map_reverse.symm
    change w.Transfers 1 0 _ (pure (Turn.done items.reverse))
      (pure (Turn.done (items.map onItem).reverse))
    rw [hreverse]
    exact transfers_pure (Turn.done items.reverse)
  | true =>
    -- there are as many items on both sides
    have hlength : (items.map onItem).length = items.length := List.length_map _
    have hnext : w.Transfers 1 0 (Turn.map (List.map onItem) (List.map onItem))
        (item >>= fun a => pure (.again (a :: items)))
        (item' >>= fun a => pure (.again (a :: items.map onItem))) :=
      transfers_bind h fun a => transfers_pure _
    simp only [if_true, hlength]
    split
    · exact transfers_reject_bind tooMany _
    · exact hnext

theorem transfers_argumentList (hd : d.Transfers w) :
    w.Transfers 0 1 (Expr.relocateAll r.move) (Parse.argumentList d) (Parse.argumentList d) := by
  refine transfers_traced (transfers_bind (transfers_check .rightParen) fun empty => ?_)
  have hclose : ∀ es : List Expr, w.Transfers 0 1 (Expr.relocateAll r.move)
      (Parse.expect .rightParen (.expected ") after arguments") >>= fun _ => pure es)
      (Parse.expect .rightParen (.expected ") after arguments") >>= fun _ =>
        pure (es.map (Expr.relocate r.move))) := by
    intro es
    rw [← Expr.relocateAll_eq_map]
    exact transfers_bind_after (transfers_expect _ _) fun _ => transfers_pure es
  cases empty with
  | true => exact hclose []
  | false =>
    exact transfers_bind (transfers_commaSeparated (transfers_expression (hd.below 2))) hclose

/-- **An operator between operands.** -/
theorem transfers_binary (hd : d.Transfers w) (left : Expr) :
    w.Transfers 1 0 (Expr.relocate r.move) (Parse.binary d left)
      (Parse.binary d (left.relocate r.move)) := by
  refine transfers_traced (transfers_bind transfers_previous fun operator => ?_)
  rw [r.kind_eq]
  cases (Rule.of operator.kind).precedence.next? with
  | none => exact transfers_throw _ _
  | some level =>
    refine transfers_bind ((hd 2).precedence level) fun right => ?_
    cases operator.kind <;> exact transfers_pure _

theorem transfers_unary (hd : d.Transfers w) :
    w.Transfers 1 0 (Expr.relocate r.move) (Parse.unary d) (Parse.unary d) :=
  transfers_traced (transfers_bind transfers_previous fun operator =>
    transfers_bind ((hd 2).precedence .unary) fun right => transfers_pure (Expr.unary operator right))

theorem transfers_literal :
    w.Transfers 1 0 (Expr.relocate r.move) Parse.literal Parse.literal := by
  refine transfers_traced (transfers_bind transfers_previous fun t => ?_)
  rw [r.kind_eq, r.value_eq]
  cases t.kind <;> first | exact transfers_pure _ | exact transfers_throw _ _

theorem transfers_grouping (hd : d.Transfers w) :
    w.Transfers 1 0 (Expr.relocate r.move) (Parse.grouping d) (Parse.grouping d) :=
  transfers_traced (transfers_bind (transfers_expression (hd.below 2)) fun inner =>
    transfers_bind (transfers_expect _ _) fun _ => transfers_pure (Expr.grouping inner))

theorem transfers_variableName (hd : d.Transfers w) (canAssign : Bool) :
    w.Transfers 1 0 (Expr.relocate r.move) (Parse.variableName d canAssign)
      (Parse.variableName d canAssign) := by
  refine transfers_traced (transfers_bind transfers_previous fun name => ?_)
  cases canAssign with
  | false => exact transfers_pure (Expr.variable name)
  | true =>
    refine transfers_bind (transfers_accept .equal) fun b => ?_
    cases b with
    | false => exact transfers_pure (Expr.variable name)
    | true =>
      exact transfers_bind (transfers_expression (hd.below 2)) fun value =>
        transfers_pure (Expr.assign name value)

theorem transfers_call (hd : d.Transfers w) (callee : Expr) :
    w.Transfers 1 0 (Expr.relocate r.move) (Parse.call d callee)
      (Parse.call d (callee.relocate r.move)) :=
  transfers_traced (transfers_bind transfers_previous fun paren =>
    transfers_bind (transfers_argumentList (hd.below 2)).anywhere fun arguments =>
      transfers_pure (Expr.call callee paren arguments))

/-- What a token begins. -/
theorem transfers_beginning (hd : d.Transfers w) (canAssign : Bool) (rule : PrefixRule) :
    w.Transfers 1 0 (Expr.relocate r.move) (Parse.beginning d canAssign rule)
      (Parse.beginning d canAssign rule) := by
  cases rule with
  | grouping => exact transfers_grouping hd
  | unary => exact transfers_unary hd
  | literal => exact transfers_literal
  | «variable» => exact transfers_variableName hd canAssign

theorem transfers_continuation (hd : d.Transfers w) (left : Expr) (rule : InfixRule) :
    w.Transfers 1 0 (Expr.relocate r.move) (Parse.continuation d left rule)
      (Parse.continuation d (left.relocate r.move) rule) := by
  cases rule with
  | binary => exact transfers_binary hd left
  | call => exact transfers_call hd left

/-- **A turn of the operator loop.** It looks at the token behind the operand. -/
theorem transfers_operatorTurn (hd : d.Transfers w) (level : Precedence) (left : Expr) :
    w.Transfers 1 0 (Turn.map (Expr.relocate r.move) (Expr.relocate r.move))
      (Parse.operatorTurn d level left) (Parse.operatorTurn d level (left.relocate r.move)) := by
  refine transfers_bind (transfers_peek_next) fun next => ?_
  rw [r.kind_eq]
  simp only
  split
  · refine transfers_bind transfers_advance fun _ => ?_
    cases (Rule.of next.kind).behind with
    | none => exact transfers_throw _ _
    | some rule =>
      exact transfers_bind (transfers_continuation hd left rule) fun e => transfers_pure (Turn.again e)
  · exact transfers_pure (Turn.done left)

/-- **Expressions of a level.** -/
theorem transfers_precedenceStep (hd : d.Transfers w) (level : Precedence) :
    w.Transfers 1 0 (Expr.relocate r.move) (Parse.precedenceStep d level)
      (Parse.precedenceStep d level) := by
  refine transfers_traced (transfers_bind transfers_advance fun _ => ?_)
  refine transfers_bind transfers_previous fun first => ?_
  rw [r.kind_eq]
  cases (Rule.of first.kind).front with
  | none => exact transfers_of_fails (bind_fails fun _ => reject_fails _)
  | some rule =>
    refine transfers_bind (transfers_beginning (hd.below 2) _ rule) fun left => ?_
    refine transfers_bind (transfers_repeated (transfers_operatorTurn (hd.below 2) level) left)
      fun result => ?_
    split
    · refine transfers_bind (transfers_check .equal) fun b => ?_
      cases b with
      | false => exact transfers_pure result
      | true => exact transfers_reject_bind _ _
    · exact transfers_pure result

/-! ### Statements -/

/-- **An expression and a semicolon,** which end a statement. -/
theorem transfers_semicolon (hd : d.Transfers w) (about : Complaint) {make : Expr → Stmt}
    (hmake : ∀ e, make (e.relocate r.move) = (make e).relocate r.move) :
    w.Transfers 0 1 (Stmt.relocate r.move)
      (do let e ← Parse.expression d
          let _ ← Parse.expect .semicolon about
          return make e)
      (do let e ← Parse.expression d
          let _ ← Parse.expect .semicolon about
          return make e) := by
  refine transfers_bind (transfers_expression hd) fun e => ?_
  rw [hmake]
  exact transfers_bind_after (transfers_expect _ _) fun _ => transfers_pure (make e)

theorem transfers_expressionStatement (hd : d.Transfers w) :
    w.Transfers 0 1 (Stmt.relocate r.move) (Parse.expressionStatement d)
      (Parse.expressionStatement d) :=
  transfers_traced (transfers_semicolon (hd.below 2) _ fun _ => rfl)

theorem transfers_printStatement (hd : d.Transfers w) :
    w.Transfers 0 1 (Stmt.relocate r.move) (Parse.printStatement d) (Parse.printStatement d) :=
  transfers_traced (transfers_semicolon (hd.below 2) _ fun _ => rfl)

/-- **Conditionals.** Behind the first branch they look for an `else`. -/
theorem transfers_ifStatement (hd : d.Transfers w) :
    w.Transfers 0 1 (Stmt.relocate r.move) (Parse.ifStatement d) (Parse.ifStatement d) := by
  refine transfers_traced (transfers_bind (transfers_expect _ _) fun _ => ?_)
  refine transfers_bind (transfers_expression (hd.below 2)) fun condition => ?_
  refine transfers_bind (transfers_expect _ _) fun _ => ?_
  refine transfers_bind_after (hd 2).statement fun yes => ?_
  refine transfers_bind transfers_accept_else fun b => ?_
  cases b with
  | false => exact transfers_pure (Stmt.conditional condition yes none)
  | true =>
    have hno : w.Transfers 0 0 (Stmt.relocate r.move) (d 2).statement (d 2).statement :=
      (hd 2).statement.mono (Nat.le_refl _) (Nat.zero_le _)
    exact transfers_bind hno fun no => transfers_pure (Stmt.conditional condition yes (some no))

theorem transfers_whileStatement (hd : d.Transfers w) :
    w.Transfers 0 1 (Stmt.relocate r.move) (Parse.whileStatement d) (Parse.whileStatement d) :=
  transfers_traced (transfers_bind (transfers_expect _ _) fun _ =>
    transfers_bind (transfers_expression (hd.below 2)) fun condition =>
      transfers_bind (transfers_expect _ _) fun _ =>
        transfers_bind_after (hd 2).statement fun body =>
          transfers_pure (Stmt.whileLoop condition body))

theorem transfers_variableDeclaration (hd : d.Transfers w) (const : Bool) :
    w.Transfers 0 1 (Stmt.relocate r.move) (Parse.variableDeclaration d const)
      (Parse.variableDeclaration d const) := by
  refine transfers_traced (transfers_bind (transfers_expect _ _) fun name => ?_)
  -- with or without a value, the declaration ends in a semicolon
  have hclose : ∀ initial : Option Expr, w.Transfers 0 1 (Stmt.relocate r.move)
      (Parse.expect .semicolon (.expected "; after variable declaration") >>= fun _ =>
        pure (Stmt.variable name initial const))
      (Parse.expect .semicolon (.expected "; after variable declaration") >>= fun _ =>
        pure (Stmt.variable (r.move name) (initial.map (Expr.relocate r.move)) const)) :=
    fun initial => transfers_bind_after (transfers_expect _ _) fun _ =>
      transfers_pure (Stmt.variable name initial const)
  refine transfers_bind (transfers_accept .equal) fun b => ?_
  cases b with
  | true =>
    have hsome : w.Transfers 1 0 (Option.map (Expr.relocate r.move))
        (some <$> Parse.expression (d.below 2)) (some <$> Parse.expression (d.below 2)) :=
      transfers_map (transfers_expression (hd.below 2)) fun _ => rfl
    exact transfers_bind hsome hclose
  | false =>
    cases const with
    | true => exact transfers_reject_bind _ _
    | false => exact hclose none

/-- What a loop does first. -/
theorem transfers_forStart (hd : d.Transfers w) :
    w.Transfers 1 0 (Option.map (Stmt.relocate r.move)) (Parse.forStart d) (Parse.forStart d) := by
  have hsome : ∀ {walk : Parse Stmt}, w.Transfers 0 1 (Stmt.relocate r.move) walk walk →
      w.Transfers 1 0 (Option.map (Stmt.relocate r.move)) (walk >>= fun st => pure (some st))
        (walk >>= fun st => pure (some st)) :=
    fun h => transfers_bind h.anywhere fun st => transfers_pure (some st)
  refine transfers_bind (transfers_accept .semicolon) fun b => ?_
  cases b with
  | true => exact transfers_pure none
  | false =>
  refine transfers_bind (transfers_accept .varWord) fun b => ?_
  cases b with
  | true => exact hsome (transfers_variableDeclaration hd false)
  | false =>
  refine transfers_bind (transfers_accept .constWord) fun b => ?_
  cases b with
  | true => exact hsome (transfers_variableDeclaration hd true)
  | false => exact hsome (transfers_expressionStatement hd)

theorem transfers_expressionUnless (hd : d.Transfers w) (kind : TokenKind) :
    w.Transfers 1 0 (Option.map (Expr.relocate r.move)) (Parse.expressionUnless d kind)
      (Parse.expressionUnless d kind) := by
  refine transfers_bind (transfers_check kind) fun b => ?_
  cases b with
  | true => exact transfers_pure none
  | false => exact transfers_bind (transfers_expression hd) fun e => transfers_pure (some e)

theorem transfers_forStatement (hd : d.Transfers w) :
    w.Transfers 0 1 (Stmt.relocate r.move) (Parse.forStatement d) (Parse.forStatement d) := by
  refine transfers_traced (transfers_bind (transfers_expect _ _) fun _ => ?_)
  refine transfers_bind (transfers_forStart (hd.below 2)) fun start => ?_
  refine transfers_bind (transfers_expressionUnless (hd.below 2) .semicolon) fun condition => ?_
  refine transfers_bind (transfers_expect _ _) fun _ => ?_
  refine transfers_bind (transfers_expressionUnless (hd.below 2) .rightParen) fun update => ?_
  refine transfers_bind (transfers_expect _ _) fun _ => ?_
  refine transfers_bind_after (hd 2).statement fun body => ?_
  rw [← Stmt.relocate_forLoop]
  exact transfers_pure (Stmt.forLoop start condition update body)

/-- A look at the number of functions that the walk is inside of. -/
theorem transfers_get_bind {ahead passed : Nat} {onResult : α → α'} {next : Cursor → Parse α}
    {next' : Cursor → Parse α'} (h : ∀ c c' : Cursor, c'.functionDepth = c.functionDepth →
      w.Transfers ahead passed onResult (next c) (next' c')) :
    w.Transfers ahead passed onResult (get >>= next) (get >>= next') := by
  intro c a c₁ hwalk
  rw [get_bind_apply] at hwalk
  refine ⟨(h c c rfl c a c₁ hwalk).1, fun c' hbeside hend => ?_⟩
  rw [get_bind_apply]
  exact (h c c' hbeside.depth_eq c a c₁ hwalk).2 c' hbeside hend

theorem transfers_returnStatement (hd : d.Transfers w) :
    w.Transfers 0 1 (Stmt.relocate r.move) (Parse.returnStatement d) (Parse.returnStatement d) := by
  refine transfers_traced (transfers_bind transfers_previous fun keyword => ?_)
  have hvalue : w.Transfers 0 1 (Stmt.relocate r.move)
      (do let value ← Parse.expressionUnless (d.below 2) .semicolon
          let _ ← Parse.expect .semicolon (.expected "; after return value")
          return Stmt.returning keyword value)
      (do let value ← Parse.expressionUnless (d.below 2) .semicolon
          let _ ← Parse.expect .semicolon (.expected "; after return value")
          return Stmt.returning (r.move keyword) value) :=
    transfers_bind (transfers_expressionUnless (hd.below 2) .semicolon) fun value =>
      transfers_bind_after (transfers_expect _ _) fun _ =>
        transfers_pure (Stmt.returning keyword value)
  refine transfers_get_bind fun c c' hdepth => ?_
  rw [hdepth]
  split
  · exact transfers_of_fails (fails_bind (fun _ _ _ hthrow => by contradiction) _)
  · exact hvalue

/-! ### Declarations and blocks -/

/-- **Blocks.** In front of the end of the tokens there is no other end. -/
theorem transfers_block (hd : d.Transfers w) :
    w.Transfers 0 1 (Stmt.relocateAll r.move) (Parse.block d) (Parse.block d) := by
  -- the statements are in reverse order while the block is read
  have hdone : ∀ body : List Stmt,
      w.Transfers 1 0 (Turn.map (Stmt.relocateAll r.move) (Stmt.relocateAll r.move))
        (pure (Turn.done body.reverse)) (pure (Turn.done (Stmt.relocateAll r.move body).reverse)) := by
    intro body
    have hreverse : (Stmt.relocateAll r.move body).reverse = Stmt.relocateAll r.move body.reverse := by
      rw [Stmt.relocateAll_eq_map, Stmt.relocateAll_eq_map, List.map_reverse]
    rw [hreverse]
    exact transfers_pure (Turn.done body.reverse)
  let turn : List Stmt → Parse (Turn (List Stmt) (List Stmt)) := fun body => do
    if ← Parse.check .rightBrace then return .done body.reverse
    if ← Parse.check .eof then return .done body.reverse
    return .again ((← (d 1).declaration) :: body)
  -- the declarations are the same in the window, whatever stands behind it
  have hturn : ∀ body, w.Transfers 1 0
      (Turn.map (Stmt.relocateAll r.move) (Stmt.relocateAll r.move)) (turn body)
      (turn (Stmt.relocateAll r.move body)) := by
    intro body
    refine transfers_bind (transfers_check .rightBrace) fun b => ?_
    cases b with
    | true => exact hdone body
    | false =>
    refine transfers_bind (transfers_check .eof) fun b => ?_
    cases b with
    | true => exact hdone body
    | false =>
      exact transfers_bind (hd 1).declaration.anywhere fun st =>
        transfers_pure (Turn.again (st :: body))
  have hloop : w.Transfers 1 0 (Stmt.relocateAll r.move) (Parse.repeated .outOfRange turn [])
      (Parse.repeated .outOfRange turn []) := transfers_repeated hturn []
  exact transfers_bind hloop fun body =>
    transfers_bind_after (transfers_expect _ _) fun _ => transfers_pure body

/-- **A walk inside one more function.** -/
theorem transfers_insideFunction {ahead passed : Nat} {onResult : α → α'} {walk : Parse α}
    {walk' : Parse α'} (h : w.Transfers ahead passed onResult walk walk') :
    w.Transfers ahead passed onResult (Parse.insideFunction walk) (Parse.insideFunction walk') := by
  intro c a c₁ hwalk
  obtain ⟨c₂, hbody, rfl⟩ := insideFunction_eq_ok_iff.1 hwalk
  obtain ⟨honward, hsame⟩ := h _ a c₂ hbody
  refine ⟨⟨honward.tokens_eq, Nat.sub_eq_of_eq_add honward.depth_eq, honward.index_le⟩,
    fun c' hbeside hend => ?_⟩
  obtain ⟨c₂', hbody', hbeside₂⟩ := hsame { c' with functionDepth := c'.functionDepth + 1 }
    ⟨hbeside.part_eq, hbeside.whole_eq, hbeside.index_eq, congrArg (· + 1) hbeside.depth_eq⟩ hend
  exact ⟨_, insideFunction_eq_ok_iff.2 ⟨c₂', hbody', rfl⟩, hbeside₂.part_eq, hbeside₂.whole_eq,
    hbeside₂.index_eq, congrArg (· - 1) hbeside₂.depth_eq⟩

theorem transfers_functionDeclaration (hd : d.Transfers w) :
    w.Transfers 0 1 (Stmt.relocate r.move) (Parse.functionDeclaration d)
      (Parse.functionDeclaration d) := by
  refine transfers_traced (transfers_bind (transfers_expect _ _) fun name => ?_)
  refine transfers_bind (transfers_expect _ _) fun _ => ?_
  -- with or without parameters, the rest is the same
  have hbody : ∀ parameters : List Token, w.Transfers 0 1 (Stmt.relocate r.move)
      (do let _ ← Parse.expect .rightParen (.expected ") after parameters")
          let _ ← Parse.expect .leftBrace (.expected "\x7b before function body")
          return Stmt.function name parameters (← Parse.insideFunction (Parse.block (d.below 2))))
      (do let _ ← Parse.expect .rightParen (.expected ") after parameters")
          let _ ← Parse.expect .leftBrace (.expected "\x7b before function body")
          return Stmt.function (r.move name) (parameters.map r.move)
            (← Parse.insideFunction (Parse.block (d.below 2)))) :=
    fun parameters => transfers_bind (transfers_expect _ _) fun _ =>
      transfers_bind (transfers_expect _ _) fun _ =>
        transfers_bind_after (transfers_insideFunction (transfers_block (hd.below 2))) fun body =>
          transfers_pure (Stmt.function name parameters body)
  refine transfers_bind (transfers_check .rightParen) fun empty => ?_
  cases empty with
  | true => exact hbody []
  | false =>
    have hparameter : w.Transfers 1 0 r.move
        (Parse.expect .identifier (.expected "parameter name"))
        (Parse.expect .identifier (.expected "parameter name")) :=
      (transfers_expect _ _).mono (Nat.zero_le _) (Nat.zero_le _)
    exact transfers_bind (transfers_commaSeparated hparameter) hbody

/-- **A choice by the first token.** -/
theorem transfers_choice {kind : TokenKind} {onResult : α → α'} {yes no : Parse α}
    {yes' no' : Parse α'} (hyes : w.Transfers 0 1 onResult yes yes')
    (hno : w.Transfers 0 1 onResult no no') :
    w.Transfers 0 1 onResult (do if ← Parse.accept kind then yes else no)
      (do if ← Parse.accept kind then yes' else no') := by
  refine transfers_bind (transfers_accept kind) fun b => ?_
  cases b with
  | true => exact hyes
  | false => exact hno

/-- **Statements.** -/
theorem transfers_statementStep (hd : d.Transfers w) :
    w.Transfers 0 1 (Stmt.relocate r.move) (Parse.statementStep d) (Parse.statementStep d) := by
  have hd₁ := hd.below 1
  have hblock : w.Transfers 0 1 (Stmt.relocate r.move)
      (Parse.block (d.below 1) >>= fun body => pure (Stmt.block body))
      (Parse.block (d.below 1) >>= fun body => pure (Stmt.block body)) :=
    transfers_bind_after (transfers_block hd₁) fun body => transfers_pure (Stmt.block body)
  exact transfers_choice (transfers_printStatement hd₁) (transfers_choice (transfers_ifStatement hd₁)
    (transfers_choice (transfers_whileStatement hd₁) (transfers_choice (transfers_forStatement hd₁)
      (transfers_choice (transfers_returnStatement hd₁) (transfers_choice hblock
        (transfers_expressionStatement hd₁))))))

/-- **Declarations.** -/
theorem transfers_declarationStep (hd : d.Transfers w) :
    w.Transfers 0 1 (Stmt.relocate r.move) (Parse.declarationStep d) (Parse.declarationStep d) := by
  have hd₁ := hd.below 1
  exact transfers_choice (transfers_variableDeclaration hd₁ false)
    (transfers_choice (transfers_variableDeclaration hd₁ true)
      (transfers_choice (transfers_functionDeclaration hd₁) (hd 1).statement))

end Window

/-! ### Tying the recursion -/

/-- **The productions in some room** do the same on a window, in the same room. -/
theorem productions_transfer (w : Window r) (room : Nat) : (Descent.inRoom room).Transfers w := by
  intro cost
  unfold Descent.inRoom
  have hfull : Productions.full.Transfers w :=
    ⟨fun _ => Window.transfers_reject _, Window.transfers_reject _, Window.transfers_reject _⟩
  refine recurse_induction hfull (fun inner hinner => ?_) room cost
  exact ⟨Window.transfers_precedenceStep hinner, Window.transfers_statementStep hinner,
    Window.transfers_declarationStep hinner⟩

end Lox
