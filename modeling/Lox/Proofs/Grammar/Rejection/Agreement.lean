import Lox.Grammar.Program
import Lox.Proofs.Grammar.Rejection.Fork

/-!
# Productions at a fork

Every production does the same on two lists of tokens as long as it stays in front of the fork, and
in at least as much room on the right as on the left.

* `Productions.Agree` — the recursive productions;
* `Fork.agrees_precedenceStep` — expressions;
* `Fork.agrees_statementStep`, `Fork.agrees_declarationStep` — statements and declarations;
* `descents_agree` — the productions that are tied together, by induction on the room;
* `Fork.agrees_program` — whole programs.
-/

namespace Lox

variable {α β γ κ : Type} {f : Fork}

/-- **The recursive productions do the same** on both sides. Nothing is seen of the trees. -/
structure Productions.Agree (f : Fork) (p p' : Productions) : Prop where
  precedence : ∀ level, f.Agrees 0 1 unseen (p.precedence level) (p'.precedence level)
  statement : f.Agrees 0 1 unseen p.statement p'.statement
  declaration : f.Agrees 0 1 unseen p.declaration p'.declaration

/-- All productions of two descents. -/
def Descent.Agree (f : Fork) (d d' : Descent) : Prop := ∀ cost, (d cost).Agree f (d' cost)

theorem Descent.Agree.below {d d' : Descent} (hd : d.Agree f d') (cost : Nat) :
    (d.below cost).Agree f (d'.below cost) := fun further => hd (further + cost)

namespace Fork

open Window

variable {d d' : Descent}

/-! ### Turns that keep pace -/

/-- A turn that goes on has passed what its walk has passed. -/
theorem index_le_of_again {passed : Nat} {seen : α → κ} {walk walk' : Parse α} {make : α → β}
    (h : f.Agrees 0 passed seen walk walk') {c c₁ : Cursor} {turn : Turn β γ}
    (hturn : (walk >>= fun a => pure (Turn.again (make a))) c = .ok turn c₁) :
    c.index + passed ≤ c₁.index := by
  obtain ⟨a, c₂, hwalk, hpure⟩ := bind_eq_ok hturn
  obtain ⟨-, rfl⟩ := EStateM.Result.ok.inj hpure
  exact (h.ok c a c₂ hwalk).1.index_le

/-- A turn that chooses by the next token needs one. -/
theorem paced_choice {kind : TokenKind} {yes no : Parse (Turn β γ)}
    (hyes : ∀ c b c₁, yes c = .ok (.again b) c₁ → c.index ≤ c₁.index)
    (hno : ∀ c b c₁, no c = .ok (.again b) c₁ → c.index < c₁.index) :
    Paced (do if ← Parse.accept kind then yes else no) where
  missing c hnone := ⟨_, _, bind_of_error (accept_of_none hnone kind), id⟩
  onward c b c₁ hturn := by
    cases ht : c.tokens[c.index]? with
    | none =>
      rw [bind_of_error (accept_of_none ht kind)] at hturn
      contradiction
    | some t =>
      rw [choice_of_getElem? ht] at hturn
      split at hturn
      · exact hyes { c with index := c.index + 1 } b c₁ hturn
      · exact hno c b c₁ hturn

/-- So does a turn that checks the next token first. -/
theorem paced_check {kind : TokenKind} {next : Bool → Parse (Turn β γ)}
    (h : ∀ found c b c₁, next found c = .ok (.again b) c₁ → c.index < c₁.index) :
    Paced (Parse.check kind >>= next) where
  missing c hnone := ⟨_, _, bind_of_error (check_of_none hnone kind), id⟩
  onward c b c₁ hturn := by
    obtain ⟨found, c₂, hcheck, hnext⟩ := bind_eq_ok hturn
    obtain ⟨rfl, -⟩ := check_eq_ok hcheck
    exact h found c₂ b c₁ hnext

/-! ### Expressions -/

theorem agrees_expression (hd : d.Agree f d') :
    f.Agrees 0 1 unseen (Parse.expression d) (Parse.expression d') :=
  agrees_traced ((hd 2).precedence .assignment)

/-- **Items between commas,** as many on both sides. -/
theorem agrees_commaSeparated {tooMany : Complaint} {seen : α → κ} {item item' : Parse α}
    (h : f.Agrees 0 1 seen item item') :
    f.Agrees 0 1 List.length (Parse.commaSeparated tooMany item)
      (Parse.commaSeparated tooMany item') := by
  have hpaced : ∀ items : List α, Paced (do
      if ← Parse.accept .comma then
        if items.length = maxArguments then Parse.reject tooMany
        return Turn.again ((← item) :: items)
      return Turn.done items.reverse) := by
    intro items
    -- a turn that goes on has passed a comma and an item
    refine paced_choice (fun c b c₁ hturn => ?_) fun c b c₁ hturn => nomatch hturn
    split at hturn
    · exact absurd hturn (fails_bind (reject_fails tooMany) _ c _ c₁)
    · exact Nat.le_of_succ_le (index_le_of_again h hturn)
  refine agrees_bind_after h fun first first' _ => ?_
  have hone : [first'].length = [first].length := rfl
  refine agrees_repeated id hpaced (fun items items' hlength => ?_) hone
  refine agrees_choice ?_ (agrees_pure ?_)
  · -- the limit is met on both sides or on neither, as there are as many items on both
    rw [show items'.length = items.length from hlength]
    split
    · exact agrees_reject_bind tooMany (fun _ => Nat.le_refl 1) _ _
    · have hagain : f.Agrees 0 0 (Turn.map List.length List.length)
          (item >>= fun a => (pure (Turn.again (a :: items)) : Parse (Turn (List α) (List α))))
          (item' >>= fun a => pure (Turn.again (a :: items'))) :=
        agrees_bind h fun _ _ _ => agrees_pure (congrArg (fun n => Turn.again (n + 1)) hlength)
      exact hagain.lookingBack
  · rw [Turn.map, Turn.map, List.length_reverse, List.length_reverse]
    exact congrArg Turn.done hlength

theorem agrees_argumentList (hd : d.Agree f d') :
    f.Agrees 0 1 List.length (Parse.argumentList d) (Parse.argumentList d') := by
  have hclose : ∀ es es' : List Expr, es'.length = es.length → f.Agrees 0 1 List.length
      (Parse.expect .rightParen (.expected ") after arguments") >>= fun _ => pure es)
      (Parse.expect .rightParen (.expected ") after arguments") >>= fun _ => pure es') :=
    fun es es' hlength => agrees_bind_after (agrees_expect _ _ rfl) fun _ _ _ => agrees_pure hlength
  refine agrees_traced (agrees_bind (agrees_check .rightParen) fun b b' hb => ?_)
  obtain rfl : b' = b := hb
  cases b' with
  | true => exact hclose [] [] rfl
  | false =>
    exact agrees_bind (agrees_commaSeparated (agrees_expression (hd.below 2))) hclose

/-- **An operator between operands.** -/
theorem agrees_binary (hd : d.Agree f d') (left left' : Expr) :
    f.Agrees 0 1 unseen (Parse.binary d left) (Parse.binary d' left') := by
  refine agrees_traced (agrees_bind agrees_previous fun operator operator' hkind => ?_)
  rw [hkind]
  cases (Rule.of operator.kind).precedence.next? with
  | none => exact agrees_throw id
  | some level =>
    refine agrees_bind_after ((hd 2).precedence level) fun right right' _ => ?_
    cases operator.kind <;> exact agrees_pure rfl

theorem agrees_unary (hd : d.Agree f d') :
    f.Agrees 0 1 unseen (Parse.unary d) (Parse.unary d') :=
  agrees_traced (agrees_bind agrees_previous fun _ _ _ =>
    agrees_bind_after ((hd 2).precedence .unary) fun _ _ _ => agrees_pure rfl)

theorem agrees_literal : f.Agrees 0 0 unseen Parse.literal Parse.literal := by
  refine agrees_traced (agrees_bind agrees_previous fun t t' hkind => ?_)
  rw [hkind]
  cases t.kind <;> first | exact agrees_pure rfl | exact agrees_throw id

theorem agrees_grouping (hd : d.Agree f d') :
    f.Agrees 0 1 unseen (Parse.grouping d) (Parse.grouping d') :=
  agrees_traced (agrees_bind_after (agrees_expression (hd.below 2)) fun _ _ _ =>
    agrees_bind (agrees_expect _ _ rfl) fun _ _ _ => agrees_pure rfl)

theorem agrees_variableName (hd : d.Agree f d') (canAssign : Bool) :
    f.Agrees 0 0 unseen (Parse.variableName d canAssign) (Parse.variableName d' canAssign) := by
  refine agrees_traced (agrees_bind agrees_previous fun name name' _ => ?_)
  cases canAssign with
  | false => exact agrees_pure rfl
  | true =>
    refine agrees_bind (agrees_accept .equal) fun b b' hb => ?_
    obtain rfl : b' = b := hb
    cases b' with
    | false => exact agrees_pure rfl
    | true => exact agrees_bind (agrees_expression (hd.below 2)) fun _ _ _ => agrees_pure rfl

theorem agrees_call (hd : d.Agree f d') (callee callee' : Expr) :
    f.Agrees 0 1 unseen (Parse.call d callee) (Parse.call d' callee') :=
  agrees_traced (agrees_bind agrees_previous fun _ _ _ =>
    agrees_bind_after (agrees_argumentList (hd.below 2)) fun _ _ _ => agrees_pure rfl)

/-- What a token begins. -/
theorem agrees_beginning (hd : d.Agree f d') (canAssign : Bool) (rule : PrefixRule) :
    f.Agrees 0 0 unseen (Parse.beginning d canAssign rule) (Parse.beginning d' canAssign rule) := by
  cases rule with
  | grouping => exact (agrees_grouping hd).mono (Nat.le_refl 0) (Nat.zero_le 1)
  | unary => exact (agrees_unary hd).mono (Nat.le_refl 0) (Nat.zero_le 1)
  | literal => exact agrees_literal
  | «variable» => exact agrees_variableName hd canAssign

theorem agrees_continuation (hd : d.Agree f d') (left left' : Expr) (rule : InfixRule) :
    f.Agrees 0 1 unseen (Parse.continuation d left rule) (Parse.continuation d' left' rule) := by
  cases rule with
  | binary => exact agrees_binary hd left left'
  | call => exact agrees_call hd left left'

/-- **A turn of the operator loop** passes the operator. -/
theorem paced_operatorTurn (hd : d.Agree f d') (level : Precedence) (left : Expr) :
    Paced (Parse.operatorTurn d level left) where
  -- behind the last token there is nothing to look at
  missing c hnone := by
    have hpeek : Parse.peek 0 c = .error .badIndex c := by
      rw [peek_eq (Int.add_zero (c.index : Int)), hnone]
      rfl
    exact ⟨_, _, bind_of_error hpeek, id⟩
  -- the operator itself is passed before its rule is looked up
  onward c e c₁ hturn := by
    obtain ⟨next, c₂, hpeek, htaken⟩ := bind_eq_ok hturn
    obtain rfl : c₂ = c := (peek_eq_ok hpeek).1
    simp only at htaken
    split at htaken
    · obtain ⟨_, c₃, hadvance, hbehind⟩ := bind_eq_ok htaken
      obtain ⟨-, rfl⟩ := EStateM.Result.ok.inj hadvance
      cases hrule : (Rule.of next.kind).behind with
      | none => rw [hrule] at hbehind; contradiction
      | some rule =>
        rw [hrule] at hbehind
        have hindex : c₂.index + 1 + 1 ≤ c₁.index :=
          index_le_of_again (agrees_continuation hd left left rule) hbehind
        omega
    · exact nomatch htaken

theorem agrees_operatorTurn (hd : d.Agree f d') (level : Precedence) (left left' : Expr) :
    f.Agrees 0 0 (Turn.map unseen unseen) (Parse.operatorTurn d level left)
      (Parse.operatorTurn d' level left') := by
  refine agrees_bind (agrees_peek (Int.le_refl 0)) fun next next' hkind => ?_
  rw [hkind]
  simp only
  split
  · refine agrees_bind agrees_advance fun _ _ _ => ?_
    cases (Rule.of next.kind).behind with
    | none => exact agrees_throw id
    | some rule =>
      exact agrees_bind (agrees_continuation hd left left' rule) fun _ _ _ => agrees_pure rfl
  · exact agrees_pure rfl

/-- **Expressions of a level.** -/
theorem agrees_precedenceStep (hd : d.Agree f d') (level : Precedence) :
    f.Agrees 0 1 unseen (Parse.precedenceStep d level) (Parse.precedenceStep d' level) := by
  refine agrees_traced (agrees_first fun first first' hkind => ?_)
  -- the kind of the first token decides on the rule, and it is the same on both sides
  rw [hkind]
  cases (Rule.of first.kind).front with
  | none => exact agrees_retreat_reject _ rfl
  | some rule =>
    have hloop : ∀ left left', f.Agrees 0 0 unseen
        (Parse.repeated .badIndex (Parse.operatorTurn (d.below 2) level) left)
        (Parse.repeated .badIndex (Parse.operatorTurn (d'.below 2) level) left') := by
      intro left left'
      have hleft : unseen left' = unseen left := rfl
      exact agrees_repeated id (paced_operatorTurn (hd.below 2) level)
        (fun left left' _ => agrees_operatorTurn (hd.below 2) level left left') hleft
    have hrest : f.Agrees 0 0 unseen
        (do let left ← Parse.beginning (d.below 2) (level ≤ Precedence.assignment) rule
            let result ← Parse.repeated .badIndex (Parse.operatorTurn (d.below 2) level) left
            if level ≤ Precedence.assignment then
              if ← Parse.check .equal then Parse.reject .invalidAssignmentTarget
            return result)
        (do let left ← Parse.beginning (d'.below 2) (level ≤ Precedence.assignment) rule
            let result ← Parse.repeated .badIndex (Parse.operatorTurn (d'.below 2) level) left
            if level ≤ Precedence.assignment then
              if ← Parse.check .equal then Parse.reject .invalidAssignmentTarget
            return result) := by
      refine agrees_bind (agrees_beginning (hd.below 2) _ rule) fun left left' _ => ?_
      refine agrees_bind (hloop left left') fun result result' _ => ?_
      split
      · refine agrees_bind (agrees_check .equal) fun b b' hb => ?_
        obtain rfl : b' = b := hb
        cases b' with
        | false => exact agrees_pure rfl
        | true => exact agrees_reject_bind _ (by simp [Complaint.isLimit]) _ _
      · exact agrees_pure rfl
    -- the rule begins behind the first token, which has been passed already
    exact hrest.lookingBack

/-! ### Statements -/

theorem agrees_expressionStatement (hd : d.Agree f d') :
    f.Agrees 0 1 unseen (Parse.expressionStatement d) (Parse.expressionStatement d') :=
  agrees_traced (agrees_bind_after (agrees_expression (hd.below 2)) fun _ _ _ =>
    agrees_bind (agrees_expect _ _ rfl) fun _ _ _ => agrees_pure rfl)

theorem agrees_printStatement (hd : d.Agree f d') :
    f.Agrees 0 1 unseen (Parse.printStatement d) (Parse.printStatement d') :=
  agrees_traced (agrees_bind_after (agrees_expression (hd.below 2)) fun _ _ _ =>
    agrees_bind (agrees_expect _ _ rfl) fun _ _ _ => agrees_pure rfl)

/-- **Conditionals.** Behind the first branch they look for an `else`. -/
theorem agrees_ifStatement (hd : d.Agree f d') :
    f.Agrees 0 1 unseen (Parse.ifStatement d) (Parse.ifStatement d') := by
  refine agrees_traced (agrees_bind_after (agrees_expect _ _ rfl) fun _ _ _ => ?_)
  refine agrees_bind (agrees_expression (hd.below 2)) fun condition condition' _ => ?_
  refine agrees_bind (agrees_expect _ _ rfl) fun _ _ _ => ?_
  refine agrees_bind (hd 2).statement fun yes yes' _ => ?_
  refine agrees_bind (agrees_accept .elseWord) fun b b' hb => ?_
  obtain rfl : b' = b := hb
  cases b' with
  | false => exact agrees_pure rfl
  | true => exact agrees_bind (hd 2).statement fun _ _ _ => agrees_pure rfl

theorem agrees_whileStatement (hd : d.Agree f d') :
    f.Agrees 0 1 unseen (Parse.whileStatement d) (Parse.whileStatement d') :=
  agrees_traced (agrees_bind_after (agrees_expect _ _ rfl) fun _ _ _ =>
    agrees_bind (agrees_expression (hd.below 2)) fun _ _ _ =>
      agrees_bind (agrees_expect _ _ rfl) fun _ _ _ =>
        agrees_bind (hd 2).statement fun _ _ _ => agrees_pure rfl)

theorem agrees_variableDeclaration (hd : d.Agree f d') (const : Bool) :
    f.Agrees 0 1 unseen (Parse.variableDeclaration d const)
      (Parse.variableDeclaration d' const) := by
  refine agrees_traced (agrees_bind_after (agrees_expect _ _ rfl) fun name name' _ => ?_)
  have hclose : ∀ initial initial' : Option Expr, unseen initial' = unseen initial →
      f.Agrees 0 0 unseen
        (Parse.expect .semicolon (.expected "; after variable declaration") >>= fun _ =>
          pure (Stmt.variable name initial const))
        (Parse.expect .semicolon (.expected "; after variable declaration") >>= fun _ =>
          pure (Stmt.variable name' initial' const)) :=
    fun _ _ _ => agrees_bind (agrees_expect _ _ rfl) fun _ _ _ => agrees_pure rfl
  refine agrees_bind (agrees_accept .equal) fun b b' hb => ?_
  obtain rfl : b' = b := hb
  cases b' with
  | true =>
    have hsome : f.Agrees 0 1 unseen (some <$> Parse.expression (d.below 2))
        (some <$> Parse.expression (d'.below 2)) :=
      agrees_bind_after (agrees_expression (hd.below 2)) fun _ _ _ => agrees_pure rfl
    exact agrees_bind hsome hclose
  -- only a constant has to have a value
  | false =>
    cases const with
    | true => exact agrees_reject_bind _ (by simp [Complaint.isLimit]) _ _
    | false => exact hclose none none rfl

/-- What a loop does first. -/
theorem agrees_forStart (hd : d.Agree f d') :
    f.Agrees 0 0 unseen (Parse.forStart d) (Parse.forStart d') := by
  have hsome : ∀ {walk walk' : Parse Stmt}, f.Agrees 0 1 unseen walk walk' →
      f.Agrees 1 0 unseen (walk >>= fun st => pure (some st))
        (walk' >>= fun st => pure (some st)) :=
    fun h => agrees_bind h.lookingBack fun _ _ _ => agrees_pure rfl
  refine agrees_choice (agrees_pure rfl) ?_
  refine agrees_choice (hsome (agrees_variableDeclaration hd false)) ?_
  refine agrees_choice (hsome (agrees_variableDeclaration hd true)) ?_
  exact agrees_bind (agrees_expressionStatement hd) fun _ _ _ => agrees_pure rfl

theorem agrees_expressionUnless (hd : d.Agree f d') (kind : TokenKind) :
    f.Agrees 0 0 unseen (Parse.expressionUnless d kind) (Parse.expressionUnless d' kind) := by
  refine agrees_bind (agrees_check kind) fun b b' hb => ?_
  obtain rfl : b' = b := hb
  cases b' with
  | true => exact agrees_pure rfl
  | false => exact agrees_bind (agrees_expression hd) fun _ _ _ => agrees_pure rfl

theorem agrees_forStatement (hd : d.Agree f d') :
    f.Agrees 0 1 unseen (Parse.forStatement d) (Parse.forStatement d') := by
  refine agrees_traced (agrees_bind_after (agrees_expect _ _ rfl) fun _ _ _ => ?_)
  refine agrees_bind (agrees_forStart (hd.below 2)) fun _ _ _ => ?_
  refine agrees_bind (agrees_expressionUnless (hd.below 2) .semicolon) fun _ _ _ => ?_
  refine agrees_bind (agrees_expect _ _ rfl) fun _ _ _ => ?_
  refine agrees_bind (agrees_expressionUnless (hd.below 2) .rightParen) fun _ _ _ => ?_
  refine agrees_bind (agrees_expect _ _ rfl) fun _ _ _ => ?_
  exact agrees_bind (hd 2).statement fun _ _ _ => agrees_pure rfl

/-- **Returns** complain about the keyword that has been passed. -/
theorem agrees_returnStatement (hd : d.Agree f d') :
    f.Agrees 1 1 unseen (Parse.returnStatement d) (Parse.returnStatement d') := by
  refine agrees_traced (agrees_return fun keyword keyword' _ => ?_)
  have hvalue : f.Agrees 0 1 unseen
      (do let value ← Parse.expressionUnless (d.below 2) .semicolon
          let _ ← Parse.expect .semicolon (.expected "; after return value")
          return Stmt.returning keyword value)
      (do let value ← Parse.expressionUnless (d'.below 2) .semicolon
          let _ ← Parse.expect .semicolon (.expected "; after return value")
          return Stmt.returning keyword' value) :=
    agrees_bind (agrees_expressionUnless (hd.below 2) .semicolon) fun _ _ _ =>
      agrees_bind_after (agrees_expect _ _ rfl) fun _ _ _ => agrees_pure rfl
  exact hvalue.lookingBack

/-! ### Declarations and blocks -/

/-- **Blocks.** -/
theorem agrees_block (hd : d.Agree f d') :
    f.Agrees 0 1 unseen (Parse.block d) (Parse.block d') := by
  let turn : Descent → List Stmt → Parse (Turn (List Stmt) (List Stmt)) := fun d body => do
    if ← Parse.check .rightBrace then return .done body.reverse
    if ← Parse.check .eof then return .done body.reverse
    return .again ((← (d 1).declaration) :: body)
  -- a turn that goes on has passed a declaration
  have hpaced : ∀ body, Paced (turn d body) := by
    intro body
    refine paced_check fun found c b c₁ hturn => ?_
    cases found with
    | true => exact nomatch hturn
    | false =>
    obtain ⟨found, c₂, hcheck, hdeclaration⟩ := bind_eq_ok hturn
    obtain rfl : c₂ = c := (check_eq_ok hcheck).1
    cases found with
    | true => exact nomatch hdeclaration
    | false => exact index_le_of_again (hd 1).declaration hdeclaration
  -- both sides see the brace, the end, or the declarations that agree
  have hturn : ∀ body body',
      f.Agrees 0 0 (Turn.map unseen unseen) (turn d body) (turn d' body') := by
    intro body body'
    refine agrees_bind (agrees_check .rightBrace) fun b b' hb => ?_
    obtain rfl : b' = b := hb
    cases b' with
    | true => exact agrees_pure rfl
    | false =>
    refine agrees_bind (agrees_check .eof) fun b b' hb => ?_
    obtain rfl : b' = b := hb
    cases b' with
    | true => exact agrees_pure rfl
    | false => exact agrees_bind (hd 1).declaration fun _ _ _ => agrees_pure rfl
  have hnil : unseen ([] : List Stmt) = unseen ([] : List Stmt) := rfl
  refine agrees_bind (agrees_repeated id hpaced (fun body body' _ => hturn body body') hnil)
    fun body body' _ => ?_
  exact agrees_bind_after (agrees_expect _ _ rfl) fun _ _ _ => agrees_pure rfl

theorem agrees_functionDeclaration (hd : d.Agree f d') :
    f.Agrees 0 1 unseen (Parse.functionDeclaration d) (Parse.functionDeclaration d') := by
  refine agrees_traced (agrees_bind_after (agrees_expect _ _ rfl) fun name name' _ => ?_)
  refine agrees_bind (agrees_expect _ _ rfl) fun _ _ _ => ?_
  -- with or without parameters, the rest is the same
  have hbody : ∀ parameters parameters' : List Token, f.Agrees 0 0 unseen
      (do let _ ← Parse.expect .rightParen (.expected ") after parameters")
          let _ ← Parse.expect .leftBrace (.expected "\x7b before function body")
          return Stmt.function name parameters
            (← Parse.insideFunction (Parse.block (d.below 2))))
      (do let _ ← Parse.expect .rightParen (.expected ") after parameters")
          let _ ← Parse.expect .leftBrace (.expected "\x7b before function body")
          return Stmt.function name' parameters'
            (← Parse.insideFunction (Parse.block (d'.below 2)))) :=
    fun parameters parameters' => agrees_bind (agrees_expect _ _ rfl) fun _ _ _ =>
      agrees_bind (agrees_expect _ _ rfl) fun _ _ _ =>
        agrees_bind (agrees_insideFunction (agrees_block (hd.below 2))) fun _ _ _ =>
          agrees_pure rfl
  refine agrees_bind (agrees_check .rightParen) fun b b' hb => ?_
  obtain rfl : b' = b := hb
  cases b' with
  | true => exact hbody [] []
  | false =>
    have hparameter : f.Agrees 0 1 Token.kind
        (Parse.expect .identifier (.expected "parameter name"))
        (Parse.expect .identifier (.expected "parameter name")) := agrees_expect _ _ rfl
    exact agrees_bind (agrees_commaSeparated hparameter) fun parameters parameters' _ =>
      hbody parameters parameters'

/-- **Statements.** -/
theorem agrees_statementStep (hd : d.Agree f d') :
    f.Agrees 0 1 unseen (Parse.statementStep d) (Parse.statementStep d') := by
  have hd₁ := hd.below 1
  have hblock : f.Agrees 0 1 unseen
      (Parse.block (d.below 1) >>= fun body => pure (Stmt.block body))
      (Parse.block (d'.below 1) >>= fun body => pure (Stmt.block body)) :=
    agrees_bind_after (agrees_block hd₁) fun _ _ _ => agrees_pure rfl
  refine agrees_choice (agrees_printStatement hd₁).lookingBack ?_
  refine agrees_choice (agrees_ifStatement hd₁).lookingBack ?_
  refine agrees_choice (agrees_whileStatement hd₁).lookingBack ?_
  refine agrees_choice (agrees_forStatement hd₁).lookingBack ?_
  refine agrees_choice (agrees_returnStatement hd₁) ?_
  exact agrees_choice hblock.lookingBack (agrees_expressionStatement hd₁)

/-- **Declarations.** -/
theorem agrees_declarationStep (hd : d.Agree f d') :
    f.Agrees 0 1 unseen (Parse.declarationStep d) (Parse.declarationStep d') := by
  have hd₁ := hd.below 1
  refine agrees_choice (agrees_variableDeclaration hd₁ false).lookingBack ?_
  refine agrees_choice (agrees_variableDeclaration hd₁ true).lookingBack ?_
  exact agrees_choice (agrees_functionDeclaration hd₁).lookingBack (hd 1).statement

end Fork

/-! ### Tying the recursion -/

/-- Without room, a walk fails for want of it. -/
theorem reject_tooMuchNesting (c : Cursor) :
    ∃ e c₁, (Parse.reject .tooMuchNesting : Parse α) c = .error e c₁ ∧ ¬ e.IsRejection := by
  cases ht : c.tokens[c.index]? with
  | none => exact ⟨_, _, Fork.reject_of_none ht _, id⟩
  | some t => exact ⟨_, _, Fork.reject_of_getElem? ht _, id⟩

/-- **Descents with different room.** The one on the right has as much room, or more. -/
theorem descents_agree (f : Fork) {room room' : Nat} (hroom : room ≤ room') :
    (Descent.inRoom room).Agree f (Descent.inRoom room') := by
  -- without room there is nothing but the complaint about it, which is not what is compared
  have hfull : ∀ p : Productions, Productions.full.Agree f p := fun _ =>
    ⟨fun _ => Fork.agrees_of_fails reject_tooMuchNesting,
      Fork.agrees_of_fails reject_tooMuchNesting, Fork.agrees_of_fails reject_tooMuchNesting⟩
  exact recurse_induction_le hfull (fun _ _ hd => ⟨Fork.agrees_precedenceStep hd,
    Fork.agrees_statementStep hd, Fork.agrees_declarationStep hd⟩) hroom

/-- **Programs.** -/
theorem Fork.agrees_program {d d' : Descent} (hd : d.Agree f d') :
    f.Agrees 0 0 unseen (Parse.program d) (Parse.program d') := by
  have hpaced : ∀ program : List Stmt, Paced (do
      if ← Parse.accept .eof then return Turn.done program.reverse
      return Turn.again ((← (d 0).declaration) :: program)) := by
    intro program
    refine paced_choice (fun c b c₁ hturn => nomatch hturn) fun c b c₁ hturn => ?_
    exact index_le_of_again (hd 0).declaration hturn
  have hnil : unseen ([] : List Stmt) = unseen ([] : List Stmt) := rfl
  refine agrees_repeated id hpaced (fun program program' _ => ?_) hnil
  exact agrees_choice (agrees_pure rfl)
    (agrees_bind (hd 0).declaration fun _ _ _ => agrees_pure rfl)

end Lox
