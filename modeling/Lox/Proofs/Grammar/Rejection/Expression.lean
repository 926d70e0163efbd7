import Lox.Proofs.Grammar.Rejection.Opening

/-!
# Expressions that can still be completed

Wherever an expression fails, what has been read of it can be completed: an operand that is missing
is supplied, and parentheses that are open are closed. An operator has been passed only if it takes
the operand on its left whole, so that a right operand of the level that is asked for completes it.

* `ExprMarks` — the written form of the expressions of a level;
* `Productions.Mend` — what the recursive productions say when they fail;
* `mends_precedenceStep` — expressions, from the productions that are reached from them.
-/

namespace Lox

/-! ### What is wanted -/

/-- **The written form of an expression** of at least one level. -/
def ExprMarks (level : Precedence) (ms : List Mark) : Prop :=
  ∃ e : Expr, e.Normal ∧ level ≤ e.binding ∧ e.marks = ms

/-- The written form of a statement. -/
def StmtMarks (inside : Bool) (ms : List Mark) : Prop :=
  ∃ st : Stmt, st.Normal inside ∧ st.marks = ms

/-- The written form of a statement that is no declaration. -/
def BodyMarks (inside : Bool) (ms : List Mark) : Prop :=
  ∃ st : Stmt, st.Normal inside ∧ st.isDeclaration = false ∧ st.marks = ms

/-- The written form of arguments, the closing parenthesis included. -/
def ArgumentMarks (ms : List Mark) : Prop :=
  ∃ es : List Expr, es.length ≤ maxArguments ∧ Expr.AllNormal es ∧
    Expr.listMarks es ++ [.word .rightParen] = ms

/-- **An operand that is missing** can be supplied. -/
theorem exprMarks_nil (level : Precedence) : ExprMarks level [.literal .nil] :=
  ⟨.literal .nil, trivial, level.le_primary, rfl⟩

/-- **Productions that fail in the middle of something** that can be completed. -/
structure Productions.Mend (p : Productions) : Prop where
  sound : p.Sound
  precedence : ∀ (level : Precedence) (s : Spot), s.Lexed → level ≤ .unary →
    Mends (ExprMarks level) s (p.precedence level) s
  statement : ∀ s : Spot, s.Lexed → Mends (BodyMarks s.isInside) s p.statement s
  declaration : ∀ s : Spot, s.Lexed → Mends (StmtMarks s.isInside) s p.declaration s

/-- All productions of a descent. -/
def Descent.Mend (d : Descent) : Prop := ∀ cost, (d cost).Mend

theorem Descent.Mend.below {d : Descent} (hd : d.Mend) (cost : Nat) : (d.below cost).Mend :=
  fun further => hd (further + cost)

theorem Descent.Mend.sound {d : Descent} (hd : d.Mend) : d.Sound := fun cost => (hd cost).sound

section Expressions

variable {d : Descent} {s : Spot} {t : Token} {level : Precedence}

theorem mends_expression (hd : d.Mend) (hs : s.Lexed) :
    Mends (ExprMarks .assignment) s (Parse.expression d) s :=
  mends_traced ((hd 2).precedence .assignment s hs (by decide))

/-! ### Items between commas -/

/-- **Items between commas.** Behind a comma another item is missing, and there is room for it. -/
theorem mends_commaSeparated {α : Type} {tooMany : Complaint} (htooMany : tooMany.isLimit = true)
    {item : Parse α} {marks : α → List Mark} {Good : α → Prop} (hs : s.Lexed)
    (hfinds : ∀ s : Spot, s.Lexed → Finds (fun a s' => Passed s (marks a) s' ∧ Good a) item s)
    (hmends : ∀ s : Spot, s.Lexed → Mends (fun ms => ∃ a, Good a ∧ marks a = ms) s item s) :
    Mends (fun ms => ∃ as : List α, as.length ≤ maxArguments ∧ (∀ a ∈ as, Good a) ∧
      between marks as = ms) s (Parse.commaSeparated tooMany item) s := by
  refine mends_bind (hfinds s hs) ?_ fun first s₁ ⟨hfirst, hgood⟩ => ?_
  · refine (hmends s hs).mono ?_
    rintro _ ⟨a, hgood, rfl⟩
    exact ⟨[a], by simp [maxArguments], by simpa using hgood, by simp [between]⟩
  -- the turns keep the items that have been read, as many as the limit admits
  refine mends_repeated id (ItemsRead marks Good s) (fun _ _ h => finds_itemTurn hs hfinds h) ?_
    (.single hfirst hgood)
  intro items s₂ h
  refine mends_choice (fun t ht hkind => ?_) fun _ _ _ => mends_pure _ _
  have hcomma : Passed s₂ [.word .comma] s₂.advance := Passed.step ht hkind
  by_cases hfull : items.length = maxArguments
  · rw [if_pos hfull]
    exact mends_reject_bind (by simp [htooMany]) _
  rw [if_neg hfull]
  have hs₂ : s₂.advance.Lexed := hcomma.lexed (h.passed.lexed hs)
  refine mends_bind_pure ((hmends _ hs₂).within (h.passed.trans hcomma) ?_)
  rintro _ ⟨a, hgood, rfl⟩
  have hne : items.reverse ≠ [] := by simpa using h.ne_nil
  have hlength := h.length_le
  -- one more item completes what is written, as the limit has not been met
  refine ⟨[], items.reverse ++ [a], ?_, ?_, ?_⟩
  · rw [List.length_append, List.length_reverse, List.length_singleton]
    omega
  · simpa [or_imp, forall_and] using ⟨h.good, hgood⟩
  · simp [between_append_singleton marks hne]

theorem mends_argumentList (hd : d.Mend) (hs : s.Lexed) :
    Mends ArgumentMarks s (Parse.argumentList d) s := by
  -- with or without arguments, the parenthesis may be what is missing
  have hclose : ∀ (es : List Expr) (s₁ : Spot), Passed s (Expr.listMarks es) s₁ →
      es.length ≤ maxArguments → Expr.AllNormal es →
      Mends ArgumentMarks s
        (Parse.expect .rightParen (.expected ") after arguments") >>= fun _ => pure es) s₁ := by
    intro es s₁ hpassed hlength hnormal
    refine mends_expect_bind ?_ fun _ _ _ => mends_pure es _
    exact .of_passed hpassed [.word .rightParen] ⟨es, hlength, hnormal, rfl⟩
  -- an argument is any expression, and any expression completes it
  have hfinds : ∀ s : Spot, s.Lexed → Finds
      (fun e s₁ => Passed s e.marks s₁ ∧ e.Normal) (Parse.expression (d.below 2)) s := fun s hs =>
    (finds_expression (hd.below 2).sound hs).mono fun _ _ he => ⟨he.passed, he.normal⟩
  have hmends : ∀ s : Spot, s.Lexed → Mends (fun ms => ∃ e : Expr, e.Normal ∧ e.marks = ms) s
      (Parse.expression (d.below 2)) s := by
    intro s hs
    refine (mends_expression (hd.below 2) hs).mono ?_
    rintro _ ⟨e, hnormal, -, rfl⟩
    exact ⟨e, hnormal, rfl⟩
  refine mends_traced (mends_check_bind fun none => ?_)
  cases none with
  | true => exact hclose [] s (Passed.refl s) (Nat.zero_le _) trivial
  | false =>
    refine mends_bind (finds_commaSeparated hs hfinds) ?_ ?_
    · refine (mends_commaSeparated rfl hs hfinds hmends).within (Passed.refl s) ?_
      rintro _ ⟨es, hlength, hnormal, rfl⟩
      -- the arguments so far are kept, and the parenthesis is what is missing
      refine ⟨[.word .rightParen], es, hlength, Expr.allNormal_iff.2 hnormal, ?_⟩
      rw [Expr.listMarks_eq]
      rfl
    · rintro es s₁ ⟨hpassed, hlength, hnormal⟩
      exact hclose es s₁ (by rwa [Expr.listMarks_eq]) hlength (Expr.allNormal_iff.2 hnormal)

/-! ### What a token begins -/

theorem mends_grouping (hd : d.Mend) (hs : s.Lexed) (ht : s.next? = some t)
    (hkind : t.kind = .leftParen) : Mends (ExprMarks level) s (Parse.grouping d) s.advance := by
  have hparen : Passed s [.word .leftParen] s.advance := Passed.step ht hkind
  have hs₁ := hparen.lexed hs
  refine mends_traced (mends_bind (finds_expression (hd.below 2).sound hs₁) ?_ ?_)
  · refine (mends_expression (hd.below 2) hs₁).within hparen ?_
    rintro _ ⟨e, hnormal, -, rfl⟩
    exact ⟨[.word .rightParen], .grouping e, hnormal, level.le_primary, rfl⟩
  · intro e s₁ he
    refine mends_expect_bind ?_ fun _ _ _ => mends_pure _ _
    exact .of_passed (hparen.trans he.passed) [.word .rightParen]
      ⟨.grouping e, he.normal, level.le_primary, rfl⟩

theorem mends_unary (hd : d.Mend) (hs : s.Lexed) (ht : s.next? = some t)
    (hkind : t.kind = .bang ∨ t.kind = .minus) (hlevel : level ≤ .unary) :
    Mends (ExprMarks level) s (Parse.unary d) s.advance := by
  have hoperator : Passed s [.token t] s.advance := Passed.step ht rfl
  have hs₁ := hoperator.lexed hs
  refine mends_traced (mends_previous_bind ht ?_)
  refine mends_bind_pure (((hd 2).precedence .unary _ hs₁ (by decide)).within hoperator ?_)
  rintro _ ⟨right, hnormal, hbinding, rfl⟩
  exact ⟨[], .unary t right, ⟨hkind, hnormal, hbinding⟩, hlevel, by simp [Expr.marks]⟩

/-- A literal is a single token. -/
theorem mends_literal (ht : s.next? = some t) :
    Mends (ExprMarks level) s Parse.literal s.advance := by
  refine mends_traced (mends_previous_bind ht ?_)
  cases t.kind <;> first | exact mends_pure _ _ | exact mends_throw id _

theorem mends_variableName (hd : d.Mend) (hs : s.Lexed) (ht : s.next? = some t)
    (hkind : t.kind = .identifier) {canAssign : Bool}
    (hassign : canAssign = true → level ≤ .assignment) :
    Mends (ExprMarks level) s (Parse.variableName d canAssign) s.advance := by
  have hname : Passed s [.token t] s.advance := Passed.step ht rfl
  refine mends_traced (mends_previous_bind ht ?_)
  cases canAssign with
  | false => exact mends_pure _ _
  | true =>
    refine mends_choice (fun u hu hukind => ?_) fun _ _ _ => mends_pure _ _
    have hequal : Passed s [.token t, .word .equal] s.advance.advance :=
      hname.trans (Passed.step hu hukind)
    have hs₁ := hequal.lexed hs
    refine mends_bind_pure ((mends_expression (hd.below 2) hs₁).within hequal ?_)
    rintro _ ⟨value, hnormal, -, rfl⟩
    exact ⟨[], .assign t value, ⟨hkind, hnormal⟩, hassign rfl, by simp [Expr.marks]⟩

/-- What a token begins. -/
theorem mends_beginning (hd : d.Mend) (hs : s.Lexed) (ht : s.next? = some t) {rule : PrefixRule}
    (hrule : (Rule.of t.kind).front = some rule) {canAssign : Bool}
    (hassign : canAssign = true → level ≤ .assignment) (hlevel : level ≤ .unary) :
    Mends (ExprMarks level) s (Parse.beginning d canAssign rule) s.advance := by
  cases rule with
  | grouping => exact mends_grouping hd hs ht (Rule.kind_of_grouping hrule)
  | unary => exact mends_unary hd hs ht (Rule.kind_of_unary hrule) hlevel
  | literal => exact mends_literal ht
  | «variable» => exact mends_variableName hd hs ht (Rule.kind_of_variable hrule) hassign

/-! ### What a token makes of the operand on its left -/

variable {s' : Spot} {left : Expr}

/-- **An operator between operands,** with any right operand that holds together more tightly. -/
theorem exprMarks_operator {right : Expr} {tighter : Precedence} (hleft : Operand level s left s')
    (ht : s'.next? = some t) (hlevel : level ≤ (Rule.of t.kind).precedence)
    (hrule : (Rule.of t.kind).behind = some .binary)
    (htighter : (Rule.of t.kind).precedence.next? = some tighter) (hright : right.Normal)
    (hbinding : tighter ≤ right.binding) :
    ExprMarks level (left.marks ++ .token t :: right.marks) := by
  have hloose : (Rule.of t.kind).precedence ≤ left.binding := hleft.ahead t ht
  have hoperands : Operands left right (Rule.of t.kind).precedence := by
    refine ⟨hloose, ?_⟩
    rw [Precedence.next?_eq_some_iff] at htighter
    rw [Precedence.le_iff, htighter] at hbinding
    exact hbinding
  obtain ⟨-, ⟨-, hop⟩ | ⟨-, hop⟩⟩ := Rule.level_of_binary hrule
  · refine ⟨.logical left t right, ⟨hleft.normal, hright, _, hop, hoperands⟩, ?_, rfl⟩
    rwa [Expr.binding, hop, Option.getD_some]
  · refine ⟨.binary left t right, ⟨hleft.normal, hright, _, hop, hoperands⟩, ?_, rfl⟩
    rwa [Expr.binding, hop, Option.getD_some]

theorem mends_binary (hd : d.Mend) (hs : s.Lexed) (hleft : Operand level s left s')
    (ht : s'.next? = some t) (hlevel : level ≤ (Rule.of t.kind).precedence)
    (hrule : (Rule.of t.kind).behind = some .binary) :
    Mends (ExprMarks level) s (Parse.binary d left) s'.advance := by
  have hoperator : Passed s' [.token t] s'.advance := Passed.step ht rfl
  have hs₁ := hoperator.lexed (hleft.passed.lexed hs)
  refine mends_traced (mends_previous_bind ht ?_)
  cases htighter : (Rule.of t.kind).precedence.next? with
  | none => exact mends_throw id _
  | some tighter =>
    -- the right operand is looked for one level above the operator, which is at most a unary one
    have hunary : tighter ≤ .unary := by
      rw [Precedence.next?_eq_some_iff] at htighter
      rw [Precedence.le_iff, htighter]
      exact Nat.succ_le_succ (Rule.level_of_binary hrule).1
    refine mends_bind ((hd 2).sound.precedence tighter _ hs₁ hunary) ?_ fun right s₂ _ => ?_
    · refine ((hd 2).precedence tighter _ hs₁ hunary).within (hleft.passed.trans hoperator) ?_
      rintro _ ⟨right, hnormal, hbinding, rfl⟩
      refine ⟨[], ?_⟩
      simpa using exprMarks_operator hleft ht hlevel hrule htighter hnormal hbinding
    · cases t.kind <;> exact mends_pure _ _

theorem mends_call (hd : d.Mend) (hs : s.Lexed) (hleft : Operand level s left s')
    (ht : s'.next? = some t) (hlevel : level ≤ (Rule.of t.kind).precedence)
    (hrule : (Rule.of t.kind).behind = some .call) :
    Mends (ExprMarks level) s (Parse.call d left) s'.advance := by
  have hparen : Passed s' [.token t] s'.advance := Passed.step ht rfl
  have hs₁ := hparen.lexed (hleft.passed.lexed hs)
  have hcallee : Precedence.call ≤ left.binding := Rule.precedence_of_call hrule ▸ hleft.ahead t ht
  rw [Rule.precedence_of_call hrule] at hlevel
  refine mends_traced (mends_previous_bind ht ?_)
  refine mends_bind_pure ((mends_argumentList (hd.below 2) hs₁).within
    (hleft.passed.trans hparen) ?_)
  rintro _ ⟨es, hlength, hnormal, rfl⟩
  refine ⟨[], .call left t es, ?_, hlevel, by simp [Expr.marks]⟩
  exact ⟨hleft.normal, hcallee, Rule.kind_of_call hrule, hlength, hnormal⟩

/-! ### The operator loop -/

/-- **One turn of the operator loop.** What it fails in begins with the operand on the left. -/
theorem mends_operatorTurn (hd : d.Mend) (hs : s.Lexed) (hleft : Operand level s left s') :
    Mends (ExprMarks level) s (Parse.operatorTurn d level left) s' := by
  refine mends_bind finds_peek (mends_peek 0 s') fun t s₁ ⟨hs₁, ht⟩ => ?_
  subst hs₁
  by_cases hlevel : level ≤ (Rule.of t.kind).precedence
  · simp only [if_pos hlevel]
    refine mends_bind finds_advance (mends_advance s₁) fun _ s₂ hs₂ => ?_
    subst hs₂
    cases hrule : (Rule.of t.kind).behind with
    | none => exact mends_throw id _
    | some rule =>
      refine mends_bind_pure ?_
      cases rule with
      | binary => exact mends_binary hd hs hleft ht hlevel hrule
      | call => exact mends_call hd hs hleft ht hlevel hrule
  · simp only [if_neg hlevel]
    exact mends_pure _ _

/-- **Expressions of at least one level.** A target that is no variable is refused where the
expression in front of it is complete. -/
theorem mends_precedenceStep (hd : d.Mend) (hs : s.Lexed) (hlevel : level ≤ .unary) :
    Mends (ExprMarks level) s (Parse.precedenceStep d level) s := by
  refine mends_traced (mends_bind finds_advance (mends_advance s) fun _ s₁ hs₁ => ?_)
  subst hs₁
  refine mends_bind finds_previous (mends_previous s.advance) fun t s₁ ⟨hs₁, ht⟩ => ?_
  subst hs₁
  cases hrule : (Rule.of t.kind).front with
  | none =>
    -- nothing has been passed when the walk has gone back
    have hretreat : Finds (fun _ s' => s' = s) Parse.retreat s.advance := fun _ => rfl
    have hquiet : Mends (ExprMarks level) s Parse.retreat s.advance := fun _ => trivial
    refine mends_bind hretreat hquiet fun _ s₁ hs₁ => ?_
    subst hs₁
    exact mends_reject fun _ => .of_passed (Passed.refl s₁) _ (exprMarks_nil level)
  | some rule =>
    have hassign : decide (level ≤ Precedence.assignment) = true → level ≤ .assignment := by simp
    -- the leftmost part, and then the operators behind it
    have hbeginning := mends_beginning (hd.below 2) hs ht hrule hassign hlevel
    refine mends_bind (finds_beginning (hd.below 2).sound hs ht hrule hassign hlevel) hbeginning ?_
    intro left s₁ hleft
    have hfinds : ∀ e s', Operand level s e s' →
        Finds (Turn.Says (Operand level s) (ExprRead level s))
          (Parse.operatorTurn (d.below 2) level e) s' :=
      fun e s' he => finds_operatorTurn (hd.below 2).sound hs he
    have hloop : Mends (ExprMarks level) s
        (Parse.repeated .badIndex (Parse.operatorTurn (d.below 2) level) left) s₁ :=
      mends_repeated id (Operand level s) hfinds
        (fun e s' he => mends_operatorTurn (hd.below 2) hs he) hleft
    refine mends_bind (finds_repeated (Operand level s) hfinds hleft) hloop fun e s₂ he => ?_
    split
    next =>
      refine mends_check_bind fun equal => ?_
      cases equal with
      | false => exact mends_pure e s₂
      | true =>
        -- in front of the `=` the expression is complete
        have hwhole : ExprMarks level (e.marks ++ []) :=
          ⟨e, he.normal, he.level_le, (List.append_nil _).symm⟩
        exact mends_reject_bind (fun _ => .of_passed he.passed [] hwhole) _
    next => exact mends_pure e s₂

end Expressions

end Lox
