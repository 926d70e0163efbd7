import Lox.Proofs.Grammar.Rules
import Lox.Proofs.Grammar.Walk
import Lox.Proofs.Token.Scan

/-!
# Soundness of the productions of expressions

What the operator loop keeps. The operand on its left has passed exactly its own tokens and is
normal, and no token that can follow binds more tightly than the operand holds together. So the next
operator may take the operand whole, and operators of one level group to the left.

* `Operand` — the invariant of the operator loop;
* `ExprRead` — an operand behind which the loop has stopped;
* `ItemsRead` — the items of a list that have been read so far;
* `Productions.Sound` — what the recursive productions find;
* `finds_precedenceStep` — expressions, from the productions that are reached from them.
-/

namespace Lox

/-! ### What is ahead -/

/-- **What is known of the next token,** if there is one. -/
def Spot.Ahead (s : Spot) (P : TokenKind → Prop) : Prop := ∀ t, s.next? = some t → P t.kind

theorem Spot.Ahead.mono {s : Spot} {P Q : TokenKind → Prop} (h : s.Ahead P)
    (hPQ : ∀ kind, P kind → Q kind) : s.Ahead Q := fun t ht => hPQ _ (h t ht)

theorem Spot.Ahead.of_next? {s : Spot} {P : TokenKind → Prop} {t : Token}
    (ht : s.next? = some t) (h : P t.kind) : s.Ahead P := by
  intro u hu
  obtain rfl : t = u := Option.some.inj (ht.symm.trans hu)
  exact h

/-- Every token of the source is as a scan makes it. -/
def Spot.Lexed (s : Spot) : Prop := ∀ t ∈ s.tokens, t.Valued

theorem Passed.lexed {s s' : Spot} {ms : List Mark} (h : Passed s ms s') (hs : s.Lexed) :
    s'.Lexed := by
  intro t ht
  rw [h.tokens_eq] at ht
  exact hs t ht

theorem Spot.Lexed.valued {s : Spot} {t : Token} (hs : s.Lexed) (ht : s.next? = some t) :
    t.Valued := hs t (Array.mem_of_getElem? ht)

/-! ### Operands -/

/-- **The invariant of the operator loop.** -/
structure Operand (level : Precedence) (s : Spot) (e : Expr) (s' : Spot) : Prop where
  passed : Passed s e.marks s'
  normal : e.Normal
  level_le : level ≤ e.binding
  ahead : s'.Ahead fun kind => (Rule.of kind).precedence ≤ e.binding

/-- **An expression that has been read,** of at least one level. The next token binds more loosely
than that level. -/
structure ExprRead (level : Precedence) (s : Spot) (e : Expr) (s' : Spot) : Prop
    extends Operand level s e s' where
  stops : s'.Ahead fun kind => (Rule.of kind).precedence.level < level.level

/-- An atom can be followed by anything. -/
theorem Operand.of_primary {level : Precedence} {s s' : Spot} {e : Expr}
    (hpassed : Passed s e.marks s') (hnormal : e.Normal) (he : e.binding = .primary) :
    Operand level s e s' where
  passed := hpassed
  normal := hnormal
  level_le := he ▸ level.le_primary
  ahead _ _ := he ▸ Precedence.le_primary _

/-! ### The recursive productions -/

/-- **A statement that has been read.** If it ends in a conditional that is still open, no `else`
follows. -/
structure StmtRead (s : Spot) (st : Stmt) (s' : Spot) : Prop where
  passed : Passed s st.marks s'
  normal : st.Normal s.isInside
  ahead : st.endsOpen = true → s'.Ahead (· ≠ .elseWord)

/-- **Productions that find what they stand for.** -/
structure Productions.Sound (p : Productions) : Prop where
  precedence : ∀ (level : Precedence) (s : Spot), s.Lexed → level ≤ .unary →
    Finds (ExprRead level s) (p.precedence level) s
  statement : ∀ s : Spot, s.Lexed →
    Finds (fun st s' => StmtRead s st s' ∧ st.isDeclaration = false) p.statement s
  declaration : ∀ s : Spot, s.Lexed → Finds (StmtRead s) p.declaration s

/-- All productions of a descent find what they stand for. -/
def Descent.Sound (d : Descent) : Prop := ∀ cost, (d cost).Sound

theorem Descent.Sound.below {d : Descent} (hd : d.Sound) (cost : Nat) : (d.below cost).Sound :=
  fun further => hd (further + cost)

section Expressions

variable {d : Descent} {s : Spot} {t : Token} {level : Precedence}

theorem finds_expression (hd : d.Sound) (hs : s.Lexed) :
    Finds (ExprRead .assignment s) (Parse.expression d) s :=
  finds_traced ((hd 2).precedence .assignment s hs (by decide))

/-! ### Items between commas -/

theorem between_append_singleton {α : Type} (marks : α → List Mark) {as : List α} (h : as ≠ [])
    (a : α) : between marks (as ++ [a]) = between marks as ++ .word .comma :: marks a := by
  cases as with
  | nil => contradiction
  | cons b bs => simp [between]

/-- **Items that have been read,** the latest first. There are never too many of them. -/
structure ItemsRead {α : Type} (marks : α → List Mark) (Good : α → Prop) (s : Spot)
    (items : List α) (s' : Spot) : Prop where
  passed : Passed s (between marks items.reverse) s'
  ne_nil : items ≠ []
  length_le : items.length ≤ maxArguments
  good : ∀ a ∈ items, Good a

section Items

variable {α : Type} {marks : α → List Mark} {Good : α → Prop} {items : List α} {s s' s'' : Spot}

/-- A first item. -/
theorem ItemsRead.single {a : α} (ha : Passed s (marks a) s') (hgood : Good a) :
    ItemsRead marks Good s [a] s' where
  passed := by simpa [between] using ha
  ne_nil := by simp
  length_le := by simp [maxArguments]
  good := by simpa using hgood

/-- One more item behind a comma. -/
theorem ItemsRead.cons (h : ItemsRead marks Good s items s') {a : α}
    (ha : Passed s' (.word .comma :: marks a) s'') (hgood : Good a)
    (hfull : items.length ≠ maxArguments) : ItemsRead marks Good s (a :: items) s'' where
  passed := by
    rw [List.reverse_cons, between_append_singleton marks (by simpa using h.ne_nil)]
    exact h.passed.trans ha
  ne_nil := by simp
  length_le := by
    have hlength := h.length_le
    rw [List.length_cons]
    omega
  good := by simpa using ⟨hgood, h.good⟩

/-- **One turn behind an item** reads a comma and another item, or comes to the end of the list. -/
theorem finds_itemTurn {tooMany : Complaint} {item : Parse α} (hs : s.Lexed)
    (hitem : ∀ s : Spot, s.Lexed →
      Finds (fun a s' => Passed s (marks a) s' ∧ Good a) item s)
    (h : ItemsRead marks Good s items s') :
    Finds (Turn.Says (ItemsRead marks Good s) fun as s'' => Passed s (between marks as) s'' ∧
        as.length ≤ maxArguments ∧ ∀ a ∈ as, Good a)
      (do if ← Parse.accept .comma then
            if items.length = maxArguments then Parse.reject tooMany
            return Turn.again ((← item) :: items)
          return Turn.done items.reverse) s' := by
  refine finds_choice (fun t ht hkind => ?_) fun _ _ _ =>
    finds_pure ⟨h.passed, by simpa using h.length_le, by simpa using h.good⟩
  have hstep : Passed s' [.word .comma] s'.advance := Passed.step ht hkind
  by_cases hfull : items.length = maxArguments
  · rw [if_pos hfull]
    exact finds_reject_bind tooMany _ _
  rw [if_neg hfull]
  have hs' : s'.advance.Lexed := hstep.lexed (h.passed.lexed hs)
  refine finds_bind (hitem _ hs') fun a s₂ ⟨ha, hgood⟩ => finds_pure ?_
  exact h.cons (hstep.trans ha) hgood hfull

/-- **Items between commas,** all of which are good if every single one is. -/
theorem finds_commaSeparated {tooMany : Complaint} {item : Parse α} (hs : s.Lexed)
    (hitem : ∀ s : Spot, s.Lexed →
      Finds (fun a s' => Passed s (marks a) s' ∧ Good a) item s) :
    Finds (fun as s' => Passed s (between marks as) s' ∧ as.length ≤ maxArguments ∧
      ∀ a ∈ as, Good a) (Parse.commaSeparated tooMany item) s := by
  refine finds_bind (hitem s hs) fun first s₁ ⟨hfirst, hgood⟩ => ?_
  exact finds_repeated (ItemsRead marks Good s) (fun _ _ h => finds_itemTurn hs hitem h)
    (.single hfirst hgood)

end Items

/-- The arguments of a call. -/
theorem finds_argumentList (hd : d.Sound) (hs : s.Lexed) :
    Finds (fun as s' => Passed s (Expr.listMarks as ++ [.word .rightParen]) s' ∧
      as.length ≤ maxArguments ∧ Expr.AllNormal as) (Parse.argumentList d) s := by
  refine finds_traced (finds_bind (finds_check .rightParen) fun none s' ⟨hs', _⟩ => ?_)
  subst hs'
  -- with or without arguments, the list ends in the parenthesis
  have hclose : ∀ (as : List Expr) (s₁ : Spot), Passed s' (Expr.listMarks as) s₁ →
      as.length ≤ maxArguments → Expr.AllNormal as →
      Finds (fun as s₂ => Passed s' (Expr.listMarks as ++ [.word .rightParen]) s₂ ∧
        as.length ≤ maxArguments ∧ Expr.AllNormal as)
        (Parse.expect .rightParen (.expected ") after arguments") >>= fun _ => pure as) s₁ := by
    intro as s₁ hpassed hlength hall
    refine finds_bind (finds_expect .rightParen _) fun t s₂ ⟨ht, hkind, hs₂⟩ => ?_
    subst hs₂
    exact finds_pure ⟨hpassed.trans (Passed.step ht hkind), hlength, hall⟩
  cases none with
  | true => exact hclose [] s' (Passed.refl _) (by simp) trivial
  | false =>
    have hitem : ∀ s : Spot, s.Lexed → Finds
        (fun e s₁ => Passed s e.marks s₁ ∧ e.Normal) (Parse.expression (d.below 2)) s :=
      fun s hs => (finds_expression (hd.below 2) hs).mono fun _ _ he => ⟨he.passed, he.normal⟩
    refine finds_bind (finds_commaSeparated hs hitem) fun as s₁ ⟨hpassed, hlength, hall⟩ => ?_
    exact hclose as s₁ (by rwa [Expr.listMarks_eq]) hlength (Expr.allNormal_iff.2 hall)

/-! ### What a token begins -/

theorem finds_grouping (hd : d.Sound) (hs : s.Lexed) (ht : s.next? = some t)
    (hkind : t.kind = .leftParen) : Finds (Operand level s) (Parse.grouping d) s.advance := by
  have hparen : Passed s [.word .leftParen] s.advance := Passed.step ht hkind
  refine finds_traced ?_
  refine finds_bind (finds_expression (hd.below 2) (hparen.lexed hs)) fun inner s₁ hinner => ?_
  refine finds_bind (finds_expect .rightParen _) fun u s₂ ⟨hu, hukind, hs₂⟩ => ?_
  subst hs₂
  have hpassed := (hparen.trans hinner.passed).trans (Passed.step hu (m := .word _) hukind)
  exact finds_pure (Operand.of_primary hpassed hinner.normal rfl)

theorem finds_unary (hd : d.Sound) (hs : s.Lexed) (ht : s.next? = some t)
    (hkind : t.kind = .bang ∨ t.kind = .minus) (hlevel : level ≤ .unary) :
    Finds (Operand level s) (Parse.unary d) s.advance := by
  have hoperator : Passed s [.token t] s.advance := Passed.step ht rfl
  refine finds_traced (finds_bind (finds_previous_of ht) ?_)
  rintro _ _ ⟨rfl, rfl⟩
  refine finds_bind ((hd 2).precedence .unary _ (hoperator.lexed hs) (by decide)) ?_
  refine fun right s₁ hright => finds_pure ⟨hoperator.trans hright.passed, ?_, hlevel, ?_⟩
  · exact ⟨hkind, hright.normal, hright.level_le⟩
  · exact hright.stops.mono fun _ h => Nat.le_of_lt h

/-- A literal is written as the token that it has the value of. -/
theorem finds_literal (hs : s.Lexed) (ht : s.next? = some t) :
    Finds (Operand level s) Parse.literal s.advance := by
  have hvalue : ∀ {value : Literal}, (Mark.literal value).Fits t →
      Finds (Operand level s) (pure (Expr.literal value)) s.advance := fun hfits =>
    finds_pure (Operand.of_primary (Passed.step ht hfits) trivial rfl)
  obtain ⟨hnumber, hstring⟩ := hs.valued ht
  refine finds_traced (finds_bind (finds_previous_of ht) ?_)
  rintro _ _ ⟨rfl, rfl⟩
  -- the keywords tell their value, the other two kinds have it in the token
  split
  next hkind => exact hvalue ⟨hkind, by simp [hkind]⟩
  next hkind => exact hvalue ⟨hkind, by simp [hkind]⟩
  next hkind => exact hvalue ⟨hkind, by simp [hkind]⟩
  next hkind =>
    obtain ⟨x, hx⟩ := hnumber hkind
    rw [hx]
    exact hvalue ⟨hkind, fun _ => hx⟩
  next hkind =>
    obtain ⟨x, hx⟩ := hstring hkind
    rw [hx]
    exact hvalue ⟨hkind, fun _ => hx⟩
  next => exact finds_throw _ _

theorem finds_variableName (hd : d.Sound) (hs : s.Lexed) (ht : s.next? = some t)
    (hkind : t.kind = .identifier) {canAssign : Bool}
    (hassign : canAssign = true → level ≤ .assignment) :
    Finds (Operand level s) (Parse.variableName d canAssign) s.advance := by
  have hname : Passed s [.token t] s.advance := Passed.step ht rfl
  have halone : Operand level s (.variable t) s.advance := Operand.of_primary hname hkind rfl
  refine finds_traced (finds_bind (finds_previous_of ht) ?_)
  rintro _ _ ⟨rfl, rfl⟩
  cases canAssign with
  | false => exact finds_pure halone
  -- only where an assignment is possible the equal sign is looked for
  | true =>
    refine finds_choice (fun u hu hukind => ?_) fun _ _ _ => finds_pure halone
    have hequal := hname.trans (Passed.step hu (m := .word _) hukind)
    refine finds_bind (finds_expression (hd.below 2) (hequal.lexed hs)) fun value s₂ hvalue => ?_
    refine finds_pure ⟨hequal.trans hvalue.passed, ⟨hkind, hvalue.normal⟩, hassign rfl, ?_⟩
    exact hvalue.stops.mono fun _ h => Nat.le_of_lt h

/-- What a token begins is an operand. -/
theorem finds_beginning (hd : d.Sound) (hs : s.Lexed) (ht : s.next? = some t) {rule : PrefixRule}
    (hrule : (Rule.of t.kind).front = some rule) {canAssign : Bool}
    (hassign : canAssign = true → level ≤ .assignment) (hlevel : level ≤ .unary) :
    Finds (Operand level s) (Parse.beginning d canAssign rule) s.advance := by
  cases rule with
  | grouping => exact finds_grouping hd hs ht (Rule.kind_of_grouping hrule)
  | unary => exact finds_unary hd hs ht (Rule.kind_of_unary hrule) hlevel
  | literal => exact finds_literal hs ht
  | «variable» => exact finds_variableName hd hs ht (Rule.kind_of_variable hrule) hassign

/-! ### What a token makes of the operand on its left -/

variable {s' : Spot} {left : Expr}

theorem finds_binary (hd : d.Sound) (hs : s.Lexed) (hleft : Operand level s left s')
    (ht : s'.next? = some t) (hlevel : level ≤ (Rule.of t.kind).precedence)
    (hrule : (Rule.of t.kind).behind = some .binary) :
    Finds (Operand level s) (Parse.binary d left) s'.advance := by
  have hoperator : Passed s' [.token t] s'.advance := Passed.step ht rfl
  -- the invariant of the loop says that the operator takes the operand on its left whole
  have hloose : (Rule.of t.kind).precedence ≤ left.binding := hleft.ahead t ht
  obtain ⟨hfactor, hlevels⟩ := Rule.level_of_binary hrule
  refine finds_traced (finds_bind (finds_previous_of ht) ?_)
  rintro _ _ ⟨rfl, rfl⟩
  split
  next => exact finds_throw _ _
  next tighter htighter =>
    rw [Precedence.next?_eq_some_iff] at htighter
    -- the level above that of an operator is at most unary, as the productions ask for
    have hunary : tighter ≤ .unary := by
      rw [Precedence.le_iff, htighter]
      exact Nat.succ_le_succ hfactor
    have hs₁ := hoperator.lexed (hleft.passed.lexed hs)
    refine finds_bind ((hd 2).precedence tighter _ hs₁ hunary) fun right s₂ hright => ?_
    have hpassed := hleft.passed.trans (hoperator.trans hright.passed)
    -- so the right operand holds together more tightly than the operator, and the left not less
    have hoperands : Operands left right (Rule.of t.kind).precedence := by
      refine ⟨hloose, ?_⟩
      have := hright.level_le
      rw [Precedence.le_iff, htighter] at this
      exact this
    have hahead : s₂.Ahead fun kind => (Rule.of kind).precedence ≤ (Rule.of t.kind).precedence :=
      hright.stops.mono fun _ h => Nat.le_of_lt_succ (Nat.lt_of_lt_of_eq h htighter)
    -- which of the two nodes is made depends on the kind of the operator, in both cases with its level
    obtain ⟨hkind, hop⟩ | ⟨⟨hand, hor⟩, hop⟩ := hlevels
    · have hbinding : (Expr.logical left t right).binding = (Rule.of t.kind).precedence := by
        rw [Expr.binding, hop, Option.getD_some]
      have hresult : Operand level s (.logical left t right) s₂ :=
        ⟨hpassed, ⟨hleft.normal, hright.normal, _, hop, hoperands⟩, hbinding ▸ hlevel,
          hbinding ▸ hahead⟩
      obtain hkind | hkind := hkind <;> · rw [hkind]; exact finds_pure hresult
    · have hbinding : (Expr.binary left t right).binding = (Rule.of t.kind).precedence := by
        rw [Expr.binding, hop, Option.getD_some]
      have hresult : Operand level s (.binary left t right) s₂ :=
        ⟨hpassed, ⟨hleft.normal, hright.normal, _, hop, hoperands⟩, hbinding ▸ hlevel,
          hbinding ▸ hahead⟩
      split
      next hkind => exact absurd hkind hand
      next hkind => exact absurd hkind hor
      next => exact finds_pure hresult

theorem finds_call (hd : d.Sound) (hs : s.Lexed) (hleft : Operand level s left s')
    (ht : s'.next? = some t) (hlevel : level ≤ (Rule.of t.kind).precedence)
    (hrule : (Rule.of t.kind).behind = some .call) :
    Finds (Operand level s) (Parse.call d left) s'.advance := by
  have hparen : Passed s' [.token t] s'.advance := Passed.step ht rfl
  -- the invariant of the loop says that the callee is not torn apart
  have hcallee : Precedence.call ≤ left.binding := Rule.precedence_of_call hrule ▸ hleft.ahead t ht
  refine finds_traced (finds_bind (finds_previous_of ht) ?_)
  rintro _ _ ⟨rfl, rfl⟩
  have hs₁ := hparen.lexed (hleft.passed.lexed hs)
  refine finds_bind (finds_argumentList (hd.below 2) hs₁) ?_
  rintro as s₂ ⟨hpassed, hlength, hall⟩
  refine finds_pure ⟨?_, ?_, ?_, fun u _ => Rule.precedence_le_call u.kind⟩
  · simpa [Expr.marks] using hleft.passed.trans (hparen.trans hpassed)
  · exact ⟨hleft.normal, hcallee, Rule.kind_of_call hrule, hlength, hall⟩
  · rwa [Rule.precedence_of_call hrule] at hlevel

/-! ### The operator loop -/

/-- **One turn of the operator loop** keeps the invariant, or stops in front of a token that binds
too loosely. -/
theorem finds_operatorTurn (hd : d.Sound) (hs : s.Lexed) (hleft : Operand level s left s') :
    Finds (Turn.Says (Operand level s) (ExprRead level s)) (Parse.operatorTurn d level left)
      s' := by
  refine finds_bind finds_peek fun t s₁ ⟨hs₁, ht⟩ => ?_
  subst hs₁
  by_cases hlevel : level ≤ (Rule.of t.kind).precedence
  · simp only [if_pos hlevel]
    refine finds_bind finds_advance fun _ s₂ hs₂ => ?_
    subst hs₂
    split
    next => exact finds_throw _ _
    next rule hrule =>
      have hmore : Finds (Operand level s) (Parse.continuation d left rule) s₁.advance := by
        cases rule with
        | binary => exact finds_binary hd hs hleft ht hlevel hrule
        | call => exact finds_call hd hs hleft ht hlevel hrule
      exact finds_bind hmore fun e s₂ he => finds_pure he
  · simp only [if_neg hlevel]
    exact finds_pure ⟨hleft, Spot.Ahead.of_next? ht (Nat.lt_of_not_le hlevel)⟩

/-- **Expressions of at least one level.** -/
theorem finds_precedenceStep (hd : d.Sound) (hs : s.Lexed) (hlevel : level ≤ .unary) :
    Finds (ExprRead level s) (Parse.precedenceStep d level) s := by
  refine finds_traced (finds_bind finds_advance fun _ s₁ hs₁ => ?_)
  subst hs₁
  refine finds_bind finds_previous fun t s₁ ⟨hs₁, ht⟩ => ?_
  subst hs₁
  split
  next => exact finds_bind (finds_retreat s.advance) fun _ s₁ _ => finds_reject _ s₁
  next rule hrule =>
    refine finds_bind (finds_beginning (hd.below 2) hs ht hrule (by simp) hlevel) ?_
    intro left s₂ hleft
    -- the loop begins with what the first token begins
    have hloop : Finds (ExprRead level s)
        (Parse.repeated .badIndex (Parse.operatorTurn (d.below 2) level) left) s₂ :=
      finds_repeated (Operand level s) (fun e s' he => finds_operatorTurn (hd.below 2) hs he) hleft
    refine finds_bind hloop fun e s₃ he => ?_
    split
    next =>
      refine finds_bind (finds_check .equal) fun equal s₄ ⟨hs₄, _⟩ => ?_
      subst hs₄
      cases equal with
      | true => exact finds_reject_bind _ _ _
      | false => exact finds_pure he
    next => exact finds_pure he

end Expressions

end Lox
