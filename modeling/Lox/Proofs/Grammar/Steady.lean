import Lox.Proofs.Grammar.Rejection.Fork

/-!
# Walks that keep their course

Wherever a walk ends, it has not gone back and is inside of as many functions as before, also if it
fails. A failure is about the token in front of which the walk has stopped. Only for want of room is
there a complaint about the nesting, and the room that is wanted is bounded by the tokens that are
left: every production that is nested in another one stands behind a token of it, except that
declarations begin with statements and statements with expressions.

* `SyntaxError.IsAbout` — errors and the tokens that they are about;
* `Steadily` — walks that keep their course, with one rule for every move of a cursor;
* `Productions.Steady`, `descent_steady` — the productions in any room.
-/

namespace Lox

open Window

variable {α β γ : Type}

/-! ### Where a walk may end -/

/-- **What an error is about:** the token that is next, or the keyword that was passed last. -/
def SyntaxError.IsAbout : SyntaxError → Cursor → Prop
  | .complaint t _, c => c.tokens[c.index]? = some t
  | .topLevelReturn keyword, c => c.tokens[c.index - 1]? = some keyword ∧ keyword.kind = .returnWord
  | _, _ => True

/-- The cursor behind the next token. -/
def Cursor.behind (c : Cursor) : Cursor := { c with index := c.index + 1 }

theorem Cursor.onward_behind (c : Cursor) : Onward 0 c c.behind := ⟨rfl, rfl, Nat.le_succ _⟩

/-- Behind a token there are fewer of them left. -/
theorem Cursor.remaining_behind {c : Cursor} {t : Token} (ht : c.tokens[c.index]? = some t) :
    c.behind.remaining + 1 = c.remaining := by
  have hlt := (Array.getElem?_eq_some_iff.1 ht).1
  change c.tokens.size - (c.index + 1) + 1 = c.tokens.size - c.index
  omega

theorem Window.Onward.remaining_le {passed : Nat} {c c₁ : Cursor} (h : Onward passed c c₁) :
    c₁.remaining ≤ c.remaining := by
  have hindex := h.index_le
  unfold Cursor.remaining
  rw [h.tokens_eq]
  omega

/-- **A walk that keeps its course.** It complains about the nesting for one excuse only. -/
def Steadily (excuse : Prop) (walk : Parse α) (c : Cursor) : Prop :=
  Outcome (fun _ c₁ => Onward 0 c c₁)
    (fun e c₁ => Onward 0 c c₁ ∧ e.IsAbout c₁ ∧ (e.IsNesting → excuse)) (walk c)

variable {excuse : Prop} {walk : Parse α} {c c₁ : Cursor}

/-- Another excuse, at a cursor farther on. -/
theorem Steadily.mono {weaker : Prop} (h : Steadily excuse walk c) (himp : excuse → weaker) :
    Steadily weaker walk c :=
  Outcome.mono h (fun _ _ ha => ha) fun _ _ he => ⟨he.1, he.2.1, fun hn => himp (he.2.2 hn)⟩

theorem steadily_pure (a : α) : Steadily excuse (pure a) c := Onward.refl c

/-- Errors that are no complaints do not matter. -/
theorem steadily_of_error {e : SyntaxError} (hwalk : walk c = .error e c₁) (h : Onward 0 c c₁)
    (he : ¬ e.IsComplaint) : Steadily excuse walk c := by
  unfold Steadily
  rw [hwalk]
  refine ⟨h, ?_, ?_⟩
  · cases e with
    | complaint | topLevelReturn => exact absurd trivial he
    | _ => trivial
  · rintro ⟨t, rfl⟩
    exact absurd trivial he

/-- What a walk does from where another one has ended. -/
theorem Steadily.after {r : EStateM.Result SyntaxError Cursor α} (h : Onward 0 c c₁)
    (hr : Outcome (fun _ c₂ => Onward 0 c₁ c₂)
      (fun e c₂ => Onward 0 c₁ c₂ ∧ e.IsAbout c₂ ∧ (e.IsNesting → excuse)) r) :
    Outcome (fun _ c₂ => Onward 0 c c₂)
      (fun e c₂ => Onward 0 c c₂ ∧ e.IsAbout c₂ ∧ (e.IsNesting → excuse)) r :=
  Outcome.mono hr (fun _ _ ha => h.trans ha) fun _ _ he => ⟨h.trans he.1, he.2⟩

/-- **One walk after the other.** -/
theorem steadily_bind {walk : Parse β} {next : β → Parse α} (h : Steadily excuse walk c)
    (hnext : ∀ b c₁, walk c = .ok b c₁ → Onward 0 c c₁ → Steadily excuse (next b) c₁) :
    Steadily excuse (walk >>= next) c := by
  refine outcome_bind ?_
  unfold Steadily at h
  cases hwalk : walk c with
  | ok b c₁ =>
    rw [hwalk] at h
    exact Steadily.after h (hnext b c₁ hwalk h)
  | error e c₁ =>
    rw [hwalk] at h
    exact h

/-- A change of the result. -/
theorem steadily_map {f : α → β} (h : Steadily excuse walk c) : Steadily excuse (f <$> walk) c :=
  steadily_bind h fun _ _ _ _ => steadily_pure _

/-- **Repetition.** -/
theorem steadily_repeated {atEnd : SyntaxError} {turn : β → Parse (Turn β γ)}
    (hatEnd : ¬ atEnd.IsComplaint)
    (hturn : ∀ b c₁, Onward 0 c c₁ → Steadily excuse (turn b) c₁) {b : β} :
    Steadily excuse (Parse.repeated atEnd turn b) c := by
  -- every turn begins no farther back than the first one
  refine outcome_iterate (fun _ c₁ => Onward 0 c c₁) (fun b c₁ h => ?_) (fun _ c₁ h => ?_) _ b c
    (Onward.refl c)
  · refine Outcome.mono (Steadily.after h (hturn b c₁ h)) (fun turn c₂ h₂ => ?_) fun _ _ he => he
    cases turn <;> exact h₂
  · have hfails : Steadily excuse (throw atEnd : Parse γ) c₁ :=
      steadily_of_error rfl (Onward.refl c₁) hatEnd
    exact Steadily.after (r := .error atEnd c₁) h hfails

/-! ### Moves -/

theorem steadily_traced {production : Production}
    (h : ∀ c₁, c₁.tokens = c.tokens → c₁.index = c.index → Onward 0 c c₁ → Steadily excuse walk c₁) :
    Steadily excuse (Parse.traced production walk) c := by
  have hrecord : ∀ (visit : Visit) (c : Cursor), Steadily excuse (Parse.record visit) c :=
    fun _ _ => ⟨rfl, rfl, Nat.le_refl _⟩
  rw [Parse.traced_parse]
  refine steadily_bind (hrecord _ c) fun _ c₁ hwalk honward => ?_
  obtain ⟨-, rfl⟩ := EStateM.Result.ok.inj hwalk
  refine steadily_bind (h _ rfl rfl honward) fun a c₂ _ _ => ?_
  exact steadily_bind (hrecord _ c₂) fun _ c₃ _ _ => steadily_pure a

theorem steadily_peek {distance : Int} : Steadily excuse (Parse.peek distance) c := by
  -- there is no token in front of the first one, and none behind the last
  by_cases hneg : (c.index : Int) + distance < 0
  · have hfails : Parse.peek distance c = .error .badIndex c := by
      rw [Parse.peek, get_bind_apply, if_pos hneg]
      rfl
    exact steadily_of_error hfails (Onward.refl c) id
  · obtain ⟨i, hi⟩ := Int.eq_ofNat_of_zero_le (Int.not_lt.1 hneg)
    cases ht : c.tokens[i]? with
    | none =>
      have hfails : Parse.peek distance c = .error .badIndex c := by
        rw [peek_eq hi, ht]
        rfl
      exact steadily_of_error hfails (Onward.refl c) id
    | some t =>
      have hpeek : Parse.peek distance c = .ok t c := by
        rw [peek_eq hi, ht]
        rfl
      unfold Steadily
      rw [hpeek]
      exact Onward.refl c

/-- A look back at the token that was passed last. -/
theorem steadily_previous_bind {next : Token → Parse α}
    (hnext : ∀ t, c.tokens[c.index - 1]? = some t → Steadily excuse (next t) c) :
    Steadily excuse (Parse.previous >>= next) c := by
  refine steadily_bind steadily_peek fun t c₁ hwalk _ => ?_
  obtain ⟨rfl, i, hi, ht⟩ := peek_eq_ok hwalk
  exact hnext t ((show c₁.index - 1 = i by omega) ▸ ht)

theorem steadily_check_bind {kind : TokenKind} {next : Bool → Parse α}
    (hnext : ∀ b, Steadily excuse (next b) c) :
    Steadily excuse (Parse.check kind >>= next) c := by
  cases ht : c.tokens[c.index]? with
  | none =>
    exact steadily_of_error (bind_of_error (Fork.check_of_none ht kind)) (Onward.refl c) id
  | some t =>
    unfold Steadily
    rw [bind_of_ok (check_of_getElem? ht kind)]
    exact hnext _

/-- **A choice** by the next token, which is passed if it is of the kind. -/
theorem steadily_choice {kind : TokenKind} {yes no : Parse α}
    (hyes : ∀ t, c.tokens[c.index]? = some t → t.kind = kind → Steadily excuse yes c.behind)
    (hno : Steadily excuse no c) :
    Steadily excuse (do if ← Parse.accept kind then yes else no) c := by
  cases ht : c.tokens[c.index]? with
  | none =>
    exact steadily_of_error (bind_of_error (Fork.accept_of_none ht kind)) (Onward.refl c) id
  | some t =>
    unfold Steadily
    rw [Fork.choice_of_getElem? ht]
    split
    next hkind =>
      have hadvance : (Parse.advance : Parse Unit) c = .ok () c.behind := rfl
      rw [bind_of_ok hadvance]
      exact Steadily.after c.onward_behind (hyes t ht hkind)
    next => exact hno

/-- **A complaint** is about the next token. -/
theorem steadily_reject {about : Complaint} (habout : about ≠ .tooMuchNesting) :
    Steadily excuse (Parse.reject about : Parse α) c := by
  cases ht : c.tokens[c.index]? with
  | none => exact steadily_of_error (Fork.reject_of_none ht about) (Onward.refl c) id
  | some t =>
    unfold Steadily
    rw [Fork.reject_of_getElem? ht]
    refine ⟨Onward.refl c, ht, fun ⟨u, hu⟩ => ?_⟩
    cases hu
    exact absurd rfl habout

/-- A walk that goes back behind a token, to complain about it, does not go behind its beginning. -/
theorem steadily_retreat_reject {what : String} :
    Outcome (fun _ c₁ => Onward 0 c c₁)
      (fun e c₁ => Onward 0 c c₁ ∧ e.IsAbout c₁ ∧ (e.IsNesting → excuse))
      ((Parse.retreat >>= fun _ => Parse.reject (.expected what) : Parse α) c.behind) := by
  have hretreat : (Parse.retreat : Parse Unit) c.behind = .ok () c := rfl
  rw [bind_of_ok hretreat]
  exact steadily_reject (fun h => by cases h)

/-- **A token that is expected** is passed, so that fewer of them are left. -/
theorem steadily_expect_bind {kind : TokenKind} {what : String} {next : Token → Parse α}
    (hnext : ∀ t c₁, Onward 0 c c₁ → c₁.remaining + 1 = c.remaining → Steadily excuse (next t) c₁) :
    Steadily excuse (Parse.expect kind (.expected what) >>= next) c := by
  cases ht : c.tokens[c.index]? with
  | none =>
    have hexpect : Parse.expect kind (.expected what) c = .error .outOfRange c :=
      bind_of_error (Fork.accept_of_none ht kind)
    exact steadily_of_error (bind_of_error hexpect) (Onward.refl c) id
  | some t =>
    have hexpect : Parse.expect kind (.expected what) c =
        (if t.kind = kind then Parse.advance >>= fun _ => Parse.previous
          else Parse.reject (.expected what) : Parse Token) c := Fork.choice_of_getElem? ht
    by_cases hkind : t.kind = kind
    · rw [if_pos hkind] at hexpect
      -- the token that has been passed is found again one place back
      have hback : ((c.index + 1 : Nat) : Int) + -1 = c.index := by omega
      have hprevious : Parse.previous c.behind = .ok t c.behind :=
        peek_of_getElem? (c := c.behind) hback ht
      have hpassed : Parse.expect kind (.expected what) c = .ok t c.behind := hexpect.trans hprevious
      unfold Steadily
      rw [bind_of_ok hpassed]
      exact Steadily.after c.onward_behind
        (hnext t c.behind c.onward_behind (Cursor.remaining_behind ht))
    · -- the complaint is about the token that is next, and not about the nesting
      rw [if_neg hkind, Fork.reject_of_getElem? ht] at hexpect
      unfold Steadily
      rw [bind_of_error hexpect]
      exact ⟨Onward.refl c, ht, fun ⟨u, hu⟩ => by cases hu⟩

theorem steadily_expect {kind : TokenKind} {what : String} :
    Steadily excuse (Parse.expect kind (.expected what)) c := by
  have hbind : Steadily excuse (Parse.expect kind (.expected what) >>= pure) c :=
    steadily_expect_bind fun t _ _ _ => steadily_pure t
  rwa [bind_pure] at hbind

/-- The depth of functions is the same behind a function as it was in front of it. -/
theorem steadily_insideFunction
    (h : ∀ c₁, c₁.tokens = c.tokens → c₁.index = c.index → Steadily excuse walk c₁) :
    Steadily excuse (Parse.insideFunction walk) c := by
  have hinside := h { c with functionDepth := c.functionDepth + 1 } rfl rfl
  have houtside : ∀ {c₂ : Cursor}, Onward 0 { c with functionDepth := c.functionDepth + 1 } c₂ →
      Onward 0 c { c₂ with functionDepth := c₂.functionDepth - 1 } := by
    intro c₂ h₂
    exact ⟨h₂.tokens_eq, congrArg (· - 1) h₂.depth_eq, h₂.index_le⟩
  refine outcome_insideFunction (Outcome.mono hinside (fun _ _ => houtside) ?_)
  rintro e c₂ ⟨honward, habout, hnesting⟩
  refine ⟨houtside honward, ?_, hnesting⟩
  cases e <;> exact habout

/-! ### Expressions -/

/-- **Productions that keep their course.** How much room they want, is bounded by the tokens that
are left: a declaration comes to a statement at once, and a statement to an expression. -/
structure Productions.Steady (limit : Nat) (p : Productions) : Prop where
  precedence : ∀ level c, Steadily (limit ≤ 8 * c.remaining) (p.precedence level) c
  statement : ∀ c, Steadily (limit ≤ 8 * c.remaining + 5) p.statement c
  declaration : ∀ c, Steadily (limit ≤ 8 * c.remaining + 6) p.declaration c

/-- Every step of a descent costs one unit of the limit. -/
def Descent.Steady (limit : Nat) (d : Descent) : Prop :=
  ∀ cost, 1 ≤ cost → (d cost).Steady (limit - cost)

theorem Descent.Steady.below {limit : Nat} {d : Descent} (hd : d.Steady limit) (cost : Nat) :
    (d.below cost).Steady (limit - cost) := by
  intro further hpos
  rw [Nat.sub_sub, Nat.add_comm cost further]
  exact hd (further + cost) (Nat.le_add_right_of_le hpos)

section Productions

variable {limit : Nat} {d : Descent} (hd : d.Steady limit)

include hd

theorem steadily_expression : Steadily (limit ≤ 8 * c.remaining + 2) (Parse.expression d) c := by
  refine steadily_traced fun c₁ _ _ h₁ => ((hd 2 (by decide)).precedence .assignment c₁).mono ?_
  have hle := h₁.remaining_le
  omega

omit hd in
/-- Items between commas. -/
theorem steadily_commaSeparated {tooMany : Complaint} {item : Parse α}
    (htooMany : tooMany ≠ .tooMuchNesting)
    (hitem : ∀ c₁, Onward 0 c c₁ → Steadily excuse item c₁) :
    Steadily excuse (Parse.commaSeparated tooMany item) c := by
  refine steadily_bind (hitem c (Onward.refl c)) fun first c₁ _ h₁ => ?_
  refine steadily_repeated id (fun items c₂ h₂ => ?_)
  refine steadily_choice (fun t ht hkind => ?_) (steadily_pure _)
  have h₃ := (h₁.trans h₂).trans c₂.onward_behind
  by_cases hfull : items.length = maxArguments
  · rw [if_pos hfull]
    refine steadily_bind (steadily_reject htooMany) fun _ c₄ _ h₄ => ?_
    exact steadily_bind (hitem c₄ (h₃.trans h₄)) fun _ _ _ _ => steadily_pure _
  · rw [if_neg hfull]
    exact steadily_bind (hitem _ h₃) fun _ _ _ _ => steadily_pure _

theorem steadily_argumentList :
    Steadily (limit ≤ 8 * c.remaining + 4) (Parse.argumentList d) c := by
  refine steadily_traced fun c₁ _ _ h₁ => steadily_check_bind fun none => ?_
  have hitem : ∀ c₂, Onward 0 c₁ c₂ →
      Steadily (limit ≤ 8 * c.remaining + 4) (Parse.expression (d.below 2)) c₂ := by
    intro c₂ h₂
    refine (steadily_expression (hd.below 2)).mono ?_
    have hle := (h₁.trans h₂).remaining_le
    omega
  cases none with
  | true =>
    refine steadily_bind (steadily_pure _) fun arguments c₂ _ _ => ?_
    exact steadily_expect_bind fun _ _ _ _ => steadily_pure _
  | false =>
    refine steadily_bind (steadily_commaSeparated nofun hitem) fun arguments c₂ _ _ => ?_
    exact steadily_expect_bind fun _ _ _ _ => steadily_pure _

/-! ### What a token begins -/

theorem steadily_grouping : Steadily (limit ≤ 8 * c.remaining + 4) (Parse.grouping d) c := by
  refine steadily_traced fun c₁ _ _ h₁ => ?_
  have hle := h₁.remaining_le
  refine steadily_bind ((steadily_expression (hd.below 2)).mono (by omega)) fun inner c₂ _ _ => ?_
  exact steadily_expect_bind fun _ _ _ _ => steadily_pure _

theorem steadily_unary : Steadily (limit ≤ 8 * c.remaining + 2) (Parse.unary d) c := by
  refine steadily_traced fun c₁ _ _ h₁ => steadily_previous_bind fun operator _ => ?_
  have hle := h₁.remaining_le
  refine steadily_bind (((hd 2 (by decide)).precedence .unary c₁).mono (by omega)) ?_
  exact fun _ _ _ _ => steadily_pure _

omit hd in
theorem steadily_literal : Steadily excuse Parse.literal c := by
  refine steadily_traced fun c₁ _ _ _ => steadily_previous_bind fun t _ => ?_
  split
  case h_6 => exact steadily_of_error rfl (Onward.refl c₁) id
  all_goals exact steadily_pure _

theorem steadily_variableName (canAssign : Bool) :
    Steadily (limit ≤ 8 * c.remaining + 4) (Parse.variableName d canAssign) c := by
  refine steadily_traced fun c₁ _ _ h₁ => steadily_previous_bind fun name _ => ?_
  cases canAssign with
  | false => exact steadily_pure _
  | true =>
    refine steadily_choice (fun t ht _ => ?_) (steadily_pure _)
    have hle := (h₁.trans c₁.onward_behind).remaining_le
    refine steadily_bind ((steadily_expression (hd.below 2)).mono (by omega)) ?_
    exact fun _ _ _ _ => steadily_pure _

theorem steadily_beginning (canAssign : Bool) (rule : PrefixRule) :
    Steadily (limit ≤ 8 * c.remaining + 4) (Parse.beginning d canAssign rule) c := by
  cases rule with
  | grouping => exact steadily_grouping hd
  | unary => exact (steadily_unary hd).mono (by omega)
  | literal => exact steadily_literal
  | «variable» => exact steadily_variableName hd canAssign

/-! ### What a token makes of the operand on its left -/

theorem steadily_binary (left : Expr) :
    Steadily (limit ≤ 8 * c.remaining + 2) (Parse.binary d left) c := by
  refine steadily_traced fun c₁ _ _ h₁ => steadily_previous_bind fun operator _ => ?_
  have hle := h₁.remaining_le
  split
  · exact steadily_of_error rfl (Onward.refl c₁) id
  next level _ =>
    refine steadily_bind (((hd 2 (by decide)).precedence level c₁).mono (by omega)) ?_
    intro right c₂ _ _
    split
    all_goals exact steadily_pure _

theorem steadily_call (left : Expr) :
    Steadily (limit ≤ 8 * c.remaining + 6) (Parse.call d left) c := by
  refine steadily_traced fun c₁ _ _ h₁ => steadily_previous_bind fun paren _ => ?_
  have hle := h₁.remaining_le
  refine steadily_bind ((steadily_argumentList (hd.below 2)).mono (by omega)) ?_
  exact fun _ _ _ _ => steadily_pure _

/-- **One turn of the operator loop.** The operand on the right stands behind the operator. -/
theorem steadily_operatorTurn (level : Precedence) (left : Expr) :
    Steadily (limit + 2 ≤ 8 * c.remaining) (Parse.operatorTurn d level left) c := by
  refine steadily_bind steadily_peek fun t c₁ hwalk h₁ => ?_
  obtain ⟨rfl, i, hi, ht⟩ := peek_eq_ok hwalk
  obtain rfl : c₁.index = i := by omega
  dsimp only
  split
  · have hadvance : Steadily (limit + 2 ≤ 8 * c₁.remaining) Parse.advance c₁ := c₁.onward_behind
    refine steadily_bind hadvance fun _ c₂ hadvanced _ => ?_
    obtain ⟨-, rfl⟩ := EStateM.Result.ok.inj hadvanced
    -- the operator is one token less, which pays for the room that its operand may need
    have hless : c₁.behind.remaining + 1 = c₁.remaining := Cursor.remaining_behind ht
    split
    · exact steadily_of_error rfl (Onward.refl _) id
    next rule _ =>
      have hmore : Steadily (limit + 2 ≤ 8 * c₁.remaining) (Parse.continuation d left rule)
          c₁.behind := by
        cases rule with
        | binary => exact (steadily_binary hd left).mono (by omega)
        | call => exact (steadily_call hd left).mono (by omega)
      exact steadily_bind hmore fun _ _ _ _ => steadily_pure _
  · exact steadily_pure _

/-- **Expressions.** A walk that goes back to complain does not go behind its beginning. -/
theorem steadily_precedenceStep (level : Precedence) :
    Steadily (limit ≤ 8 * c.remaining) (Parse.precedenceStep d level) c := by
  refine steadily_traced fun c₁ _ _ h₁ => ?_
  -- without a token the walk stops where it is
  cases ht : c₁.tokens[c₁.index]? with
  | none =>
    exact steadily_of_error (Fork.first_of_none ht) c₁.onward_behind id
  | some t =>
    unfold Steadily
    rw [Fork.first_of_getElem? ht]
    -- with one it has passed a token, which pays for the room of the parts
    have hadvance : (Parse.advance : Parse Unit) c₁ = .ok () c₁.behind := rfl
    rw [bind_of_ok hadvance]
    cases (Rule.of t.kind).front with
    | none => exact steadily_retreat_reject
    | some rule =>
      refine Steadily.after c₁.onward_behind ?_
      have hless := Cursor.remaining_behind ht
      have hle := h₁.remaining_le
      refine steadily_bind ((steadily_beginning (hd.below 2) _ rule).mono (by omega)) ?_
      intro left c₂ _ h₂
      have hloop : Steadily (limit ≤ 8 * c.remaining)
          (Parse.repeated .badIndex (Parse.operatorTurn (d.below 2) level) left) c₂ := by
        -- every turn begins at least as far on as the first operand ends
        refine steadily_repeated id (fun e c₃ h₃ => ?_)
        have hle₃ := (h₂.trans h₃).remaining_le
        exact (steadily_operatorTurn (hd.below 2) level e).mono (by omega)
      refine steadily_bind hloop fun result c₃ _ _ => ?_
      split
      next =>
        refine steadily_check_bind fun equal => ?_
        cases equal with
        | true => exact steadily_bind (steadily_reject nofun) fun _ _ _ _ => steadily_pure _
        | false => exact steadily_pure _
      next => exact steadily_pure _

/-! ### Statements -/

theorem steadily_expressionStatement :
    Steadily (limit ≤ 8 * c.remaining + 4) (Parse.expressionStatement d) c := by
  refine steadily_traced fun c₁ _ _ h₁ => ?_
  have hle := h₁.remaining_le
  refine steadily_bind ((steadily_expression (hd.below 2)).mono (by omega)) fun value c₂ _ _ => ?_
  exact steadily_expect_bind fun _ _ _ _ => steadily_pure _

theorem steadily_printStatement :
    Steadily (limit ≤ 8 * c.remaining + 4) (Parse.printStatement d) c := by
  refine steadily_traced fun c₁ _ _ h₁ => ?_
  have hle := h₁.remaining_le
  refine steadily_bind ((steadily_expression (hd.below 2)).mono (by omega)) fun value c₂ _ _ => ?_
  exact steadily_expect_bind fun _ _ _ _ => steadily_pure _

theorem steadily_expressionUnless (kind : TokenKind) :
    Steadily (limit ≤ 8 * c.remaining + 2) (Parse.expressionUnless d kind) c := by
  refine steadily_check_bind fun absent => ?_
  cases absent with
  | true => exact steadily_pure _
  | false => exact steadily_bind (steadily_expression hd) fun _ _ _ _ => steadily_pure _

/-- A return outside all functions is complained about at its keyword. -/
theorem steadily_returnStatement
    (hkeyword : ∀ t, c.tokens[c.index - 1]? = some t → t.kind = .returnWord) :
    Steadily (limit ≤ 8 * c.remaining + 4) (Parse.returnStatement d) c := by
  refine steadily_traced fun c₁ htokens hindex h₁ => steadily_previous_bind fun keyword ht => ?_
  have hkind : keyword.kind = .returnWord := by
    rw [htokens, hindex] at ht
    exact hkeyword keyword ht
  have hle := h₁.remaining_le
  -- what is reported is the keyword, which has been passed
  have hthrow : Steadily (limit ≤ 8 * c.remaining + 4)
      (throw (.topLevelReturn keyword) : Parse PUnit) c₁ :=
    ⟨Onward.refl c₁, ⟨ht, hkind⟩, fun ⟨t, h⟩ => by cases h⟩
  have hrest : Steadily (limit ≤ 8 * c.remaining + 4) (do
      let value ← Parse.expressionUnless (d.below 2) .semicolon
      let _ ← Parse.expect .semicolon (.expected "; after return value")
      return Stmt.returning keyword value) c₁ := by
    refine steadily_bind ((steadily_expressionUnless (hd.below 2) _).mono (by omega)) ?_
    exact fun value c₂ _ _ => steadily_expect_bind fun _ _ _ _ => steadily_pure _
  have hget : Steadily (limit ≤ 8 * c.remaining + 4) (get : Parse Cursor) c₁ := Onward.refl c₁
  refine steadily_bind hget fun c₂ c₃ hlook _ => ?_
  obtain ⟨rfl, rfl⟩ := EStateM.Result.ok.inj hlook
  by_cases hdepth : c₁.functionDepth = 0
  · simp only [if_pos hdepth]
    exact steadily_bind hthrow fun _ _ hnever _ => by contradiction
  · simp only [if_neg hdepth]
    exact hrest

/-- A condition in parentheses, and what is read behind it. -/
theorem steadily_condition_bind {before behind : String} {next : Expr → Parse α}
    (hexcuse : limit ≤ 8 * c.remaining + 2 → excuse)
    (hnext : ∀ e c₁, Onward 0 c c₁ → Steadily excuse (next e) c₁) :
    Steadily excuse (do
      let _ ← Parse.expect .leftParen (.expected before)
      let e ← Parse.expression d
      let _ ← Parse.expect .rightParen (.expected behind)
      next e) c := by
  refine steadily_expect_bind fun _ c₁ h₁ _ => ?_
  have hle := h₁.remaining_le
  refine steadily_bind ((steadily_expression hd).mono fun h => hexcuse (by omega)) ?_
  intro e c₂ _ h₂
  exact steadily_expect_bind fun _ c₃ h₃ _ => hnext e c₃ ((h₁.trans h₂).trans h₃)

theorem steadily_ifStatement : Steadily (limit ≤ 8 * c.remaining + 7) (Parse.ifStatement d) c := by
  refine steadily_traced fun c₁ _ _ h₁ => ?_
  have hle := h₁.remaining_le
  refine steadily_condition_bind (hd.below 2) (by omega) fun condition c₂ h₂ => ?_
  have hle₂ := h₂.remaining_le
  refine steadily_bind (((hd 2 (by decide)).statement c₂).mono (by omega)) fun yes c₃ _ h₃ => ?_
  refine steadily_choice (fun t ht _ => ?_) (steadily_pure _)
  have hle₃ := (h₃.trans c₃.onward_behind).remaining_le
  refine steadily_bind (((hd 2 (by decide)).statement _).mono (by omega)) ?_
  exact fun _ _ _ _ => steadily_pure _

theorem steadily_whileStatement :
    Steadily (limit ≤ 8 * c.remaining + 7) (Parse.whileStatement d) c := by
  refine steadily_traced fun c₁ _ _ h₁ => ?_
  have hle := h₁.remaining_le
  refine steadily_condition_bind (hd.below 2) (by omega) fun condition c₂ h₂ => ?_
  have hle₂ := h₂.remaining_le
  refine steadily_bind (((hd 2 (by decide)).statement c₂).mono (by omega)) ?_
  exact fun _ _ _ _ => steadily_pure _

theorem steadily_variableDeclaration (const : Bool) :
    Steadily (limit ≤ 8 * c.remaining + 4) (Parse.variableDeclaration d const) c := by
  refine steadily_traced fun c₁ _ _ h₁ => steadily_expect_bind fun name c₂ h₂ _ => ?_
  have hclose : ∀ (initial : Option Expr) (c₃ : Cursor), Steadily (limit ≤ 8 * c.remaining + 4)
      (do let _ ← Parse.expect .semicolon (.expected "; after variable declaration")
          pure (Stmt.variable name initial const)) c₃ := fun initial c₃ =>
    steadily_expect_bind fun _ _ _ _ => steadily_pure _
  refine steadily_choice (fun t ht _ => ?_) ?_
  · have hle := ((h₁.trans h₂).trans c₂.onward_behind).remaining_le
    refine steadily_bind (steadily_map ((steadily_expression (hd.below 2)).mono (by omega))) ?_
    exact fun initial c₃ _ _ => hclose initial c₃
  · cases const with
    | true => exact steadily_bind (steadily_reject nofun) fun initial c₃ _ _ => hclose initial c₃
    | false => exact steadily_bind (steadily_pure _) fun initial c₃ _ _ => hclose initial c₃

theorem steadily_forStart : Steadily (limit ≤ 8 * c.remaining + 4) (Parse.forStart d) c := by
  have hle := c.onward_behind.remaining_le
  refine steadily_choice (fun t ht _ => steadily_pure _) ?_
  refine steadily_choice (fun t ht _ => ?_) ?_
  · exact steadily_bind ((steadily_variableDeclaration hd false).mono (by omega))
      fun _ _ _ _ => steadily_pure _
  refine steadily_choice (fun t ht _ => ?_) ?_
  · exact steadily_bind ((steadily_variableDeclaration hd true).mono (by omega))
      fun _ _ _ _ => steadily_pure _
  exact steadily_bind (steadily_expressionStatement hd) fun _ _ _ _ => steadily_pure _

theorem steadily_forStatement :
    Steadily (limit ≤ 8 * c.remaining + 7) (Parse.forStatement d) c := by
  refine steadily_traced fun c₁ _ _ h₁ => steadily_expect_bind fun _ c₂ h₂ _ => ?_
  have hle₂ := (h₁.trans h₂).remaining_le
  refine steadily_bind ((steadily_forStart (hd.below 2)).mono (by omega)) fun start c₃ _ h₃ => ?_
  have hle₃ := h₃.remaining_le
  refine steadily_bind ((steadily_expressionUnless (hd.below 2) _).mono (by omega)) ?_
  intro condition c₄ _ h₄
  refine steadily_expect_bind fun _ c₅ h₅ _ => ?_
  have hle₅ := (h₄.trans h₅).remaining_le
  refine steadily_bind ((steadily_expressionUnless (hd.below 2) _).mono (by omega)) ?_
  intro update c₆ _ h₆
  refine steadily_expect_bind fun _ c₇ h₇ _ => ?_
  have hle₇ := (h₆.trans h₇).remaining_le
  refine steadily_bind (((hd 2 (by decide)).statement c₇).mono (by omega)) ?_
  exact fun _ _ _ _ => steadily_pure _

/-! ### Blocks and functions -/

theorem steadily_block : Steadily (limit ≤ 8 * c.remaining + 7) (Parse.block d) c := by
  have hloop : Steadily (limit ≤ 8 * c.remaining + 7)
      (Parse.repeated .outOfRange (fun (body : List Stmt) => do
        if ← Parse.check .rightBrace then return .done body.reverse
        if ← Parse.check .eof then return .done body.reverse
        return .again ((← (d 1).declaration) :: body)) []) c := by
    refine steadily_repeated id (fun body c₁ h₁ => ?_)
    have hle := h₁.remaining_le
    refine steadily_check_bind fun closing => ?_
    cases closing with
    | true => exact steadily_pure _
    | false =>
    refine steadily_check_bind fun ended => ?_
    cases ended with
    | true => exact steadily_pure _
    | false =>
    refine steadily_bind (((hd 1 (Nat.le_refl 1)).declaration c₁).mono (by omega)) ?_
    exact fun _ _ _ _ => steadily_pure _
  refine steadily_bind hloop fun body c₁ _ _ => ?_
  exact steadily_expect_bind fun _ _ _ _ => steadily_pure _

theorem steadily_functionDeclaration :
    Steadily (limit ≤ 8 * c.remaining + 7) (Parse.functionDeclaration d) c := by
  refine steadily_traced fun c₁ _ _ h₁ => steadily_expect_bind fun name c₂ h₂ hless => ?_
  refine steadily_expect_bind fun _ c₃ h₃ _ => steadily_check_bind fun none => ?_
  have hle := h₁.remaining_le
  -- with or without parameters, the rest is the same
  have hbody : ∀ (parameters : List Token) (c₄ : Cursor), Onward 0 c₃ c₄ →
      Steadily (limit ≤ 8 * c.remaining + 7) (do
        let _ ← Parse.expect .rightParen (.expected ") after parameters")
        let _ ← Parse.expect .leftBrace (.expected "\x7b before function body")
        return Stmt.function name parameters
          (← Parse.insideFunction (Parse.block (d.below 2)))) c₄ := by
    intro parameters c₄ h₄
    refine steadily_expect_bind fun _ c₅ h₅ _ => steadily_expect_bind fun _ c₆ h₆ _ => ?_
    have hle₆ := (((h₃.trans h₄).trans h₅).trans h₆).remaining_le
    refine steadily_bind (steadily_insideFunction fun c₇ htokens hindex => ?_) ?_
    · have hsame : c₇.remaining = c₆.remaining := by
        unfold Cursor.remaining
        rw [htokens, hindex]
      exact (steadily_block (hd.below 2)).mono (by omega)
    · exact fun _ _ _ _ => steadily_pure _
  cases none with
  | true => exact steadily_bind (steadily_pure _) fun parameters c₄ _ h₄ => hbody parameters c₄ h₄
  | false =>
    refine steadily_bind (steadily_commaSeparated nofun fun _ _ => steadily_expect) ?_
    exact fun parameters c₄ _ h₄ => hbody parameters c₄ h₄

/-! ### Tying the productions together -/

/-- **Statements.** All but one kind begin with a token of their own. -/
theorem steadily_statementStep :
    Steadily (limit ≤ 8 * c.remaining + 5) (Parse.statementStep d) c := by
  have hless : ∀ {t : Token}, c.tokens[c.index]? = some t →
      c.behind.remaining + 1 = c.remaining := Cursor.remaining_behind
  -- the word of a statement is one token less, which pays for the room of its production
  refine steadily_choice (fun t ht _ => ?_) ?_
  · have := hless ht
    exact (steadily_printStatement (hd.below 1)).mono (by omega)
  refine steadily_choice (fun t ht _ => ?_) ?_
  · have := hless ht
    exact (steadily_ifStatement (hd.below 1)).mono (by omega)
  refine steadily_choice (fun t ht _ => ?_) ?_
  · have := hless ht
    exact (steadily_whileStatement (hd.below 1)).mono (by omega)
  refine steadily_choice (fun t ht _ => ?_) ?_
  · have := hless ht
    exact (steadily_forStatement (hd.below 1)).mono (by omega)
  refine steadily_choice (fun t ht hkind => ?_) ?_
  · have := hless ht
    -- the keyword that the rest of a return looks back to
    have hkeyword : ∀ u, c.behind.tokens[c.behind.index - 1]? = some u → u.kind = .returnWord := by
      intro u hu
      change c.tokens[c.index]? = some u at hu
      rw [ht] at hu
      exact Option.some.inj hu ▸ hkind
    exact (steadily_returnStatement (hd.below 1) hkeyword).mono (by omega)
  refine steadily_choice (fun t ht _ => ?_)
    ((steadily_expressionStatement (hd.below 1)).mono (by omega))
  have := hless ht
  exact steadily_bind ((steadily_block (hd.below 1)).mono (by omega)) fun _ _ _ _ => steadily_pure _

/-- **Declarations.** All but the statements begin with a token of their own. -/
theorem steadily_declarationStep :
    Steadily (limit ≤ 8 * c.remaining + 6) (Parse.declarationStep d) c := by
  have hless : ∀ {t : Token}, c.tokens[c.index]? = some t →
      c.behind.remaining + 1 = c.remaining := Cursor.remaining_behind
  refine steadily_choice (fun t ht _ => ?_) ?_
  · have := hless ht
    exact (steadily_variableDeclaration (hd.below 1) false).mono (by omega)
  refine steadily_choice (fun t ht _ => ?_) ?_
  · have := hless ht
    exact (steadily_variableDeclaration (hd.below 1) true).mono (by omega)
  refine steadily_choice (fun t ht _ => ?_) (((hd 1 (Nat.le_refl 1)).statement c).mono (by omega))
  have := hless ht
  exact (steadily_functionDeclaration (hd.below 1)).mono (by omega)

end Productions

/-- Without room there is a complaint as long as there is a token. -/
theorem steadily_reject_nesting :
    Steadily (1 ≤ c.remaining) (Parse.reject .tooMuchNesting : Parse α) c := by
  cases ht : c.tokens[c.index]? with
  | none => exact steadily_of_error (Fork.reject_of_none ht _) (Onward.refl c) id
  | some t =>
    unfold Steadily
    rw [Fork.reject_of_getElem? ht]
    have hless := Cursor.remaining_behind ht
    exact ⟨Onward.refl c, ht, fun _ => by omega⟩

/-- **The descent in any room.** -/
theorem descent_steady (room cost : Nat) :
    (Descent.inRoom room cost).Steady (room + 1 - cost) := by
  change (recurse Productions.full Productions.step room cost).Steady (room + 1 - cost)
  induction room generalizing cost with
  | zero =>
    have hfull : Productions.full.Steady (0 + 1 - cost) :=
      ⟨fun _ _ => steadily_reject_nesting.mono (by omega),
        fun _ => steadily_reject_nesting.mono (by omega),
        fun _ => steadily_reject_nesting.mono (by omega)⟩
    simpa only [recurse] using hfull
  | succ room ih =>
    cases cost with
    | zero =>
      have hd : Descent.Steady (room + 1 + 1)
          (fun cost => recurse .full .step room (cost - 1)) := by
        intro cost hpos
        have hcost : room + 1 + 1 - cost = room + 1 - (cost - 1) := by omega
        rw [hcost]
        exact ih (cost - 1)
      exact ⟨fun level _ => steadily_precedenceStep hd level,
        fun _ => steadily_statementStep hd, fun _ => steadily_declarationStep hd⟩
    | succ cost =>
      rw [Nat.add_sub_add_right]
      exact ih cost

end Lox
