import Lox.Proofs.Grammar.Rules
import Lox.Proofs.Grammar.Walk
import Lox.Proofs.Token.Scan
import Lox.Grammar.Program

/-!
# Parsing never runs off the tokens

The tokens of a source end in one token that marks the end. No production passes it, so that there is
always a token to look at; every turn of a repetition passes a token, so that none is cut short; and
where a rule is looked up in the table, there is one. What remains are complaints about a token, and
about a return outside all functions.

* `SyntaxError.IsComplaint` — the errors that a source text leads to;
* `Spot.Ready`, `Spot.Reaches` — where a walk may stand, and where it may go;
* `Safely` — walks that go there or complain, with one rule for every move of a cursor;
* `isComplaint_of_parse` — whole sources.
-/

namespace Lox

/-- **The errors that a source text leads to.** -/
def SyntaxError.IsComplaint : SyntaxError → Prop
  | .complaint .. | .topLevelReturn _ => True
  | _ => False

/-! ### Spots in front of a token -/

/-- **In front of a token.** The last token marks the end. -/
structure Spot.Ready (s : Spot) : Prop where
  ends : ∃ body eof, s.tokens.toList = body ++ [eof] ∧ eof.kind = .eof
  lt : s.index < s.tokens.size

theorem Spot.Ready.exists_next {s : Spot} (hs : s.Ready) : ∃ t, s.next? = some t :=
  ⟨_, Array.getElem?_eq_getElem hs.lt⟩

/-- Behind every token but the last there is another one. -/
theorem Spot.Ready.advance {s : Spot} (hs : s.Ready) {t : Token} (ht : s.next? = some t)
    (hkind : t.kind ≠ .eof) : s.advance.Ready := by
  obtain ⟨body, eof, hlist, heof⟩ := hs.ends
  refine ⟨hs.ends, ?_⟩
  have hsize : s.tokens.size = body.length + 1 := by
    rw [← Array.length_toList, hlist, List.length_append, List.length_singleton]
  have hne : s.index ≠ body.length := by
    intro hindex
    -- the token in the last place is the one that marks the end
    rw [Spot.next?, ← Array.getElem?_toList, hlist, hindex, List.getElem?_concat_length] at ht
    exact hkind (Option.some.inj ht ▸ heof)
  have hlt := hs.lt
  change s.index + 1 < s.tokens.size
  omega

/-- **Where a walk may go:** not back, and not behind the last token. -/
structure Spot.Reaches (s s' : Spot) : Prop where
  tokens_eq : s'.tokens = s.tokens
  index_le : s.index ≤ s'.index
  ready : s'.Ready

theorem Spot.Reaches.refl {s : Spot} (hs : s.Ready) : s.Reaches s := ⟨rfl, Nat.le_refl _, hs⟩

theorem Spot.Reaches.trans {s s' s'' : Spot} (h : s.Reaches s') (h' : s'.Reaches s'') :
    s.Reaches s'' :=
  ⟨h'.tokens_eq.trans h.tokens_eq, Nat.le_trans h.index_le h'.index_le, h'.ready⟩

/-- What is reached from behind a token is reached from in front of it. -/
theorem Spot.Reaches.of_advance {s s' : Spot} (h : s.advance.Reaches s') : s.Reaches s' :=
  ⟨h.tokens_eq, Nat.le_of_succ_le h.index_le, h.ready⟩

/-- The depth of functions is not looked at. -/
theorem Spot.Reaches.of_inside {s s' : Spot} (h : s.inside.Reaches s') : s.Reaches s'.outside :=
  ⟨h.tokens_eq, h.index_le, ⟨h.ready.ends, h.ready.lt⟩⟩

/-- Passing one token. -/
theorem Spot.Ready.reaches {s : Spot} (hs : s.Ready) {t : Token} (ht : s.next? = some t)
    (hkind : t.kind ≠ .eof) : s.advance.Reaches s.advance := .refl (hs.advance ht hkind)

/-! ### Walks that complain at worst -/

variable {α β γ : Type} {said : α → Spot → Prop}

/-- **A walk that complains at worst;** `said` is said of what it finds and of the spot where it
ends. -/
def Safely (said : α → Spot → Prop) (walk : Parse α) (s : Spot) : Prop :=
  ∀ visits, Outcome (fun a c => said a c.spot) (fun e _ => e.IsComplaint) (walk (s.cursor visits))

theorem Safely.mono {said' : α → Spot → Prop} {walk : Parse α} {s : Spot} (h : Safely said walk s)
    (hsaid : ∀ a s', said a s' → said' a s') : Safely said' walk s :=
  fun visits => Outcome.mono (h visits) (fun a _ ha => hsaid a _ ha) fun _ _ he => he

theorem safely_pure {a : α} {s : Spot} (h : said a s) : Safely said (pure a) s := fun _ => h

theorem safely_throw {e : SyntaxError} (he : e.IsComplaint) (s : Spot) :
    Safely said (throw e) s := fun _ => he

/-- **One walk after the other.** -/
theorem safely_bind {said' : β → Spot → Prop} {walk : Parse β} {next : β → Parse α} {s : Spot}
    (h : Safely said' walk s) (hnext : ∀ b s', said' b s' → Safely said (next b) s') :
    Safely said (walk >>= next) s := by
  intro visits
  refine outcome_bind (Outcome.mono (h visits) ?_ fun _ _ he => he)
  exact fun b c hb => hnext b c.spot hb c.visits

/-- **Repetition.** Every turn but the last passes a token, so that there are enough turns to come to
the end. -/
theorem safely_repeated {atEnd : SyntaxError} {turn : β → Parse (Turn β α)} {s : Spot}
    (hs : s.Ready)
    (hturn : ∀ b s', s.Reaches s' → Safely (Turn.Says (fun _ s'' => s'.advance.Reaches s'') said)
      (turn b) s') (b : β) : Safely said (Parse.repeated atEnd turn b) s := by
  intro visits
  change Outcome _ _ (iterate atEnd turn (s.tokens.size - s.index) b (s.cursor visits))
  -- as many turns are left as there are tokens
  have hturns : ∀ passes b (c : Cursor), s.Reaches c.spot → s.tokens.size - c.index ≤ passes →
      Outcome (fun a c => said a c.spot) (fun e _ => e.IsComplaint)
        (iterate atEnd turn passes b c) := by
    intro passes
    -- by induction on the turns that are left
    induction passes with
    | zero =>
      intro b c hc hpasses
      have hlt : c.index < s.tokens.size := hc.tokens_eq ▸ hc.ready.lt
      omega
    | succ passes ih =>
      intro b c hc hpasses
      have hstep := hturn b c.spot hc c.visits
      change Outcome _ _ (turn b c) at hstep
      rw [iterate]
      cases hact : turn b c with
      | error e c' => rw [hact] at hstep; exact hstep
      | ok result c' =>
        rw [hact] at hstep
        cases result with
        | again b' =>
          -- the turn has passed a token, so that one turn less is enough
          have hindex : c.index + 1 ≤ c'.index := hstep.index_le
          exact ih b' c' (hc.trans hstep.of_advance) (by omega)
        | done a => exact hstep
  exact hturns _ b (s.cursor visits) (.refl hs) (Nat.le_refl _)

/-! ### Moves -/

theorem safely_traced {production : Production} {body : Parse α} {s : Spot}
    (h : Safely said body s) : Safely said (Parse.traced production body) s := by
  have hrecord : ∀ (visit : Visit) (s : Spot),
      Safely (fun _ s' => s' = s) (Parse.record visit) s := fun _ _ _ => rfl
  rw [Parse.traced_parse]
  refine safely_bind (hrecord _ s) fun _ s' hs' => ?_
  subst hs'
  refine safely_bind h fun a s' ha => ?_
  refine safely_bind (hrecord _ s') fun _ s'' hs'' => ?_
  subst hs''
  exact safely_pure ha

theorem safely_insideFunction {body : Parse α} {s : Spot}
    (h : Safely (fun a s' => said a s'.outside) body s.inside) :
    Safely said (Parse.insideFunction body) s := fun visits => outcome_insideFunction (h visits)

theorem safely_advance (s : Spot) : Safely (fun _ s' => s' = s.advance) Parse.advance s :=
  fun _ => rfl

theorem safely_previous {s : Spot} {t : Token} (ht : s.next? = some t) :
    Safely (fun u s' => t = u ∧ s' = s.advance) Parse.previous s.advance := by
  intro visits
  rw [Parse.previous, peek_of_getElem? (c := s.advance.cursor visits) s.advance_index_sub_one ht]
  exact ⟨rfl, rfl⟩

section Moves

variable {s : Spot} (hs : s.Ready)

include hs

theorem safely_check (kind : TokenKind) :
    Safely (fun b s' => s' = s ∧ ∃ t, s.next? = some t ∧ b = (t.kind == kind))
      (Parse.check kind) s := by
  obtain ⟨t, ht⟩ := hs.exists_next
  intro visits
  unfold Parse.check
  rw [get_bind_apply, show (s.cursor visits).tokens[(s.cursor visits).index]? = some t from ht]
  exact ⟨rfl, t, ht, rfl⟩

theorem safely_peek : Safely (fun t s' => s' = s ∧ s.next? = some t) (Parse.peek 0) s := by
  obtain ⟨t, ht⟩ := hs.exists_next
  intro visits
  rw [peek_of_getElem? (c := s.cursor visits) (Int.add_zero (s.index : Int)) ht]
  exact ⟨rfl, ht⟩

theorem safely_accept (kind : TokenKind) : Safely (Accepted kind s) (Parse.accept kind) s := by
  refine safely_bind (safely_check hs kind) fun b s' ⟨hs', t, ht, hb⟩ => ?_
  subst hs'
  cases b with
  | false => exact safely_pure ⟨t, ht, by simpa using hb.symm, rfl⟩
  | true =>
    refine safely_bind (safely_advance s') fun _ s'' hs'' => ?_
    exact safely_pure ⟨t, ht, by simpa using hb.symm, hs''⟩

theorem safely_reject (about : Complaint) : Safely said (Parse.reject about : Parse α) s := by
  have hcomplaint : Safely (fun e _ => e.IsComplaint) (Parse.complaint about) s :=
    safely_bind (safely_peek hs) fun _ _ _ => safely_pure trivial
  exact safely_bind hcomplaint fun _ s' he => safely_throw he s'

/-- A token that is expected is passed, or complained about. -/
theorem safely_expect {kind : TokenKind} (hkind : kind ≠ .eof) (about : Complaint) :
    Safely (fun _ s' => s.advance.Reaches s') (Parse.expect kind about) s := by
  refine safely_bind (safely_accept hs kind) fun b s' ⟨t, ht, hb⟩ => ?_
  cases b with
  | false =>
    obtain ⟨-, rfl⟩ := hb
    exact safely_reject hs about
  | true =>
    obtain ⟨rfl, rfl⟩ := hb
    refine (safely_previous ht).mono ?_
    rintro u _ ⟨-, rfl⟩
    exact hs.reaches ht hkind

/-- **A choice** by the next token, which is passed if it is of the kind. -/
theorem safely_choice {kind : TokenKind} (hkind : kind ≠ .eof) {yes no : Parse α}
    (hyes : ∀ t, s.next? = some t → t.kind = kind → s.advance.Ready → Safely said yes s.advance)
    (hno : Safely said no s) :
    Safely said (do if ← Parse.accept kind then yes else no) s := by
  refine safely_bind (safely_accept hs kind) fun b s' ⟨t, ht, hb⟩ => ?_
  cases b with
  | false =>
    obtain ⟨-, rfl⟩ := hb
    exact hno
  | true =>
    obtain ⟨rfl, rfl⟩ := hb
    exact hyes t ht rfl (hs.advance ht hkind)

end Moves

/-! ### Expressions -/

/-- **Productions that complain at worst,** and pass a token if they do not. -/
structure Productions.Safe (p : Productions) : Prop where
  precedence : ∀ (level : Precedence) (s : Spot), .assignment ≤ level → s.Ready →
    Safely (fun _ s' => s.advance.Reaches s') (p.precedence level) s
  statement : ∀ s : Spot, s.Ready → Safely (fun _ s' => s.advance.Reaches s') p.statement s
  declaration : ∀ s : Spot, s.Ready → Safely (fun _ s' => s.advance.Reaches s') p.declaration s

/-- All productions of a descent complain at worst. -/
def Descent.Safe (d : Descent) : Prop := ∀ cost, (d cost).Safe

theorem Descent.Safe.below {d : Descent} (hd : d.Safe) (cost : Nat) : (d.below cost).Safe :=
  fun further => hd (further + cost)

/-- Only tokens behind which an expression goes on bind at all. -/
theorem Rule.isSome_behind {kind : TokenKind} (h : .assignment ≤ (Rule.of kind).precedence) :
    (Rule.of kind).behind.isSome = true := by
  cases kind <;> revert h <;> decide

theorem Rule.ne_eof_of_front {kind : TokenKind} {rule : PrefixRule}
    (h : (Rule.of kind).front = some rule) : kind ≠ .eof := by
  rintro rfl
  contradiction

theorem Rule.ne_eof_of_behind {kind : TokenKind} {rule : InfixRule}
    (h : (Rule.of kind).behind = some rule) : kind ≠ .eof := by
  rintro rfl
  contradiction

section Productions

variable {d : Descent} (hd : d.Safe) {s : Spot} {t : Token}

include hd

theorem safely_expression (hs : s.Ready) :
    Safely (fun _ s' => s.advance.Reaches s') (Parse.expression d) s :=
  safely_traced ((hd 2).precedence .assignment s (by decide) hs)

omit hd in
/-- Items between commas, each of which passes a token. -/
theorem safely_commaSeparated {tooMany : Complaint} {item : Parse α} (hs : s.Ready)
    (hitem : ∀ s : Spot, s.Ready → Safely (fun _ s' => s.advance.Reaches s') item s) :
    Safely (fun _ s' => s.Reaches s') (Parse.commaSeparated tooMany item) s := by
  refine safely_bind (hitem s hs) fun first s₁ h₁ => ?_
  refine safely_repeated h₁.ready (fun items s₂ h₂ => ?_) _
  refine safely_choice h₂.ready (by decide) (fun u hu hkind hs₃ => ?_)
    (safely_pure (h₁.of_advance.trans h₂))
  -- the limit is checked behind the comma, where another token is next
  by_cases hfull : items.length = maxArguments
  · rw [if_pos hfull]
    exact safely_bind (safely_reject hs₃ tooMany) fun _ _ (hfalse : False) => hfalse.elim
  · rw [if_neg hfull]
    exact safely_bind (hitem _ hs₃) fun a s₄ h₄ => safely_pure h₄.of_advance

theorem safely_argumentList (hs : s.Ready) :
    Safely (fun _ s' => s.Reaches s') (Parse.argumentList d) s := by
  refine safely_traced (safely_bind (safely_check hs .rightParen) ?_)
  rintro none s ⟨rfl, -⟩
  have hclose : ∀ (arguments : List Expr) (s₁ : Spot), s.Reaches s₁ →
      Safely (fun _ s' => s.Reaches s')
        (Parse.expect .rightParen (.expected ") after arguments") >>= fun _ => pure arguments)
        s₁ := fun arguments s₁ h₁ =>
    safely_bind (safely_expect h₁.ready (by decide) _) fun _ s₂ h₂ =>
      safely_pure (h₁.trans h₂.of_advance)
  cases none with
  | true => exact hclose [] s (.refl hs)
  | false =>
    refine safely_bind (safely_commaSeparated hs fun _ => safely_expression (hd.below 2)) ?_
    exact fun arguments s₁ h₁ => hclose arguments s₁ h₁

/-! ### What a token begins -/

theorem safely_grouping (hs : s.Ready) : Safely (fun _ s' => s.Reaches s') (Parse.grouping d) s := by
  refine safely_traced (safely_bind (safely_expression (hd.below 2) hs) fun inner s₁ h₁ => ?_)
  refine safely_bind (safely_expect h₁.ready (by decide) _) fun _ s₂ h₂ => ?_
  exact safely_pure (h₁.of_advance.trans h₂.of_advance)

theorem safely_unary (ht : s.next? = some t) (hs : s.advance.Ready) :
    Safely (fun _ s' => s.advance.Reaches s') (Parse.unary d) s.advance := by
  refine safely_traced (safely_bind (safely_previous ht) ?_)
  rintro _ _ ⟨rfl, rfl⟩
  refine safely_bind ((hd 2).precedence .unary _ (by decide) hs) fun right s₁ h₁ => ?_
  exact safely_pure h₁.of_advance

omit hd in
/-- Every token with the rule of a literal is one. -/
theorem safely_literal (ht : s.next? = some t) (hs : s.advance.Ready)
    (hrule : (Rule.of t.kind).front = some .literal) :
    Safely (fun _ s' => s.advance.Reaches s') Parse.literal s.advance := by
  refine safely_traced (safely_bind (safely_previous ht) ?_)
  rintro _ _ ⟨rfl, rfl⟩
  split
  case h_6 htrue hfalse hnil hnumber hstring =>
    exfalso
    revert hrule htrue hfalse hnil hnumber hstring
    cases t.kind <;> decide
  all_goals exact safely_pure (.refl hs)

theorem safely_variableName (ht : s.next? = some t) (hs : s.advance.Ready) (canAssign : Bool) :
    Safely (fun _ s' => s.advance.Reaches s') (Parse.variableName d canAssign) s.advance := by
  refine safely_traced (safely_bind (safely_previous ht) ?_)
  rintro _ _ ⟨rfl, rfl⟩
  cases canAssign with
  | false => exact safely_pure (.refl hs)
  | true =>
    refine safely_bind (safely_accept hs .equal) fun b s₁ ⟨u, hu, hb⟩ => ?_
    cases b with
    | false =>
      obtain ⟨-, rfl⟩ := hb
      exact safely_pure (.refl hs)
    | true =>
      obtain ⟨hukind, rfl⟩ := hb
      have hs₁ := hs.advance hu (by simp [hukind])
      refine safely_bind (safely_expression (hd.below 2) hs₁) fun value s₂ h₂ => ?_
      exact safely_pure h₂.of_advance.of_advance

theorem safely_beginning (ht : s.next? = some t) (hs : s.advance.Ready) {rule : PrefixRule}
    (hrule : (Rule.of t.kind).front = some rule) (canAssign : Bool) :
    Safely (fun _ s' => s.advance.Reaches s') (Parse.beginning d canAssign rule) s.advance := by
  cases rule with
  | grouping => exact safely_grouping hd hs
  | unary => exact safely_unary hd ht hs
  | literal => exact safely_literal ht hs hrule
  | «variable» => exact safely_variableName hd ht hs canAssign

/-! ### What a token makes of the operand on its left -/

/-- There is a level above that of every operator between operands. -/
theorem safely_binary (ht : s.next? = some t) (hs : s.advance.Ready)
    (hrule : (Rule.of t.kind).behind = some .binary)
    (hlevel : .assignment ≤ (Rule.of t.kind).precedence) (left : Expr) :
    Safely (fun _ s' => s.advance.Reaches s') (Parse.binary d left) s.advance := by
  refine safely_traced (safely_bind (safely_previous ht) ?_)
  rintro _ _ ⟨rfl, rfl⟩
  obtain ⟨tighter, htighter⟩ := Option.isSome_iff_exists.1 (Rule.isSome_next? hrule)
  rw [htighter]
  have hnext : .assignment ≤ tighter := by
    rw [Precedence.next?_eq_some_iff] at htighter
    rw [Precedence.le_iff, htighter]
    exact Nat.le_succ_of_le hlevel
  refine safely_bind ((hd 2).precedence tighter _ hnext hs) fun right s₁ h₁ => ?_
  split
  all_goals exact safely_pure h₁.of_advance

theorem safely_call (ht : s.next? = some t) (hs : s.advance.Ready) (left : Expr) :
    Safely (fun _ s' => s.advance.Reaches s') (Parse.call d left) s.advance := by
  refine safely_traced (safely_bind (safely_previous ht) ?_)
  rintro _ _ ⟨rfl, rfl⟩
  exact safely_bind (safely_argumentList (hd.below 2) hs) fun _ s₁ h₁ => safely_pure h₁

/-- **One turn of the operator loop** passes an operator, or stops. -/
theorem safely_operatorTurn {level : Precedence} (hlevel : .assignment ≤ level) (hs : s.Ready)
    (left : Expr) :
    Safely (Turn.Says (fun _ s' => s.advance.Reaches s') fun _ s' => s.Reaches s')
      (Parse.operatorTurn d level left) s := by
  refine safely_bind (safely_peek hs) ?_
  rintro t s ⟨rfl, ht⟩
  by_cases hbinds : level ≤ (Rule.of t.kind).precedence
  · simp only [if_pos hbinds]
    -- a token that binds has a rule
    have hbinds' : .assignment ≤ (Rule.of t.kind).precedence := Nat.le_trans hlevel hbinds
    obtain ⟨rule, hrule⟩ := Option.isSome_iff_exists.1 (Rule.isSome_behind hbinds')
    have hs₁ := hs.advance ht (Rule.ne_eof_of_behind hrule)
    refine safely_bind (safely_advance s) ?_
    rintro _ _ rfl
    rw [hrule]
    have hmore : Safely (fun _ s' => s.advance.Reaches s') (Parse.continuation d left rule)
        s.advance := by
      cases rule with
      | binary => exact safely_binary hd ht hs₁ hrule hbinds' left
      | call => exact safely_call hd ht hs₁ left
    exact safely_bind hmore fun e s₂ h₂ => safely_pure h₂
  · simp only [if_neg hbinds]
    exact safely_pure (.refl hs)

/-- **Expressions.** -/
theorem safely_precedenceStep {level : Precedence} (hlevel : .assignment ≤ level) (hs : s.Ready) :
    Safely (fun _ s' => s.advance.Reaches s') (Parse.precedenceStep d level) s := by
  obtain ⟨t, ht⟩ := hs.exists_next
  refine safely_traced (safely_bind (safely_advance s) ?_)
  rintro _ _ rfl
  refine safely_bind (safely_previous ht) ?_
  rintro _ _ ⟨rfl, rfl⟩
  split
  next =>
    -- the walk goes back to the token that begins nothing, and complains about it
    have hretreat : Safely (fun _ s' => s' = s) Parse.retreat s.advance := fun _ => rfl
    refine safely_bind hretreat ?_
    rintro _ _ rfl
    exact safely_reject hs _
  next rule hrule =>
    -- something begins here, so that this is not the end
    have hs₁ := hs.advance ht (Rule.ne_eof_of_front hrule)
    refine safely_bind (safely_beginning (hd.below 2) ht hs₁ hrule _) fun left s₂ h₂ => ?_
    -- every turn of the operator loop goes on where the one before it ended
    have hloop : Safely (fun _ s' => s.advance.Reaches s')
        (Parse.repeated .badIndex (Parse.operatorTurn (d.below 2) level) left) s₂ := by
      refine safely_repeated h₂.ready (fun e s₃ h₃ => ?_) left
      refine (safely_operatorTurn (hd.below 2) hlevel h₃.ready e).mono fun turn s₄ hturn => ?_
      cases turn with
      | again e => exact hturn
      | done e => exact h₂.trans (h₃.trans hturn)
    refine safely_bind hloop fun e s₃ h₃ => ?_
    split
    next =>
      refine safely_bind (safely_check h₃.ready .equal) ?_
      rintro equal _ ⟨rfl, -⟩
      cases equal with
      | true =>
        -- a target that is no variable is complained about
        exact safely_bind (safely_reject h₃.ready _) fun _ _ (hfalse : False) => hfalse.elim
      | false => exact safely_pure h₃
    next => exact safely_pure h₃

/-! ### Statements -/

omit hd in
/-- A token that is expected in front of the rest of a production. -/
theorem safely_expect_bind (hs : s.Ready) {kind : TokenKind} (hkind : kind ≠ .eof)
    (about : Complaint) {next : Token → Parse α}
    (hnext : ∀ t s', s'.Ready → s.advance.Reaches s' → Safely said (next t) s') :
    Safely said (Parse.expect kind about >>= next) s :=
  safely_bind (safely_expect hs hkind about) fun t s' h => hnext t s' h.ready h

theorem safely_expressionStatement (hs : s.Ready) :
    Safely (fun _ s' => s.advance.Reaches s') (Parse.expressionStatement d) s := by
  refine safely_traced (safely_bind (safely_expression (hd.below 2) hs) fun e s₁ h₁ => ?_)
  exact safely_expect_bind h₁.ready (by decide) _ fun _ s₂ _ h₂ =>
    safely_pure (h₁.trans h₂.of_advance)

theorem safely_printStatement (hs : s.Ready) :
    Safely (fun _ s' => s.Reaches s') (Parse.printStatement d) s := by
  refine safely_traced (safely_bind (safely_expression (hd.below 2) hs) fun e s₁ h₁ => ?_)
  exact safely_expect_bind h₁.ready (by decide) _ fun _ s₂ _ h₂ =>
    safely_pure (h₁.of_advance.trans h₂.of_advance)

theorem safely_expressionUnless (hs : s.Ready) (kind : TokenKind) :
    Safely (fun _ s' => s.Reaches s') (Parse.expressionUnless d kind) s := by
  refine safely_bind (safely_check hs kind) ?_
  rintro absent _ ⟨rfl, -⟩
  cases absent with
  | true => exact safely_pure (.refl hs)
  | false =>
    exact safely_bind (safely_expression hd hs) fun e s₁ h₁ => safely_pure h₁.of_advance

/-- A return outside all functions is complained about at its keyword. -/
theorem safely_returnStatement (ht : s.next? = some t) (hs : s.advance.Ready) :
    Safely (fun _ s' => s.advance.Reaches s') (Parse.returnStatement d) s.advance := by
  refine safely_traced (safely_bind (safely_previous ht) ?_)
  rintro _ _ ⟨rfl, rfl⟩
  have hget : Safely (fun _ s' => s' = s.advance) (get : Parse Cursor) s.advance := fun _ => rfl
  refine safely_bind hget ?_
  rintro c _ rfl
  by_cases hdepth : c.functionDepth = 0
  · simp only [if_pos hdepth]
    have hcomplaint : (SyntaxError.topLevelReturn t).IsComplaint := trivial
    exact safely_bind (safely_throw hcomplaint _) fun _ _ (hfalse : False) => hfalse.elim
  simp only [if_neg hdepth]
  refine safely_bind (safely_expressionUnless (hd.below 2) hs .semicolon) fun value s₁ h₁ => ?_
  exact safely_expect_bind h₁.ready (by decide) _ fun _ s₂ _ h₂ =>
    safely_pure (h₁.trans h₂.of_advance)

/-- A condition in parentheses, and what is read behind it. -/
theorem safely_condition_bind (hs : s.Ready) {before behind : Complaint} {next : Expr → Parse α}
    (hnext : ∀ e s', s.Reaches s' → Safely said (next e) s') :
    Safely said (do
      let _ ← Parse.expect .leftParen before
      let e ← Parse.expression d
      let _ ← Parse.expect .rightParen behind
      next e) s := by
  refine safely_expect_bind hs (by decide) _ fun _ s₁ hs₁ h₁ => ?_
  refine safely_bind (safely_expression hd hs₁) fun e s₂ h₂ => ?_
  refine safely_expect_bind h₂.ready (by decide) _ fun _ s₃ _ h₃ => ?_
  exact hnext e s₃ ((h₁.of_advance.trans h₂.of_advance).trans h₃.of_advance)

theorem safely_ifStatement (hs : s.Ready) :
    Safely (fun _ s' => s.Reaches s') (Parse.ifStatement d) s := by
  refine safely_traced (safely_condition_bind (hd.below 2) hs fun condition s₁ h₁ => ?_)
  refine safely_bind ((hd 2).statement s₁ h₁.ready) fun yes s₂ h₂ => ?_
  have hyes := h₁.trans h₂.of_advance
  refine safely_choice h₂.ready (by decide) (fun u hu _ hs₃ => ?_) (safely_pure hyes)
  refine safely_bind ((hd 2).statement _ hs₃) fun no s₄ h₄ => ?_
  exact safely_pure (hyes.trans h₄.of_advance.of_advance)

theorem safely_whileStatement (hs : s.Ready) :
    Safely (fun _ s' => s.Reaches s') (Parse.whileStatement d) s := by
  refine safely_traced (safely_condition_bind (hd.below 2) hs fun condition s₁ h₁ => ?_)
  exact safely_bind ((hd 2).statement s₁ h₁.ready) fun body s₂ h₂ =>
    safely_pure (h₁.trans h₂.of_advance)

theorem safely_variableDeclaration (hs : s.Ready) (const : Bool) :
    Safely (fun _ s' => s.Reaches s') (Parse.variableDeclaration d const) s := by
  refine safely_traced (safely_expect_bind hs (by decide) _ fun name s₁ hs₁ h₁ => ?_)
  -- with or without a value, the declaration ends in a semicolon
  have hclose : ∀ (initial : Option Expr) (s₂ : Spot), s.Reaches s₂ →
      Safely (fun _ s' => s.Reaches s')
        (do let _ ← Parse.expect .semicolon (.expected "; after variable declaration")
            pure (Stmt.variable name initial const)) s₂ := fun initial s₂ h₂ =>
    safely_expect_bind h₂.ready (by decide) _ fun _ s₃ _ h₃ => safely_pure (h₂.trans h₃.of_advance)
  refine safely_bind (safely_accept hs₁ .equal) fun b s₂ ⟨u, hu, hb⟩ => ?_
  cases b with
  | true =>
    obtain ⟨hukind, rfl⟩ := hb
    have hs₂ := hs₁.advance hu (by simp [hukind])
    have hsome : Safely (fun _ s' => s₁.advance.Reaches s')
        (some <$> Parse.expression (d.below 2)) s₁.advance :=
      safely_bind (safely_expression (hd.below 2) hs₂) fun _ _ h => safely_pure h.of_advance
    refine safely_bind hsome fun initial s₃ h₃ => ?_
    exact hclose initial s₃ (h₁.of_advance.trans h₃.of_advance)
  | false =>
    obtain ⟨-, rfl⟩ := hb
    cases const with
    | true => exact safely_bind (safely_reject hs₁ _) fun _ _ (hfalse : False) => hfalse.elim
    | false => exact hclose none _ h₁.of_advance

theorem safely_forStart (hs : s.Ready) :
    Safely (fun _ s' => s.Reaches s') (Parse.forStart d) s := by
  have hsome : ∀ {walk : Parse Stmt} {s₁ : Spot}, s.Reaches s₁ →
      Safely (fun _ s' => s₁.Reaches s') walk s₁ →
      Safely (fun _ s' => s.Reaches s') (walk >>= fun st => pure (some st)) s₁ := by
    intro walk s₁ h₁ hwalk
    exact safely_bind hwalk fun st s₂ h₂ => safely_pure (h₁.trans h₂)
  -- the clause begins behind its word, if it has one
  have hword : ∀ {t : Token} {kind : TokenKind}, kind ≠ .eof → s.next? = some t → t.kind = kind →
      s.Reaches s.advance := by
    rintro t _ hne ht rfl
    exact (hs.reaches ht hne).of_advance
  refine safely_choice hs (by decide) (fun t ht hkind _ => ?_) ?_
  · exact safely_pure (hword (by decide) ht hkind)
  refine safely_choice hs (by decide) (fun t ht hkind hs₁ => ?_) ?_
  · exact hsome (hword (by decide) ht hkind) (safely_variableDeclaration hd hs₁ false)
  refine safely_choice hs (by decide) (fun t ht hkind hs₁ => ?_) ?_
  · exact hsome (hword (by decide) ht hkind) (safely_variableDeclaration hd hs₁ true)
  exact hsome (.refl hs) ((safely_expressionStatement hd hs).mono fun _ _ h => h.of_advance)

theorem safely_forStatement (hs : s.Ready) :
    Safely (fun _ s' => s.Reaches s') (Parse.forStatement d) s := by
  refine safely_traced (safely_expect_bind hs (by decide) _ fun _ s₁ hs₁ h₁ => ?_)
  refine safely_bind (safely_forStart (hd.below 2) hs₁) fun start s₂ h₂ => ?_
  refine safely_bind (safely_expressionUnless (hd.below 2) h₂.ready .semicolon) fun _ s₃ h₃ => ?_
  refine safely_expect_bind h₃.ready (by decide) _ fun _ s₄ hs₄ h₄ => ?_
  refine safely_bind (safely_expressionUnless (hd.below 2) hs₄ .rightParen) fun _ s₅ h₅ => ?_
  refine safely_expect_bind h₅.ready (by decide) _ fun _ s₆ hs₆ h₆ => ?_
  refine safely_bind ((hd 2).statement s₆ hs₆) fun body s₇ h₇ => safely_pure ?_
  have hclauses := ((h₁.of_advance.trans h₂).trans h₃).trans h₄.of_advance
  exact ((hclauses.trans h₅).trans h₆.of_advance).trans h₇.of_advance

/-! ### Blocks and functions -/

theorem safely_block (hs : s.Ready) :
    Safely (fun _ s' => s.Reaches s') (Parse.block d) s := by
  have hloop : Safely (fun _ s' => s.Reaches s')
      (Parse.repeated .outOfRange (fun (body : List Stmt) => do
        if ← Parse.check .rightBrace then return .done body.reverse
        if ← Parse.check .eof then return .done body.reverse
        return .again ((← (d 1).declaration) :: body)) []) s := by
    -- the spot behind every declaration is one that tokens lead to
    refine safely_repeated hs (fun body s₁ h₁ => ?_) []
    refine safely_bind (safely_check h₁.ready .rightBrace) ?_
    rintro b _ ⟨rfl, -⟩
    cases b with
    | true => exact safely_pure h₁
    | false =>
    refine safely_bind (safely_check h₁.ready .eof) ?_
    rintro b _ ⟨rfl, -⟩
    cases b with
    | true => exact safely_pure h₁
    | false =>
    exact safely_bind ((hd 1).declaration _ h₁.ready) fun st s₂ h₂ => safely_pure h₂
  refine safely_bind hloop fun body s₁ h₁ => ?_
  exact safely_expect_bind h₁.ready (by decide) _ fun _ s₂ _ h₂ =>
    safely_pure (h₁.trans h₂.of_advance)

theorem safely_functionDeclaration (hs : s.Ready) :
    Safely (fun _ s' => s.Reaches s') (Parse.functionDeclaration d) s := by
  refine safely_traced (safely_expect_bind hs (by decide) _ fun name s₁ hs₁ h₁ => ?_)
  refine safely_expect_bind hs₁ (by decide) _ fun _ s₂ hs₂ h₂ => ?_
  refine safely_bind (safely_check hs₂ .rightParen) ?_
  rintro none _ ⟨rfl, -⟩
  have hopen := h₁.of_advance.trans h₂.of_advance
  -- with or without parameters, the rest is the same
  have hbody : ∀ (parameters : List Token) (s₃ : Spot), s.Reaches s₃ →
      Safely (fun _ s' => s.Reaches s') (do
        let _ ← Parse.expect .rightParen (.expected ") after parameters")
        let _ ← Parse.expect .leftBrace (.expected "\x7b before function body")
        return Stmt.function name parameters
          (← Parse.insideFunction (Parse.block (d.below 2)))) s₃ := by
    intro parameters s₃ h₃
    refine safely_expect_bind h₃.ready (by decide) _ fun _ s₄ hs₄ h₄ => ?_
    refine safely_expect_bind hs₄ (by decide) _ fun _ s₅ hs₅ h₅ => ?_
    -- inside the function the tokens are the same, and the end of the block is left behind
    have hblock : Safely (fun _ s' => s₅.Reaches s')
        (Parse.insideFunction (Parse.block (d.below 2))) s₅ := by
      have hinside : s₅.inside.Ready := ⟨hs₅.ends, hs₅.lt⟩
      exact safely_insideFunction ((safely_block (hd.below 2) hinside).mono
        fun _ _ h => h.of_inside)
    refine safely_bind hblock fun body s₆ h₆ => safely_pure ?_
    exact ((h₃.trans h₄.of_advance).trans h₅.of_advance).trans h₆
  cases none with
  | true => exact hbody [] _ hopen
  | false =>
    -- a parameter is a token that is no end
    have hparameter : ∀ s : Spot, s.Ready → Safely (fun _ s' => s.advance.Reaches s')
        (Parse.expect .identifier (.expected "parameter name")) s :=
      fun s hs => safely_expect hs (by decide) _
    refine safely_bind (safely_commaSeparated hs₂ hparameter) fun parameters s₃ h₃ => ?_
    exact hbody parameters s₃ (hopen.trans h₃)

/-! ### Tying the productions together -/

/-- **Statements.** -/
theorem safely_statementStep (hs : s.Ready) :
    Safely (fun _ s' => s.advance.Reaches s') (Parse.statementStep d) s := by
  refine safely_choice hs (by decide) (fun t ht _ hs₁ => safely_printStatement (hd.below 1) hs₁) ?_
  refine safely_choice hs (by decide) (fun t ht _ hs₁ => safely_ifStatement (hd.below 1) hs₁) ?_
  refine safely_choice hs (by decide) (fun t ht _ hs₁ => safely_whileStatement (hd.below 1) hs₁) ?_
  refine safely_choice hs (by decide) (fun t ht _ hs₁ => safely_forStatement (hd.below 1) hs₁) ?_
  refine safely_choice hs (by decide)
    (fun t ht _ hs₁ => safely_returnStatement (hd.below 1) ht hs₁) ?_
  refine safely_choice hs (by decide) (fun t ht _ hs₁ => ?_)
    (safely_expressionStatement (hd.below 1) hs)
  exact safely_bind (safely_block (hd.below 1) hs₁) fun body s₂ h₂ => safely_pure h₂

/-- **Declarations.** -/
theorem safely_declarationStep (hs : s.Ready) :
    Safely (fun _ s' => s.advance.Reaches s') (Parse.declarationStep d) s := by
  refine safely_choice hs (by decide)
    (fun t ht _ hs₁ => safely_variableDeclaration (hd.below 1) hs₁ false) ?_
  refine safely_choice hs (by decide)
    (fun t ht _ hs₁ => safely_variableDeclaration (hd.below 1) hs₁ true) ?_
  exact safely_choice hs (by decide)
    (fun t ht _ hs₁ => safely_functionDeclaration (hd.below 1) hs₁) ((hd 1).statement s hs)

end Productions

/-- Without room every production complains. -/
theorem productions_full_safe : Productions.full.Safe where
  precedence _ _ _ hs := safely_reject hs _
  statement _ hs := safely_reject hs _
  declaration _ hs := safely_reject hs _

/-- **The descent in any room.** -/
theorem descent_safe (room : Nat) : (Descent.inRoom room).Safe := fun cost =>
  recurse_induction productions_full_safe (fun _ hd =>
    ⟨fun _ _ hlevel hs => safely_precedenceStep hd hlevel hs,
      fun _ hs => safely_statementStep hd hs, fun _ hs => safely_declarationStep hd hs⟩) room cost

/-! ### Source texts -/

/-- **Programs** come to the end of the tokens and pass it, or come to a complaint. -/
theorem safely_program {d : Descent} (hd : d.Safe) {s : Spot} (hs : s.Ready) :
    Safely (fun _ s' => ∃ s₁ t, s.Reaches s₁ ∧ s₁.next? = some t ∧ t.kind = .eof ∧ s' = s₁.advance)
      (Parse.program d) s := by
  refine safely_repeated hs (fun program s₁ h₁ => ?_) []
  refine safely_bind (safely_accept h₁.ready .eof) fun b s₂ ⟨t, ht, hb⟩ => ?_
  cases b with
  | true =>
    obtain ⟨hkind, rfl⟩ := hb
    exact safely_pure ⟨s₁, t, h₁, ht, hkind, rfl⟩
  | false =>
    obtain ⟨-, rfl⟩ := hb
    exact safely_bind ((hd 0).declaration _ h₁.ready) fun st s₃ h₃ => safely_pure h₃

/-- **Tokens that are rejected** are complained about, wherever their last token marks the end. -/
theorem isComplaint_of_program {room : Nat} {body : List Token} {eof : Token} {e : SyntaxError}
    {c : Cursor} (heof : eof.kind = .eof)
    (h : Parse.program (Descent.inRoom room) (Cursor.start (body ++ [eof]).toArray) =
      .error e c) : e.IsComplaint := by
  have hs : (⟨(body ++ [eof]).toArray, 0, 0⟩ : Spot).Ready := by
    refine ⟨⟨body, eof, rfl, heof⟩, ?_⟩
    change 0 < (body ++ [eof]).length
    rw [List.length_append]
    exact Nat.succ_pos _
  have hprogram := safely_program (descent_safe room) hs []
  change Outcome _ _ (Parse.program (Descent.inRoom room)
    (Cursor.start (body ++ [eof]).toArray)) at hprogram
  rw [h] at hprogram
  exact hprogram

/-- **A source text that is rejected** behind its scan is complained about. -/
theorem isComplaint_of_parse {room : Nat} {source : String} {e : SyntaxError}
    (h : parse room source = .error (.syntactic e)) : e.IsComplaint := by
  unfold parse at h
  split at h
  · cases h
  next tokens htokens =>
    obtain ⟨body, eof, hlist, heof, -⟩ := tokenize_shape htokens
    obtain rfl : tokens = (body ++ [eof]).toArray := by rw [← hlist]
    unfold Reading.ofTokens at h
    cases hresult : Parse.program (Descent.inRoom room)
        (Cursor.start (body ++ [eof]).toArray) with
    | ok program c => rw [hresult] at h; contradiction
    | error e' c =>
      rw [hresult] at h
      simp only [Except.error.injEq, CompileError.syntactic.injEq] at h
      exact h ▸ isComplaint_of_program heof hresult

end Lox
