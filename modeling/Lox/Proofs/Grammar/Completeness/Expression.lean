import Lox.Proofs.Grammar.Completeness.Reach
import Lox.Proofs.Grammar.Normal
import Lox.Proofs.Grammar.Rules

/-!
# Completeness of the productions of expressions

A normal expression is read back from its tokens. The operator loop sees its left operands one after
the other, the innermost first: an expression is begun by its leftmost part, and whatever the loop
does with the whole of it, it does with that part once the operators in between have been passed.

* `Productions.Complete` — what the recursive productions are bound to reach, and in how much room;
* `Begun` — an expression that is begun by its leftmost part, `begun_of_normal`, all of them are;
* `reaches_precedenceStep` — expressions, from the productions that are reached from them.
-/

namespace Lox

/-! ### What follows -/

/-- **An expression of a level stops here.** -/
def Stops (level : Precedence) (s : Spot) : Prop :=
  ∃ t, s.next? = some t ∧ (Rule.of t.kind).precedence.level < level.level ∧ t.kind ≠ .equal

/-- **No operator takes a part of an operand** that holds together so tightly. -/
def Clear (binding : Precedence) (s : Spot) : Prop :=
  ∃ t, s.next? = some t ∧ (Rule.of t.kind).precedence ≤ binding ∧ t.kind ≠ .equal

theorem Stops.clear {level binding : Precedence} {s : Spot} (h : Stops level s)
    (hle : level ≤ binding) : Clear binding s := by
  obtain ⟨t, ht, hlt, hne⟩ := h
  exact ⟨t, ht, Nat.le_trans (Nat.le_of_lt hlt) hle, hne⟩

/-- No operator has the level of an assignment or of a unary operator. -/
theorem Clear.stops {binding : Precedence} {s : Spot} (h : Clear binding s)
    (hbinding : binding = .assignment ∨ binding = .unary) : Stops binding s := by
  obtain ⟨t, ht, hle, hne⟩ := h
  refine ⟨t, ht, Nat.lt_of_le_of_ne hle fun heq => ?_, hne⟩
  obtain rfl | rfl := hbinding <;> revert heq <;> cases t.kind <;> decide

/-- Behind an operand stands an operator that takes the whole of it. -/
theorem Clear.of_next? {binding : Precedence} {s : Spot} {t : Token} (ht : s.next? = some t)
    (hle : (Rule.of t.kind).precedence ≤ binding) (hne : t.kind ≠ .equal) : Clear binding s :=
  ⟨t, ht, hle, hne⟩

/-- A token that is no operator stops every expression. -/
theorem Stops.of_next? {s : Spot} {t : Token} (ht : s.next? = some t) {level : Precedence}
    (hkind : t.kind = .rightParen ∨ t.kind = .comma ∨ t.kind = .semicolon)
    (hlevel : .assignment ≤ level) : Stops level s := by
  refine ⟨t, ht, Nat.lt_of_lt_of_le ?_ hlevel, ?_⟩ <;>
    obtain h | h | h := hkind <;> rw [h] <;> decide

/-! ### The recursive productions -/

/-- The room that an expression needs. -/
noncomputable def Expr.need (e : Expr) : Nat := 8 * sizeOf e

/-- The room that a statement needs. -/
noncomputable def Stmt.need (st : Stmt) : Nat := 8 * sizeOf st

theorem Expr.need_pos (e : Expr) : 0 < e.need := Nat.mul_pos (by decide) e.sizeOf_pos

theorem Stmt.need_pos (st : Stmt) : 0 < st.need := Nat.mul_pos (by decide) st.sizeOf_pos

/-- **What may follow a statement.** No `else` follows a conditional that is open. -/
def Stmt.Before (st : Stmt) (s : Spot) : Prop :=
  ∃ t, s.next? = some t ∧ (st.endsOpen = true → t.kind ≠ .elseWord)

/-- **Productions that are bound to read back** what is normal. For want of room they can only fail
where there is less of it than is needed. -/
structure Productions.Complete (room : Nat) (p : Productions) : Prop where
  precedence : ∀ {level : Precedence} {e : Expr} {s s' : Spot}, e.Normal → level ≤ e.binding →
    Passed s e.marks s' → Stops level s' → Reaches (room < e.need) (p.precedence level) s e s'
  statement : ∀ {st : Stmt} {s s' : Spot}, st.Normal s.isInside → st.isDeclaration = false →
    Passed s st.marks s' → st.Before s' → Reaches (room < st.need) p.statement s st s'
  declaration : ∀ {st : Stmt} {s s' : Spot}, st.Normal s.isInside →
    Passed s st.marks s' → st.Before s' → Reaches (room < st.need + 1) p.declaration s st s'

/-- All productions of a descent are bound to read back what is normal. -/
def Descent.Complete (room : Nat) (d : Descent) : Prop :=
  ∀ cost, 0 < cost → (d cost).Complete (room - cost)

theorem Descent.Complete.below {room : Nat} {d : Descent} (hd : d.Complete room) (cost : Nat) :
    (d.below cost).Complete (room - cost) := by
  intro further hfurther
  rw [Nat.sub_sub, Nat.add_comm cost]
  exact hd (further + cost) (Nat.add_pos_left hfurther cost)

section Expressions

variable {room : Nat} {d : Descent} {s s' : Spot} {t : Token}

theorem reaches_expression (hd : d.Complete room) {e : Expr} (hnormal : e.Normal)
    (hpassed : Passed s e.marks s') (hstops : Stops .assignment s') :
    Reaches (room - 2 < e.need) (Parse.expression d) s e s' :=
  reaches_traced ((hd 2 (by omega)).precedence hnormal (Expr.assignment_le_binding hnormal) hpassed
    hstops)

/-! ### Items between commas -/

/-- Behind an item stands a comma or the closing parenthesis. -/
def BehindItem (s : Spot) : Prop := ∃ t, s.next? = some t ∧ (t.kind = .comma ∨ t.kind = .rightParen)

/-- In front of the items that are left there is the comma of the first of them, or what ends them
all. -/
theorem behindItem_of_passed {α : Type} {marks : α → List Mark} {items : List α}
    (hpassed : Passed s (items.flatMap fun a => .word .comma :: marks a) s')
    (hclose : s'.next? = some t) (hkind : t.kind = .rightParen) : BehindItem s := by
  cases items with
  | nil =>
    obtain rfl := hpassed.eq_of_nil
    exact ⟨t, hclose, .inr hkind⟩
  | cons a items =>
    obtain ⟨u, hu, hcomma, -⟩ := hpassed.head
    exact ⟨u, hu, .inl hcomma⟩

/-- **The items behind those that have been read.** -/
theorem loops_items {α : Type} {excuse : Prop} {tooMany : Complaint} {item : Parse α}
    {marks : α → List Mark} (items : List α)
    (hitem : ∀ a ∈ items, ∀ s s', Passed s (marks a) s' → BehindItem s' →
      Reaches excuse item s a s') (hclose : s'.next? = some t) (hkind : t.kind = .rightParen) :
    ∀ (read : List α) (s : Spot), read.length + items.length ≤ maxArguments →
      Passed s (items.flatMap fun a => .word .comma :: marks a) s' →
      Loops excuse .outOfRange (fun (items : List α) => do
        if ← Parse.accept .comma then
          if items.length = maxArguments then Parse.reject tooMany
          return .again ((← item) :: items)
        return .done items.reverse) read s (read.reverse ++ items) s' := by
  induction items with
  | nil =>
    intro read s _ hpassed
    obtain rfl := hpassed.eq_of_nil
    -- the closing parenthesis is no comma
    refine loops_done hclose (reaches_bind (reaches_accept_ne hclose (by simp [hkind])) ?_)
    rw [List.append_nil]
    exact reaches_pure _ _
  | cons a items ih =>
    intro read s hlength hpassed
    obtain ⟨u, hu, hcomma, hrest⟩ := hpassed.head
    obtain ⟨s₁, ha, hmore⟩ := hrest.split
    have hbehind : BehindItem s₁ := behindItem_of_passed hmore hclose hkind
    -- one more item is still to come, so that the limit is not reached
    have hroom : read.length ≠ maxArguments := by
      rw [List.length_cons] at hlength
      omega
    have hturn := hitem a (by simp) s.advance s₁ ha hbehind
    have hindex : s.index < s₁.index := by
      rw [ha.index_eq]
      exact Nat.lt_of_lt_of_le (Nat.lt_succ_self s.index) (Nat.le_add_right _ _)
    have hread : read.reverse ++ a :: items = (a :: read).reverse ++ items := by simp
    rw [hread]
    -- one turn for the comma and its item, and then the turns for the others
    refine loops_again hu ?_ (ha.tokens_eq.trans rfl) hindex
      (ih (fun b hb => hitem b (List.mem_cons_of_mem a hb)) (a :: read) s₁ ?_ hmore)
    · refine reaches_bind (reaches_accept hu hcomma) ?_
      simp only [if_true, if_neg hroom]
      exact reaches_bind hturn (reaches_pure _ _)
    · rw [List.length_cons] at hlength ⊢
      omega

/-- **Items between commas.** -/
theorem reaches_commaSeparated {α : Type} {excuse : Prop} {tooMany : Complaint} {item : Parse α}
    {marks : α → List Mark} {items : List α} (hne : items ≠ [])
    (hlength : items.length ≤ maxArguments)
    (hitem : ∀ a ∈ items, ∀ s s', Passed s (marks a) s' → BehindItem s' →
      Reaches excuse item s a s') (hpassed : Passed s (between marks items) s')
    (hclose : s'.next? = some t) (hkind : t.kind = .rightParen) :
    Reaches excuse (Parse.commaSeparated tooMany item) s items s' := by
  cases items with
  | nil => contradiction
  | cons a items =>
    obtain ⟨s₁, ha, hmore⟩ := Passed.split hpassed
    have hbehind : BehindItem s₁ := behindItem_of_passed hmore hclose hkind
    have hroom : [a].length + items.length ≤ maxArguments := by
      rw [List.length_cons] at hlength
      simpa [Nat.add_comm] using hlength
    refine reaches_bind (hitem a (by simp) s s₁ ha hbehind) (Loops.reaches ?_)
    exact loops_items items (fun b hb => hitem b (List.mem_cons_of_mem a hb)) hclose hkind [a] s₁
      hroom hmore

/-! ### First tokens -/

/-- **The first token of a normal expression** can begin one. -/
theorem Expr.front_of_normal : ∀ {e : Expr} {s s' : Spot}, e.Normal → Passed s e.marks s' →
    ∃ t, s.next? = some t ∧ (Rule.of t.kind).front.isSome = true
  | .literal value, _, _, _, hpassed => by
    -- the keyword or the value of a literal is a rule of its own
    obtain ⟨t, ht, ⟨hkind, -⟩, -⟩ := hpassed.head
    refine ⟨t, ht, ?_⟩
    rw [hkind]
    cases value with
    | bool b => cases b <;> rfl
    | _ => rfl
  | .grouping inner, _, _, _, hpassed => by
    obtain ⟨t, ht, hkind : t.kind = _, -⟩ := hpassed.head
    exact ⟨t, ht, by rw [hkind]; rfl⟩
  | .variable name, _, _, hnormal, hpassed => by
    obtain ⟨t, ht, rfl, -⟩ := hpassed.head
    have hkind : t.kind = .identifier := hnormal
    exact ⟨t, ht, by rw [hkind]; rfl⟩
  | .assign name value, _, _, hnormal, hpassed => by
    obtain ⟨t, ht, rfl, -⟩ := hpassed.head
    exact ⟨t, ht, by rw [hnormal.1]; rfl⟩
  | .unary operator right, _, _, hnormal, hpassed => by
    obtain ⟨t, ht, rfl, -⟩ := hpassed.head
    obtain ⟨hkind | hkind, -⟩ := hnormal <;> exact ⟨t, ht, by rw [hkind]; rfl⟩
  | .binary left operator right, _, _, hnormal, hpassed => by
    -- what stands between two operands begins as the left one does
    obtain ⟨_, hleft, -⟩ := hpassed.split
    exact Expr.front_of_normal hnormal.1 hleft
  | .logical left operator right, _, _, hnormal, hpassed => by
    obtain ⟨_, hleft, -⟩ := hpassed.split
    exact Expr.front_of_normal hnormal.1 hleft
  | .call callee paren arguments, _, _, hnormal, hpassed => by
    rw [Expr.marks, List.append_assoc] at hpassed
    obtain ⟨_, hcallee, -⟩ := hpassed.split
    exact Expr.front_of_normal hnormal.1 hcallee
  | .foreign _, _, _, hnormal, _ => hnormal.elim

/-! ### Arguments -/

theorem Expr.need_lt_of_mem {e : Expr} {es : List Expr} (h : e ∈ es) :
    e.need + 8 ≤ 8 * sizeOf es := by
  have := List.sizeOf_lt_of_mem h
  rw [Expr.need]
  omega

theorem reaches_argumentList (hd : d.Complete room) {es : List Expr} {s₁ : Spot}
    (hnormal : Expr.AllNormal es) (hlength : es.length ≤ maxArguments)
    (hpassed : Passed s (Expr.listMarks es) s₁) (hclose : s₁.next? = some t)
    (hkind : t.kind = .rightParen) :
    Reaches (room < 8 * sizeOf es) (Parse.argumentList d) s es s₁.advance := by
  refine reaches_traced ?_
  cases es with
  | nil =>
    -- an empty list is known by the parenthesis that closes it
    obtain rfl := hpassed.eq_of_nil
    have hcheck : Reaches (room < 8 * sizeOf ([] : List Expr)) (Parse.check .rightParen) s₁ true
        s₁ := by
      rw [← beq_iff_eq.2 hkind]
      exact reaches_check _ hclose
    refine reaches_bind hcheck (reaches_bind (reaches_pure [] _) ?_)
    exact reaches_bind (reaches_expect _ hclose hkind) (reaches_pure _ _)
  | cons e es =>
    rw [Expr.listMarks_eq] at hpassed
    -- an argument does not begin with the parenthesis that would end the list
    have hfirst : ∃ u, s.next? = some u ∧ u.kind ≠ .rightParen := by
      obtain ⟨_, he, -⟩ := Passed.split hpassed
      obtain ⟨u, hu, hfront⟩ := Expr.front_of_normal hnormal.1 he
      refine ⟨u, hu, fun hkind => ?_⟩
      rw [hkind] at hfront
      contradiction
    obtain ⟨u, hu, hne⟩ := hfirst
    have hcheck : Reaches (room < 8 * sizeOf (e :: es)) (Parse.check .rightParen) s false s := by
      rw [← beq_eq_false_iff_ne.2 hne]
      exact reaches_check _ hu
    -- every argument is an expression that stops at the comma or the parenthesis behind it
    have hitem : ∀ a ∈ e :: es, ∀ s s', Passed s a.marks s' → BehindItem s' →
        Reaches (room < 8 * sizeOf (e :: es)) (Parse.expression (d.below 2)) s a s' := by
      rintro a ha s s' hpassed ⟨u, hu, hukind⟩
      have hneed := Expr.need_lt_of_mem ha
      have hstops : Stops .assignment s' := by
        refine Stops.of_next? hu ?_ (by decide)
        obtain h | h := hukind
        · exact .inr (.inl h)
        · exact .inl h
      refine (reaches_expression (hd.below 2) (Expr.allNormal_iff.1 hnormal a ha) hpassed
        hstops).mono fun h => ?_
      omega
    refine reaches_bind hcheck ?_
    refine reaches_bind (reaches_commaSeparated (by simp) hlength hitem hpassed hclose hkind) ?_
    exact reaches_bind (reaches_expect _ hclose hkind) (reaches_pure _ _)

/-! ### The operator loop -/

/-- Is the target of an assignment possible at this level? -/
def Precedence.canAssign (level : Precedence) : Bool := level ≤ Precedence.assignment

/-- **An expression that is begun by its leftmost part.** Whatever the operator loop makes of the
whole expression, it makes of that part when it starts behind it. -/
def Begun (excuse : Prop) (d : Descent) (level : Precedence) (e : Expr) (s s₁ : Spot) : Prop :=
  ∃ t rule left s₀, s.next? = some t ∧ (Rule.of t.kind).front = some rule ∧
    Reaches excuse (Parse.beginning d level.canAssign rule) s.advance left s₀ ∧
    ∀ r s', Loops excuse .badIndex (Parse.operatorTurn d level) e s₁ r s' →
      Loops excuse .badIndex (Parse.operatorTurn d level) left s₀ r s'

variable {excuse : Prop} {level : Precedence} {e left : Expr} {s₁ s₂ : Spot}

/-- An expression that is nothing but its leftmost part. -/
theorem begun_of_beginning {rule : PrefixRule} (ht : s.next? = some t)
    (hrule : (Rule.of t.kind).front = some rule)
    (h : Reaches excuse (Parse.beginning d level.canAssign rule) s.advance e s₁) :
    Begun excuse d level e s s₁ :=
  ⟨t, rule, e, s₁, ht, hrule, h, fun _ _ hloop => hloop⟩

/-- **One more operator** behind an expression that is begun by its leftmost part. -/
theorem Begun.operator {rule : InfixRule} (hleft : Begun excuse d level left s s₁)
    (ht : s₁.next? = some t) (hlevel : level ≤ (Rule.of t.kind).precedence)
    (hrule : (Rule.of t.kind).behind = some rule)
    (h : Reaches excuse (Parse.continuation d left rule) s₁.advance e s₂)
    {ms : List Mark} (hpassed : Passed s₁.advance ms s₂) : Begun excuse d level e s s₂ := by
  -- from the leftmost part the loop comes to `left`, and goes on from there with this operator
  obtain ⟨u, front, first, s₀, hu, hfront, hfirst, hloops⟩ := hleft
  refine ⟨u, front, first, s₀, hu, hfront, hfirst, fun r s' hloop => hloops r s' ?_⟩
  have hturn : Reaches excuse (Parse.operatorTurn d level left) s₁ (.again e) s₂ := by
    refine reaches_bind (reaches_peek ht) ?_
    simp only [if_pos hlevel]
    refine reaches_bind (reaches_advance s₁) ?_
    rw [hrule]
    exact reaches_bind h (reaches_pure _ _)
  refine loops_again ht hturn hpassed.tokens_eq ?_ hloop
  rw [hpassed.index_eq, Spot.advance]
  simp only
  omega

/-- The last turn of the operator loop. -/
theorem loops_stop (hstops : Stops level s) :
    Loops excuse .badIndex (Parse.operatorTurn d level) e s e s := by
  obtain ⟨t, ht, hlt, -⟩ := hstops
  refine loops_done ht (reaches_bind (reaches_peek ht) ?_)
  have hloose : ¬ level ≤ (Rule.of t.kind).precedence := Nat.not_le_of_lt hlt
  simp only [if_neg hloose]
  exact reaches_pure _ _

/-! ### What begins an expression -/

theorem reaches_literal {value : Literal} (ht : s.next? = some t)
    (hfits : (Mark.literal value).Fits t) :
    (Rule.of t.kind).front = some .literal ∧
      Reaches excuse Parse.literal s.advance (.literal value) s.advance := by
  obtain ⟨hkind, hvalue⟩ := hfits
  cases value with
  | nil =>
    refine ⟨by rw [hkind]; rfl, reaches_traced (reaches_bind (reaches_previous ht) ?_)⟩
    rw [hkind]
    exact reaches_pure _ _
  | bool b =>
    cases b <;> refine ⟨by rw [hkind]; rfl, reaches_traced (reaches_bind (reaches_previous ht) ?_)⟩ <;>
      · rw [hkind]
        exact reaches_pure _ _
  | number x =>
    refine ⟨by rw [hkind]; rfl, reaches_traced (reaches_bind (reaches_previous ht) ?_)⟩
    -- numbers and strings have their value in the token
    rw [hkind, hvalue (.inl hkind)]
    exact reaches_pure _ _
  | string x =>
    refine ⟨by rw [hkind]; rfl, reaches_traced (reaches_bind (reaches_previous ht) ?_)⟩
    rw [hkind, hvalue (.inr hkind)]
    exact reaches_pure _ _

/-- **An operator between two operands,** the left of which is begun by its leftmost part wherever it
ends. The whole is what the operator makes of the right operand. -/
theorem begun_of_operands (hd : d.Complete room) {right : Expr} {operator : Token}
    (hlevel : level ≤ (Rule.of operator.kind).precedence)
    (hrule : (Rule.of operator.kind).behind = some .binary) (hnormal : right.Normal)
    (hoperands : Operands left right (Rule.of operator.kind).precedence)
    (hpassed : Passed s (left.marks ++ .token operator :: right.marks) s₂)
    (hclear : Clear (Rule.of operator.kind).precedence s₂) (hx : room - 2 < right.need → excuse)
    (hleft : level ≤ left.binding → ∀ s₁, Passed s left.marks s₁ → Clear left.binding s₁ →
      Begun excuse d level left s s₁)
    (hwhole : (match operator.kind with
      | .andWord | .orWord => pure (.logical left operator right)
      | _ => pure (.binary left operator right) : Parse Expr) = pure e) :
    Begun excuse d level e s s₂ := by
  obtain ⟨hloose, htight⟩ := hoperands
  obtain ⟨s₁, hpassedLeft, hrest⟩ := hpassed.split
  obtain ⟨t, ht, rfl, hpassedRight⟩ := hrest.head
  have hne : t.kind ≠ .equal := fun h => by rw [h] at hrule; contradiction
  have hbegun := hleft (Nat.le_trans hlevel hloose) s₁ hpassedLeft (Clear.of_next? ht hloose hne)
  -- the right operand is read at the level above that of the operator, which it is tight enough for
  obtain ⟨next, hnext⟩ := Option.isSome_iff_exists.1 (Rule.isSome_next? hrule)
  have hnextLevel := Precedence.next?_eq_some_iff.1 hnext
  have hreaches : Reaches excuse ((d 2).precedence next) s₁.advance right s₂ := by
    refine ((hd 2 (by omega)).precedence hnormal ?_ hpassedRight ?_).mono hx
    · rw [Precedence.le_iff, hnextLevel]
      exact htight
    · obtain ⟨u, hu, hle, hne⟩ := hclear
      refine ⟨u, hu, ?_, hne⟩
      rw [hnextLevel]
      exact Nat.lt_succ_of_le hle
  refine hbegun.operator ht hlevel hrule ?_ hpassedRight
  refine reaches_traced (reaches_bind (reaches_previous ht) ?_)
  rw [hnext]
  refine reaches_bind hreaches ?_
  have hpure : Reaches excuse (pure e) s₂ e s₂ := reaches_pure e s₂
  rw [← hwhole] at hpure
  exact hpure

/-- **Every normal expression is begun by its leftmost part,** by recursion on that part. The
excuse is the same for all of the recursion. -/
theorem begun_of_normal (hd : d.Complete room) : ∀ {e : Expr} {s s₁ : Spot}, e.Normal →
    level ≤ e.binding → Passed s e.marks s₁ → Clear e.binding s₁ →
    (room + 2 < e.need → excuse) → Begun excuse d level e s s₁
  | .literal value, s, s₁, _, _, hpassed, _, _ => by
    -- a literal is one token, which begins an expression at every level
    obtain ⟨t, ht, hfits, hrest⟩ := hpassed.head
    obtain rfl := hrest.eq_of_nil
    obtain ⟨hrule, hreaches⟩ := reaches_literal ht hfits
    exact begun_of_beginning ht hrule hreaches
  | .grouping inner, s, s₁, (hnormal : inner.Normal), _, hpassed, _, hx => by
    obtain ⟨t, ht, hkind : t.kind = .leftParen, hrest⟩ := Passed.head hpassed
    obtain ⟨s₂, hinner, hclose⟩ := Passed.split hrest
    obtain ⟨u, hu, hukind : u.kind = .rightParen, hend⟩ := hclose.head
    obtain rfl := hend.eq_of_nil
    refine begun_of_beginning ht (by rw [hkind]; rfl) (reaches_traced ?_)
    -- the closing parenthesis ends the expression inside
    have hstops : Stops .assignment s₂ := Stops.of_next? hu (.inl hukind) (by decide)
    refine reaches_bind ((reaches_expression (hd.below 2) hnormal hinner hstops).mono fun h => ?_) ?_
    · refine hx ?_
      simp only [Expr.need, Expr.grouping.sizeOf_spec] at *
      omega
    · exact reaches_bind (reaches_expect _ hu hukind) (reaches_pure _ _)
  | .variable name, s, s₁, hnormal, _, hpassed, hclear, _ => by
    obtain ⟨t, ht, rfl, hrest⟩ := hpassed.head
    obtain rfl := hrest.eq_of_nil
    have hkind : t.kind = .identifier := hnormal
    refine begun_of_beginning ht (by rw [hkind]; rfl) ?_
    refine reaches_traced (reaches_bind (reaches_previous ht) ?_)
    -- what follows is no assignment, whether one is possible here or not
    obtain ⟨u, hu, -, hne⟩ := hclear
    cases level.canAssign with
    | true => exact reaches_bind (reaches_accept_ne hu hne) (reaches_pure _ _)
    | false => exact reaches_pure _ _
  | .assign name value, s, s₁, hnormal, hlevel, hpassed, hclear, hx => by
    obtain ⟨t, ht, rfl, hrest⟩ := hpassed.head
    obtain ⟨u, hu, hequal : u.kind = .equal, hvalue⟩ := hrest.head
    -- an assignment is only normal where the level admits one
    have hassign : level.canAssign = true := decide_eq_true hlevel
    refine begun_of_beginning ht (by rw [hnormal.1]; rfl) ?_
    rw [hassign]
    refine reaches_traced (reaches_bind (reaches_previous ht) ?_)
    refine reaches_bind (reaches_accept hu hequal) ?_
    have hstops := hclear.stops (.inl rfl)
    refine reaches_bind
      ((reaches_expression (hd.below 2) hnormal.2 hvalue hstops).mono fun h => ?_)
      (reaches_pure _ _)
    refine hx ?_
    simp only [Expr.need, Expr.assign.sizeOf_spec] at *
    omega
  | .unary operator right, s, s₁, hnormal, _, hpassed, hclear, hx => by
    obtain ⟨t, ht, rfl, hright⟩ := hpassed.head
    have hrule : (Rule.of t.kind).front = some .unary := by
      obtain ⟨hkind | hkind, -⟩ := hnormal <;> rw [hkind] <;> rfl
    refine begun_of_beginning ht hrule (reaches_traced (reaches_bind (reaches_previous ht) ?_))
    -- no operator has the level of a unary one, so that the operand stops where the whole does
    have hstops := hclear.stops (.inr rfl)
    have hoperand := (hd 2 (by omega)).precedence hnormal.2.1 hnormal.2.2 hright hstops
    refine reaches_bind (hoperand.mono fun h => ?_) (reaches_pure _ _)
    refine hx ?_
    simp only [Expr.need, Expr.unary.sizeOf_spec] at *
    omega
  | .binary left operator right, s, s₁, hnormal, hlevel, hpassed, hclear, hx => by
    obtain ⟨hleft, hright, level', hop, hoperands⟩ := hnormal
    obtain ⟨hrule, rfl⟩ := Rule.of_binaryLevel? hop
    have hbinding : (Expr.binary left operator right).binding =
        (Rule.of operator.kind).precedence := by
      rw [Expr.binding, hop, Option.getD_some]
    -- the left operand begins the expression and the operator loop adds the right one
    rw [hbinding] at hlevel hclear
    refine begun_of_operands hd hlevel hrule hright hoperands hpassed hclear (fun h => hx ?_)
      (fun htaken s₂ hpassedLeft hclearLeft =>
        begun_of_normal hd hleft htaken hpassedLeft hclearLeft fun h => hx ?_) ?_
    · simp only [Expr.need, Expr.binary.sizeOf_spec] at *
      omega
    · simp only [Expr.need, Expr.binary.sizeOf_spec] at *
      omega
    · revert hop
      cases operator.kind <;> simp [binaryLevel?]
  | .logical left operator right, s, s₁, hnormal, hlevel, hpassed, hclear, hx => by
    obtain ⟨hleft, hright, level', hop, hoperands⟩ := hnormal
    obtain ⟨hrule, rfl⟩ := Rule.of_logicalLevel? hop
    have hbinding : (Expr.logical left operator right).binding =
        (Rule.of operator.kind).precedence := by
      rw [Expr.binding, hop, Option.getD_some]
    -- the same with the operators that are not strict
    rw [hbinding] at hlevel hclear
    refine begun_of_operands hd hlevel hrule hright hoperands hpassed hclear (fun h => hx ?_)
      (fun htaken s₂ hpassedLeft hclearLeft =>
        begun_of_normal hd hleft htaken hpassedLeft hclearLeft fun h => hx ?_) ?_
    · simp only [Expr.need, Expr.logical.sizeOf_spec] at *
      omega
    · simp only [Expr.need, Expr.logical.sizeOf_spec] at *
      omega
    · revert hop
      cases operator.kind <;> simp [logicalLevel?]
  | .call callee paren arguments, s, s₁, hnormal, hlevel, hpassed, hclear, hx => by
    obtain ⟨hcallee, hcall, hkind, hlength, hall⟩ := hnormal
    rw [Expr.marks, List.append_assoc] at hpassed
    obtain ⟨s₂, hpassedCallee, hrest⟩ := hpassed.split
    obtain ⟨t, ht, rfl, hpassedRest⟩ := Passed.head hrest
    obtain ⟨s₃, harguments, hclose⟩ := hpassedRest.split
    obtain ⟨u, hu, hukind : u.kind = .rightParen, hend⟩ := hclose.head
    obtain rfl := hend.eq_of_nil
    -- the parenthesis behind the callee binds as tightly as a call
    have hprecedence : (Rule.of t.kind).precedence = .call := by rw [hkind]; rfl
    have hbegun : Begun excuse d level callee s s₂ := by
      refine begun_of_normal hd hcallee (Nat.le_trans hlevel hcall) hpassedCallee
        (Clear.of_next? ht (by rw [hprecedence]; exact hcall) (by rw [hkind]; decide))
        fun h => hx ?_
      simp only [Expr.need, Expr.call.sizeOf_spec] at *
      omega
    -- the operator loop takes the parenthesis and the arguments behind it
    refine hbegun.operator ht (by rw [hprecedence]; exact hlevel)
      (by rw [hkind]; rfl) ?_ hpassedRest
    refine reaches_traced (reaches_bind (reaches_previous ht) ?_)
    refine reaches_bind
      ((reaches_argumentList (hd.below 2) hall hlength harguments hu hukind).mono fun h => hx ?_)
      (reaches_pure _ _)
    simp only [Expr.need, Expr.call.sizeOf_spec] at *
    omega
  | .foreign _, _, _, hnormal, _, _, _, _ => hnormal.elim

/-- **Expressions of at least one level** are read back. -/
theorem reaches_precedenceStep (hd : d.Complete room) (hnormal : e.Normal)
    (hlevel : level ≤ e.binding) (hpassed : Passed s e.marks s') (hstops : Stops level s') :
    Reaches (room < e.need) (Parse.precedenceStep d level) s e s' := by
  -- the loop starts behind the leftmost part and makes the whole expression of it
  have hbegun : Begun (room < e.need) (d.below 2) level e s s' :=
    begun_of_normal (hd.below 2) hnormal hlevel hpassed (hstops.clear hlevel) fun h => by omega
  obtain ⟨t, rule, left, s₀, ht, hrule, hfirst, hloops⟩ := hbegun
  refine reaches_traced (reaches_bind (reaches_advance s) ?_)
  refine reaches_bind (reaches_previous ht) ?_
  rw [hrule]
  refine reaches_bind hfirst (reaches_bind (hloops e s' (loops_stop hstops)).reaches ?_)
  obtain ⟨u, hu, -, hne⟩ := hstops
  -- no assignment follows, whether one was possible or not
  split
  next =>
    refine reaches_bind (reaches_check .equal hu) ?_
    rw [beq_eq_false_iff_ne.2 hne]
    exact reaches_pure _ _
  next => exact reaches_pure _ _

end Expressions

end Lox
