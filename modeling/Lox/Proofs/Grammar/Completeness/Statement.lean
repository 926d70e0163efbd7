import Lox.Proofs.Grammar.Completeness.Expression

/-!
# Completeness of the productions of statements

A normal statement is read back from its tokens, whatever stands behind it, unless that is an `else`
and the statement ends in a conditional that is still open.

* `loops_statements` — the declarations of a block or of a program, one after the other;
* `reaches_statementStep`, `reaches_declarationStep` — statements and declarations, from the
  productions that are reached from them;
* `productions_complete` — the productions that are tied together, by induction on the room.
-/

namespace Lox

/-! ### Choices -/

section Choices

variable {α : Type} {excuse : Prop} {kind : TokenKind} {yes no : Parse α} {s s' : Spot} {a : α}
  {t : Token}

/-- The branch for a token of this kind. -/
theorem reaches_when (ht : s.next? = some t) (hkind : t.kind = kind)
    (h : Reaches excuse yes s.advance a s') :
    Reaches excuse (do if ← Parse.accept kind then yes else no) s a s' :=
  reaches_bind (reaches_accept ht hkind) h

/-- The branch for a token of another kind. -/
theorem reaches_unless (ht : s.next? = some t) (hkind : t.kind ≠ kind)
    (h : Reaches excuse no s a s') :
    Reaches excuse (do if ← Parse.accept kind then yes else no) s a s' :=
  reaches_bind (reaches_accept_ne ht hkind) h

end Choices

/-! ### First tokens -/

/-- The first token of an expression is of no kind that begins nothing. -/
theorem Expr.first_ne {e : Expr} {s s' : Spot} (hnormal : e.Normal) (hpassed : Passed s e.marks s') :
    ∃ t, s.next? = some t ∧ ∀ kind, (Rule.of kind).front = none → t.kind ≠ kind := by
  obtain ⟨t, ht, hfront⟩ := Expr.front_of_normal hnormal hpassed
  refine ⟨t, ht, fun kind hkind heq => ?_⟩
  rw [heq, hkind] at hfront
  contradiction

theorem Stmt.marks_ne_nil {inside : Bool} {st : Stmt} (h : st.Normal inside) : st.marks ≠ [] := by
  cases st with
  | conditional condition yes no => cases no <;> simp [Stmt.marks]
  | forLoop start condition update body => simp [Stmt.marks_forLoop]
  | foreign description => exact h.elim
  | _ => simp [Stmt.marks]

/-- The word or the brace that a statement begins with, unless it begins with an expression. -/
def Stmt.opening : Stmt → Option TokenKind
  | .expression _ | .foreign _ => none
  | .print _ => some .printWord
  | .variable _ _ const => some (if const then .constWord else .varWord)
  | .block _ => some .leftBrace
  | .conditional .. => some .ifWord
  | .whileLoop .. => some .whileWord
  | .forLoop .. => some .forWord
  | .function .. => some .funWord
  | .returning .. => some .returnWord

/-- **The first token of a statement** is of the kind that opens it, or can begin an expression. -/
theorem Stmt.first_of_normal {inside : Bool} {st : Stmt} {s s' : Spot} (hnormal : st.Normal inside)
    (hpassed : Passed s st.marks s') :
    ∃ t, s.next? = some t ∧ (∀ kind, st.opening = some kind → t.kind = kind) ∧
      ∀ kind, (Rule.of kind).front = none → st.opening ≠ some kind → t.kind ≠ kind := by
  -- a first token of the kind that opens the statement is of no other kind
  have hword : ∀ {st : Stmt} {kind : TokenKind} {t : Token}, s.next? = some t → t.kind = kind →
      st.opening = some kind →
      ∃ t, s.next? = some t ∧ (∀ kind, st.opening = some kind → t.kind = kind) ∧
        ∀ kind, (Rule.of kind).front = none → st.opening ≠ some kind → t.kind ≠ kind := by
    intro st kind t ht hkind hopening
    refine ⟨t, ht, fun other hother => ?_, fun other _ hne heq => hne ?_⟩
    · rw [hkind]
      exact Option.some.inj (hopening.symm.trans hother)
    · rw [hopening, ← hkind, heq]
  cases st with
  | expression value =>
    obtain ⟨s₁, hvalue, -⟩ := Passed.split hpassed
    obtain ⟨t, ht, hne⟩ := Expr.first_ne hnormal hvalue
    exact ⟨t, ht, by simp [Stmt.opening], fun kind hfront _ => hne kind hfront⟩
  | conditional condition yes no =>
    cases no with
    | none =>
      obtain ⟨t, ht, hkind, -⟩ := Passed.head hpassed
      exact hword ht hkind rfl
    | some no =>
      obtain ⟨t, ht, hkind, -⟩ := Passed.head hpassed
      exact hword ht hkind rfl
  | forLoop start condition update body =>
    rw [Stmt.marks_forLoop] at hpassed
    obtain ⟨t, ht, hkind, -⟩ := Passed.head hpassed
    exact hword ht hkind rfl
  | returning keyword value =>
    -- the tree keeps the keyword itself, which normal form requires to be one
    obtain ⟨t, ht, rfl, -⟩ := Passed.head hpassed
    exact hword ht hnormal.2.1 rfl
  | foreign description => exact hnormal.elim
  -- every other statement is written with its word in front
  | _ =>
    obtain ⟨t, ht, hkind, -⟩ := Passed.head hpassed
    exact hword ht hkind rfl

/-- No statement begins with what ends a block or a program, or with an `else`. -/
theorem Stmt.opening_ne (st : Stmt) : st.opening ≠ some .elseWord ∧
    st.opening ≠ some .rightBrace ∧ st.opening ≠ some .eof := by
  cases st with
  | «variable» name initial const => cases const <;> simp [Stmt.opening]
  | _ => simp [Stmt.opening]

theorem Stmt.opening_ne_declaration {st : Stmt} (h : st.isDeclaration = false) :
    st.opening ≠ some .varWord ∧ st.opening ≠ some .constWord ∧ st.opening ≠ some .funWord := by
  cases st with
  | «variable» | function => contradiction
  | _ => simp [Stmt.opening]

/-! ### Statements one after the other -/

/-- **The declarations of a block or of a program.** Behind each of them stands the next one, or
what ends them all. -/
theorem loops_statements {excuse : Prop} {atEnd : SyntaxError} {inside : Bool}
    {turn : List Stmt → Parse (Turn (List Stmt) (List Stmt))} {s' s'' : Spot} {t : Token}
    (hclose : s'.next? = some t) (hkind : t.kind ≠ .elseWord)
    (hdone : ∀ read, Reaches excuse (turn read) s' (.done read.reverse) s'') :
    ∀ (body read : List Stmt) (s : Spot), Stmt.AllNormal inside body →
      (∀ st ∈ body, ∀ s s' read, s.isInside = inside → Passed s st.marks s' → st.Before s' →
        Reaches excuse (turn read) s (.again (st :: read)) s') →
      s.isInside = inside → Passed s (Stmt.listMarks body) s' →
      Loops excuse atEnd turn read s (read.reverse ++ body) s''
  | [], read, s, _, _, _, hpassed => by
    obtain rfl := hpassed.eq_of_nil
    rw [List.append_nil]
    exact loops_done hclose (hdone read)
  | st :: body, read, s, hnormal, hturn, hinside, hpassed => by
    obtain ⟨s₁, hst, hmore⟩ := Passed.split hpassed
    obtain ⟨u, hu, -⟩ := Stmt.first_of_normal hnormal.1 hst
    have hbefore : st.Before s₁ := by
      -- what follows is no `else`: another statement, or what ends them all
      cases body with
      | nil =>
        obtain rfl := hmore.eq_of_nil
        exact ⟨t, hclose, fun _ => hkind⟩
      | cons st' body =>
        obtain ⟨_, hst', -⟩ := Passed.split hmore
        obtain ⟨v, hv, -, hne⟩ := Stmt.first_of_normal hnormal.2.1 hst'
        exact ⟨v, hv, fun _ => hne _ rfl st'.opening_ne.1⟩
    have hindex : s.index < s₁.index := by
      -- every statement takes at least one token, so that the loop gets on
      have := List.length_pos_iff.2 (Stmt.marks_ne_nil hnormal.1)
      rw [hst.index_eq]
      omega
    refine loops_again hu (hturn st (by simp) s s₁ read hinside hst hbefore) hst.tokens_eq hindex ?_
    have hread : read.reverse ++ st :: body = (st :: read).reverse ++ body := by simp
    rw [hread]
    exact loops_statements hclose hkind hdone body (st :: read) s₁ hnormal.2
      (fun st' hst' => hturn st' (List.mem_cons_of_mem st hst')) (hst.isInside_eq.trans hinside)
      hmore

section Statements

variable {room : Nat} {d : Descent} {excuse : Prop} {s s₁ s' : Spot} {t : Token}

theorem Stmt.need_lt_of_mem {st : Stmt} {body : List Stmt} (h : st ∈ body) :
    st.need + 8 ≤ 8 * sizeOf body := by
  have := List.sizeOf_lt_of_mem h
  rw [Stmt.need]
  omega

/-- **Blocks,** the closing brace included. -/
theorem reaches_block (hd : d.Complete room) {body : List Stmt}
    (hnormal : Stmt.AllNormal s.isInside body) (hpassed : Passed s (Stmt.listMarks body) s₁)
    (hclose : s₁.next? = some t) (hkind : t.kind = .rightBrace) :
    Reaches (room < 8 * sizeOf body) (Parse.block d) s body s₁.advance := by
  refine reaches_bind (Loops.reaches ?_)
    (reaches_bind (reaches_expect _ hclose hkind) (reaches_pure body _))
  refine loops_statements hclose (by rw [hkind]; decide) (fun read => ?_) body [] s hnormal
    (fun st hst s s' read hinside hpassed hbefore => ?_) rfl hpassed
  · -- the brace ends the loop
    refine reaches_bind (reaches_check .rightBrace hclose) ?_
    rw [beq_iff_eq.2 hkind]
    exact reaches_pure _ _
  · -- no statement begins with a brace or the end, so that the loop goes on to it
    have hst_normal := Stmt.allNormal_iff.1 hnormal st hst
    obtain ⟨u, hu, -, hne⟩ := Stmt.first_of_normal hst_normal hpassed
    obtain ⟨-, hbrace, heof⟩ := st.opening_ne
    refine reaches_bind (reaches_check .rightBrace hu) ?_
    rw [beq_eq_false_iff_ne.2 (hne _ rfl hbrace)]
    refine reaches_bind (reaches_check .eof hu) ?_
    rw [beq_eq_false_iff_ne.2 (hne _ rfl heof)]
    rw [← hinside] at hst_normal
    refine reaches_bind (((hd 1 (by omega)).declaration hst_normal hpassed hbefore).mono
      fun h => ?_) (reaches_pure _ _)
    have := Stmt.need_lt_of_mem hst
    omega

/-! ### Simple statements -/

/-- **An expression in front of a semicolon,** of which a statement is made. -/
theorem reaches_semicolon (hd : d.Complete room) {value : Expr} (make : Expr → Stmt)
    {about : Complaint} (hnormal : value.Normal)
    (hpassed : Passed s (value.marks ++ [.word .semicolon]) s') :
    Reaches (room < value.need + 4) (do
      let value ← Parse.expression (d.below 2)
      let _ ← Parse.expect .semicolon about
      return make value) s (make value) s' := by
  obtain ⟨s₁, hvalue, hend⟩ := Passed.split hpassed
  obtain ⟨t, ht, hkind : t.kind = .semicolon, hnil⟩ := hend.head
  obtain rfl := hnil.eq_of_nil
  have hstops : Stops .assignment s₁ := Stops.of_next? ht (.inr (.inr hkind)) (by decide)
  have hexpression := reaches_expression (hd.below 2) hnormal hvalue hstops
  refine reaches_bind (hexpression.mono fun h => by omega) ?_
  exact reaches_bind (reaches_expect _ ht hkind) (reaches_pure _ _)

theorem reaches_expressionStatement (hd : d.Complete room) {value : Expr} (hnormal : value.Normal)
    (hpassed : Passed s (Stmt.expression value).marks s') :
    Reaches (room < value.need + 4) (Parse.expressionStatement d) s (.expression value) s' :=
  reaches_traced (reaches_semicolon hd .expression hnormal hpassed)

theorem reaches_printStatement (hd : d.Complete room) {value : Expr} (hnormal : value.Normal)
    (hpassed : Passed s (value.marks ++ [.word .semicolon]) s') :
    Reaches (room < value.need + 4) (Parse.printStatement d) s (.print value) s' :=
  reaches_traced (reaches_semicolon hd .print hnormal hpassed)

/-- An expression that may be absent, and the token behind it. -/
theorem reaches_expressionUnless (hd : d.Complete room) {e : Option Expr} {kind : TokenKind}
    (hnormal : Expr.OptionNormal e) (hpassed : Passed s (Expr.optionMarks e) s₁)
    (ht : s₁.next? = some t) (hkind : t.kind = kind) (hstop : kind = .semicolon ∨ kind = .rightParen) :
    Reaches (room < 8 * sizeOf e) (Parse.expressionUnless d kind) s e s₁ := by
  cases e with
  | none =>
    obtain rfl := hpassed.eq_of_nil
    refine reaches_bind (reaches_check kind ht) ?_
    rw [beq_iff_eq.2 hkind]
    exact reaches_pure _ _
  | some e =>
    have he : e.Normal := hnormal e rfl
    obtain ⟨u, hu, hne⟩ := Expr.first_ne he hpassed
    -- an expression does not begin with what would stand in its place
    have hfront : u.kind ≠ kind := by
      obtain rfl | rfl := hstop
      · exact hne _ rfl
      · exact hne _ rfl
    have hstops : Stops .assignment s₁ := by
      refine Stops.of_next? ht ?_ (by decide)
      rw [hkind]
      obtain rfl | rfl := hstop
      · exact .inr (.inr rfl)
      · exact .inl rfl
    refine reaches_bind (reaches_check kind hu) ?_
    rw [beq_eq_false_iff_ne.2 hfront]
    refine reaches_bind ((reaches_expression hd he hpassed hstops).mono fun h => ?_)
      (reaches_pure _ _)
    simp only [Expr.need, Option.some.sizeOf_spec] at *
    omega

theorem reaches_get_bind {α : Type} {next : Cursor → Parse α} {a : α}
    (h : ∀ c : Cursor, c.functionDepth = s.functionDepth → Reaches excuse (next c) s a s') :
    Reaches excuse (get >>= next) s a s' := fun visits => h (s.cursor visits) rfl visits

theorem reaches_returnStatement (hd : d.Complete room) {value : Option Expr} {keyword : Token}
    (ht : s.next? = some keyword) (hinside : s.isInside = true) (hnormal : Expr.OptionNormal value)
    (hpassed : Passed s.advance (Expr.optionMarks value ++ [.word .semicolon]) s') :
    Reaches (room < 8 * sizeOf value + 2) (Parse.returnStatement d) s.advance
      (.returning keyword value) s' := by
  obtain ⟨s₁, hvalue, hend⟩ := Passed.split hpassed
  obtain ⟨u, hu, hkind : u.kind = .semicolon, hnil⟩ := hend.head
  obtain rfl := hnil.eq_of_nil
  refine reaches_traced (reaches_bind (reaches_previous ht) (reaches_get_bind fun c hc => ?_))
  -- the check for a return at the top passes inside a function
  have hdepth : c.functionDepth ≠ 0 := by
    rw [hc]
    simpa [Spot.isInside, Spot.advance] using hinside
  simp only [if_neg hdepth]
  have hreaches := reaches_expressionUnless (hd.below 2) hnormal hvalue hu hkind (.inl rfl)
  refine reaches_bind (hreaches.mono fun h => by omega) ?_
  exact reaches_bind (reaches_expect _ hu hkind) (reaches_pure _ _)

/-! ### Conditionals and loops -/

/-- **A condition in parentheses,** and what is read behind it. -/
theorem reaches_condition_bind {α : Type} (hd : d.Complete room) {e : Expr} {before behind : Complaint}
    {next : Expr → Parse α} {a : α} (hnormal : e.Normal)
    (hpassed : Passed s (.word .leftParen :: e.marks ++ [.word .rightParen]) s₁)
    (hx : room < e.need + 2 → excuse) (hnext : Reaches excuse (next e) s₁ a s') :
    Reaches excuse (do
      let _ ← Parse.expect .leftParen before
      let e ← Parse.expression d
      let _ ← Parse.expect .rightParen behind
      next e) s a s' := by
  obtain ⟨t, ht, hkind : t.kind = .leftParen, hrest⟩ := Passed.head hpassed
  obtain ⟨s₂, he, hend⟩ := Passed.split hrest
  obtain ⟨u, hu, hukind : u.kind = .rightParen, hnil⟩ := hend.head
  obtain rfl := hnil.eq_of_nil
  have hstops : Stops .assignment s₂ := Stops.of_next? hu (.inl hukind) (by decide)
  refine reaches_bind (reaches_expect _ ht hkind) ?_
  refine reaches_bind ((reaches_expression hd hnormal he hstops).mono fun h => hx (by omega)) ?_
  exact reaches_bind (reaches_expect _ hu hukind) hnext

theorem reaches_ifStatement (hd : d.Complete room) {condition : Expr} {yes : Stmt}
    {no : Option Stmt} (hnormal : (Stmt.conditional condition yes no).Normal s.isInside)
    (hpassed : Passed s (Stmt.conditional condition yes no).marks s')
    (hbefore : (Stmt.conditional condition yes no).Before s') :
    Reaches (room + 1 < (Stmt.conditional condition yes no).need) (Parse.ifStatement d) s.advance
      (.conditional condition yes no) s' := by
  refine reaches_traced ?_
  cases no with
  | none =>
    obtain ⟨hcondition, hyes, hdecl⟩ := hnormal
    have hmarks : (Stmt.conditional condition yes none).marks =
        .word .ifWord :: ((.word .leftParen :: condition.marks ++ [.word .rightParen]) ++
          yes.marks) := by simp [Stmt.marks]
    rw [hmarks] at hpassed
    -- the condition in its parentheses, and the branch behind it
    obtain ⟨t, ht, -, hrest⟩ := hpassed.head
    obtain ⟨s₁, hparens, hpassedYes⟩ := hrest.split
    rw [show s.isInside = s.advance.isInside from rfl, ← hparens.isInside_eq] at hyes
    obtain ⟨u, hu, helse⟩ := hbefore
    have hstatement := (hd 2 (by omega)).statement hyes hdecl hpassedYes ⟨u, hu, fun _ => helse rfl⟩
    -- each walk has the excuse of the whole, since its part needs less room
    refine reaches_condition_bind (hd.below 2) hcondition hparens (fun h => ?_) ?_
    · simp only [Stmt.need, Expr.need, Stmt.conditional.sizeOf_spec] at *
      omega
    refine reaches_bind (hstatement.mono fun h => ?_) ?_
    · simp only [Stmt.need, Stmt.conditional.sizeOf_spec] at *
      omega
    -- what follows is no second branch
    exact reaches_bind (reaches_accept_ne hu (helse rfl)) (reaches_pure _ _)
  | some no =>
    obtain ⟨hcondition, hyes, hdecl, hclosed, hno, hnoDecl⟩ := hnormal
    have hmarks : (Stmt.conditional condition yes (some no)).marks =
        .word .ifWord :: ((.word .leftParen :: condition.marks ++ [.word .rightParen]) ++
          (yes.marks ++ .word .elseWord :: no.marks)) := by simp [Stmt.marks]
    rw [hmarks] at hpassed
    -- the condition in its parentheses, the branch, the word `else` and the other branch
    obtain ⟨t, ht, -, hrest⟩ := hpassed.head
    obtain ⟨s₁, hparens, hbranches⟩ := hrest.split
    obtain ⟨s₂, hpassedYes, hpassedElse⟩ := hbranches.split
    obtain ⟨u, hu, hukind : u.kind = .elseWord, hpassedNo⟩ := hpassedElse.head
    have hinside : s₁.isInside = s.isInside := hparens.isInside_eq
    have hinside' : s₂.advance.isInside = s.isInside := hpassedYes.isInside_eq.trans hinside
    rw [← hinside] at hyes
    rw [← hinside'] at hno
    -- the first branch cannot take the `else` behind it
    have hyesStatement := (hd 2 (by omega)).statement hyes hdecl hpassedYes
      ⟨u, hu, fun hopen => by rw [hclosed] at hopen; contradiction⟩
    have hnoStatement := (hd 2 (by omega)).statement hno hnoDecl hpassedNo hbefore
    refine reaches_condition_bind (hd.below 2) hcondition hparens (fun h => ?_) ?_
    · simp only [Stmt.need, Expr.need, Stmt.conditional.sizeOf_spec] at *
      omega
    refine reaches_bind (hyesStatement.mono fun h => ?_) ?_
    · simp only [Stmt.need, Stmt.conditional.sizeOf_spec] at *
      omega
    refine reaches_bind (reaches_accept hu hukind) ?_
    refine reaches_bind (hnoStatement.mono fun h => ?_) (reaches_pure _ _)
    simp only [Stmt.need, Stmt.conditional.sizeOf_spec, Option.some.sizeOf_spec] at *
    omega

theorem reaches_whileStatement (hd : d.Complete room) {condition : Expr} {body : Stmt}
    (hnormal : (Stmt.whileLoop condition body).Normal s.isInside)
    (hpassed : Passed s (Stmt.whileLoop condition body).marks s')
    (hbefore : (Stmt.whileLoop condition body).Before s') :
    Reaches (room + 1 < (Stmt.whileLoop condition body).need) (Parse.whileStatement d) s.advance
      (.whileLoop condition body) s' := by
  obtain ⟨hcondition, hbody, hdecl⟩ := hnormal
  have hmarks : (Stmt.whileLoop condition body).marks =
      .word .whileWord :: ((.word .leftParen :: condition.marks ++ [.word .rightParen]) ++
        body.marks) := by simp [Stmt.marks]
  rw [hmarks] at hpassed
  obtain ⟨t, ht, -, hrest⟩ := hpassed.head
  obtain ⟨s₁, hparens, hpassedBody⟩ := hrest.split
  -- the body is inside of as many functions as the loop
  rw [show s.isInside = s.advance.isInside from rfl, ← hparens.isInside_eq] at hbody
  have hstatement := (hd 2 (by omega)).statement hbody hdecl hpassedBody hbefore
  refine reaches_traced (reaches_condition_bind (hd.below 2) hcondition hparens (fun h => ?_) ?_)
  · simp only [Stmt.need, Expr.need, Stmt.whileLoop.sizeOf_spec] at *
    omega
  refine reaches_bind (hstatement.mono fun h => ?_) (reaches_pure _ _)
  simp only [Stmt.need, Stmt.whileLoop.sizeOf_spec] at *
  omega

/-! ### Declarations of variables, and for loops -/

theorem reaches_variableDeclaration (hd : d.Complete room) {name : Token} {initial : Option Expr}
    {const : Bool} (hnormal : (Stmt.variable name initial const).Normal s.isInside)
    (hpassed : Passed s (Stmt.variable name initial const).marks s') :
    Reaches (room + 2 < (Stmt.variable name initial const).need)
      (Parse.variableDeclaration d const) s.advance (.variable name initial const) s' := by
  obtain ⟨hident, hinitial, hconst⟩ := hnormal
  obtain ⟨t, ht, -, hnamed⟩ := Passed.head hpassed
  obtain ⟨u, hu, rfl, hrest⟩ := Passed.head hnamed
  obtain ⟨s₁, hvalue, hend⟩ := Passed.split hrest
  obtain ⟨v, hv, hvkind : v.kind = .semicolon, hnil⟩ := hend.head
  obtain rfl := hnil.eq_of_nil
  refine reaches_traced (reaches_bind (reaches_expect _ hu hident) ?_)
  cases initial with
  | none =>
    obtain rfl := Passed.eq_of_nil hvalue
    -- a constant would have a value
    obtain rfl : const = false := by simpa using hconst
    refine reaches_bind (reaches_accept_ne hv (by rw [hvkind]; decide)) ?_
    refine reaches_bind (reaches_pure none _) ?_
    exact reaches_bind (reaches_expect _ hv hvkind) (reaches_pure _ _)
  | some value =>
    obtain ⟨w, hw, hwkind : w.kind = .equal, hexpression⟩ := Passed.head hvalue
    have hstops : Stops .assignment s₁ := Stops.of_next? hv (.inr (.inr hvkind)) (by decide)
    have hreaches := reaches_expression (hd.below 2) (hinitial value rfl) hexpression hstops
    refine reaches_bind (reaches_accept hw hwkind) ?_
    refine reaches_bind (reaches_map (hreaches.mono fun h => ?_)) ?_
    · simp only [Stmt.need, Expr.need, Stmt.variable.sizeOf_spec, Option.some.sizeOf_spec] at *
      omega
    exact reaches_bind (reaches_expect _ hv hvkind) (reaches_pure _ _)

theorem reaches_forStart (hd : d.Complete room) {start : Option Stmt}
    (hnormal : ∀ st ∈ start, st.beginsLoop = true ∧ st.Normal s.isInside)
    (hpassed : Passed s (startMarks start) s') :
    Reaches (room + 2 < 8 * sizeOf start) (Parse.forStart d) s start s' := by
  cases start with
  | none =>
    obtain ⟨t, ht, hkind : t.kind = .semicolon, hnil⟩ := Passed.head hpassed
    obtain rfl := hnil.eq_of_nil
    exact reaches_when ht hkind (reaches_pure _ _)
  | some st =>
    obtain ⟨hbegins, hst⟩ := hnormal st rfl
    cases st with
    | «variable» name initial const =>
      obtain ⟨t, ht, hkind, -⟩ := Passed.head hpassed
      have hreaches : Reaches (room + 2 < 8 * sizeOf (some (Stmt.variable name initial const)))
          (Parse.variableDeclaration d const >>= fun st => pure (some st)) s.advance
          (some (.variable name initial const)) s' := by
        refine reaches_bind ((reaches_variableDeclaration hd hst hpassed).mono fun h => ?_)
          (reaches_pure _ _)
        simp only [Stmt.need, Option.some.sizeOf_spec] at *
        omega
      -- the word in front tells the two kinds of declarations apart
      cases const with
      | false =>
        have hvar : t.kind = .varWord := hkind
        exact reaches_unless ht (by rw [hvar]; decide) (reaches_when ht hvar hreaches)
      | true =>
        have hconst : t.kind = .constWord := hkind
        exact reaches_unless ht (by rw [hconst]; decide)
          (reaches_unless ht (by rw [hconst]; decide) (reaches_when ht hconst hreaches))
    | expression value =>
      obtain ⟨_, hvalue, -⟩ := Passed.split hpassed
      obtain ⟨t, ht, hne⟩ := Expr.first_ne hst hvalue
      -- no expression begins with a semicolon or a word of the other two kinds
      refine reaches_unless ht (hne _ rfl) (reaches_unless ht (hne _ rfl)
        (reaches_unless ht (hne _ rfl) ?_))
      refine reaches_bind ((reaches_expressionStatement hd hst hpassed).mono fun h => ?_)
        (reaches_pure _ _)
      simp only [Expr.need, Option.some.sizeOf_spec, Stmt.expression.sizeOf_spec] at *
      omega
    | _ => contradiction

theorem reaches_forStatement (hd : d.Complete room) {start : Option Stmt}
    {condition update : Option Expr} {body : Stmt}
    (hnormal : (Stmt.forLoop start condition update body).Normal s.isInside)
    (hpassed : Passed s (Stmt.forLoop start condition update body).marks s')
    (hbefore : (Stmt.forLoop start condition update body).Before s') :
    Reaches (room + 1 < (Stmt.forLoop start condition update body).need) (Parse.forStatement d)
      s.advance (.forLoop start condition update body) s' := by
  obtain ⟨hstart, hcondition, hupdate, hbody, hdecl⟩ := Stmt.normal_forLoop.1 hnormal
  have hmarks : (Stmt.forLoop start condition update body).marks =
      .word .forWord :: .word .leftParen :: (startMarks start ++ (Expr.optionMarks condition ++
        .word .semicolon :: (Expr.optionMarks update ++ .word .rightParen :: body.marks))) := by
    simp [Stmt.marks_forLoop]
  -- the tokens are split where the walk will stand
  rw [hmarks] at hpassed
  obtain ⟨t, ht, -, hparen⟩ := hpassed.head
  obtain ⟨u, hu, hukind : u.kind = .leftParen, hrest⟩ := hparen.head
  obtain ⟨s₁, hpassedStart, hrest₁⟩ := hrest.split
  obtain ⟨s₂, hpassedCondition, hrest₂⟩ := hrest₁.split
  obtain ⟨v, hv, hvkind : v.kind = .semicolon, hrest₃⟩ := hrest₂.head
  obtain ⟨s₃, hpassedUpdate, hrest₄⟩ := hrest₃.split
  obtain ⟨w, hw, hwkind : w.kind = .rightParen, hpassedBody⟩ := hrest₄.head
  have hinside : s₃.advance.isInside = s.isInside :=
    hpassedUpdate.isInside_eq.trans (hpassedCondition.isInside_eq.trans hpassedStart.isInside_eq)
  rw [← hinside] at hbody
  -- the clauses leave the depth of functions as it is, so that the body is normal where it stands
  have hstatement := (hd 2 (by omega)).statement hbody hdecl hpassedBody hbefore
  -- the walk reaches one of these places after the other
  refine reaches_traced (reaches_bind (reaches_expect _ hu hukind) ?_)
  have hreachesStart := reaches_forStart (s := s.advance.advance) (hd.below 2) hstart hpassedStart
  refine reaches_bind (hreachesStart.mono fun h => ?_) ?_
  · simp only [Stmt.need, Stmt.forLoop.sizeOf_spec] at *
    omega
  refine reaches_bind ((reaches_expressionUnless (hd.below 2) hcondition hpassedCondition hv hvkind
    (.inl rfl)).mono fun h => ?_) ?_
  · simp only [Stmt.need, Stmt.forLoop.sizeOf_spec] at *
    omega
  refine reaches_bind (reaches_expect _ hv hvkind) ?_
  refine reaches_bind ((reaches_expressionUnless (hd.below 2) hupdate hpassedUpdate hw hwkind
    (.inr rfl)).mono fun h => ?_) ?_
  · simp only [Stmt.need, Stmt.forLoop.sizeOf_spec] at *
    omega
  refine reaches_bind (reaches_expect _ hw hwkind) ?_
  refine reaches_bind (hstatement.mono fun h => ?_) (reaches_pure _ _)
  simp only [Stmt.need, Stmt.forLoop.sizeOf_spec] at *
  omega

/-! ### Functions -/

theorem reaches_insideFunction {α : Type} {body : Parse α} {a : α}
    (h : Reaches excuse body s.inside a s') :
    Reaches excuse (Parse.insideFunction body) s a s'.outside := by
  intro visits
  refine outcome_insideFunction (Outcome.mono (h visits) ?_ fun _ _ he => he)
  rintro _ c ⟨rfl, rfl⟩
  exact ⟨rfl, rfl⟩

theorem reaches_functionDeclaration (hd : d.Complete room) {name : Token} {parameters : List Token}
    {body : List Stmt} (hnormal : (Stmt.function name parameters body).Normal s.isInside)
    (hpassed : Passed s (Stmt.function name parameters body).marks s') :
    Reaches (room + 1 < (Stmt.function name parameters body).need) (Parse.functionDeclaration d)
      s.advance (.function name parameters body) s' := by
  obtain ⟨hident, hparameters, hlength, hbody⟩ := hnormal
  have hmarks : (Stmt.function name parameters body).marks =
      .word .funWord :: .token name :: .word .leftParen ::
        (between (fun p => [.token p]) parameters ++ .word .rightParen :: .word .leftBrace ::
          (Stmt.listMarks body ++ [.word .rightBrace])) := by simp [Stmt.marks]
  -- the tokens are split where the walk will stand
  rw [hmarks] at hpassed
  obtain ⟨t, ht, -, hnamed⟩ := hpassed.head
  obtain ⟨u, hu, rfl, hparen⟩ := hnamed.head
  obtain ⟨v, hv, hvkind : v.kind = .leftParen, hrest⟩ := hparen.head
  obtain ⟨s₁, hpassedParameters, hrest₁⟩ := hrest.split
  obtain ⟨w, hw, hwkind : w.kind = .rightParen, hrest₂⟩ := hrest₁.head
  obtain ⟨x, hx, hxkind : x.kind = .leftBrace, hrest₃⟩ := hrest₂.head
  obtain ⟨s₂, hpassedBody, hend⟩ := hrest₃.split
  obtain ⟨y, hy, hykind : y.kind = .rightBrace, hnil⟩ := hend.head
  obtain rfl := hnil.eq_of_nil
  -- the same tokens, read inside the function
  have hpassedInside : Passed s₁.advance.advance.inside (Stmt.listMarks body) s₂.inside := by
    obtain ⟨htokens, hdepth, hindex, hfits⟩ := hpassedBody
    exact ⟨htokens, congrArg (· + 1) hdepth, hindex, hfits⟩
  have hblock := reaches_block (s := s₁.advance.advance.inside) (hd.below 2) hbody hpassedInside hy
    hykind
  -- behind the parameters all functions go on alike
  have hrest : Reaches (room + 1 < (Stmt.function u parameters body).need) (do
      let _ ← Parse.expect .rightParen (.expected ") after parameters")
      let _ ← Parse.expect .leftBrace (.expected "\x7b before function body")
      return Stmt.function u parameters (← Parse.insideFunction (Parse.block (d.below 2))))
      s₁ (.function u parameters body) s₂.advance := by
    refine reaches_bind (reaches_expect _ hw hwkind) (reaches_bind (reaches_expect _ hx hxkind) ?_)
    refine reaches_bind (reaches_insideFunction (hblock.mono fun h => ?_)) (reaches_pure _ _)
    simp only [Stmt.need, Stmt.function.sizeOf_spec] at *
    omega
  refine reaches_traced (reaches_bind (reaches_expect _ hu hident) ?_)
  refine reaches_bind (reaches_expect _ hv hvkind) ?_
  cases parameters with
  | nil =>
    obtain rfl := Passed.eq_of_nil hpassedParameters
    refine reaches_bind (reaches_check .rightParen hw) ?_
    rw [beq_iff_eq.2 hwkind]
    exact reaches_bind (reaches_pure [] _) hrest
  | cons p parameters =>
    obtain ⟨z, hz, rfl, -⟩ := Passed.head hpassedParameters
    -- a parameter is a name, and so no parenthesis
    have hne : z.kind ≠ .rightParen := by rw [hparameters z (by simp)]; decide
    refine reaches_bind (reaches_check .rightParen hz) ?_
    rw [beq_eq_false_iff_ne.2 hne]
    refine reaches_bind (reaches_commaSeparated (by simp) hlength ?_ hpassedParameters hw hwkind)
      hrest
    intro q hq s s' hpassed _
    obtain ⟨a, ha, rfl, hnil⟩ := Passed.head hpassed
    obtain rfl := hnil.eq_of_nil
    exact reaches_expect _ ha (hparameters a hq)

/-! ### Tying the productions together -/

/-- **Statements.** Every one of them but an expression has its own first token. -/
theorem reaches_statementStep (hd : d.Complete room) {st : Stmt} (hnormal : st.Normal s.isInside)
    (hdecl : st.isDeclaration = false) (hpassed : Passed s st.marks s') (hbefore : st.Before s') :
    Reaches (room < st.need) (Parse.statementStep d) s st s' := by
  have hd₁ := hd.below 1
  -- the words are tried in turn, and a statement begins with none of those in front of its own
  cases st with
  | print value =>
    obtain ⟨t, ht, hkind : t.kind = .printWord, hrest⟩ := Passed.head hpassed
    refine reaches_when ht hkind ((reaches_printStatement hd₁ hnormal hrest).mono fun h => ?_)
    simp only [Stmt.need, Expr.need, Stmt.print.sizeOf_spec] at *
    omega
  | conditional condition yes no =>
    obtain ⟨t, ht, hopening, -⟩ := Stmt.first_of_normal hnormal hpassed
    have hkind : t.kind = .ifWord := hopening _ rfl
    refine reaches_unless ht (by rw [hkind]; decide) (reaches_when ht hkind ?_)
    exact (reaches_ifStatement hd₁ hnormal hpassed hbefore).mono fun h => by omega
  | whileLoop condition body =>
    obtain ⟨t, ht, hkind : t.kind = .whileWord, -⟩ := Passed.head hpassed
    refine reaches_unless ht (by rw [hkind]; decide) (reaches_unless ht (by rw [hkind]; decide)
      (reaches_when ht hkind ?_))
    exact (reaches_whileStatement hd₁ hnormal hpassed hbefore).mono fun h => by omega
  | forLoop start condition update body =>
    obtain ⟨t, ht, hopening, -⟩ := Stmt.first_of_normal hnormal hpassed
    have hkind : t.kind = .forWord := hopening _ rfl
    refine reaches_unless ht (by rw [hkind]; decide) (reaches_unless ht (by rw [hkind]; decide)
      (reaches_unless ht (by rw [hkind]; decide) (reaches_when ht hkind ?_)))
    exact (reaches_forStatement hd₁ hnormal hpassed hbefore).mono fun h => by omega
  | returning keyword value =>
    obtain ⟨hinside, hkind, hvalue⟩ := hnormal
    obtain ⟨t, ht, rfl, hrest⟩ := Passed.head hpassed
    refine reaches_unless ht (by rw [hkind]; decide) (reaches_unless ht (by rw [hkind]; decide)
      (reaches_unless ht (by rw [hkind]; decide) (reaches_unless ht (by rw [hkind]; decide)
        (reaches_when ht hkind ?_))))
    refine (reaches_returnStatement hd₁ ht hinside hvalue hrest).mono fun h => ?_
    simp only [Stmt.need, Stmt.returning.sizeOf_spec] at *
    omega
  | block body =>
    obtain ⟨t, ht, hkind : t.kind = .leftBrace, hrest⟩ := Passed.head hpassed
    -- the declarations of the block, up to its closing brace
    obtain ⟨s₁, hbody, hend⟩ := Passed.split hrest
    obtain ⟨u, hu, hukind : u.kind = .rightBrace, hnil⟩ := hend.head
    obtain rfl := hnil.eq_of_nil
    refine reaches_unless ht (by rw [hkind]; decide) (reaches_unless ht (by rw [hkind]; decide)
      (reaches_unless ht (by rw [hkind]; decide) (reaches_unless ht (by rw [hkind]; decide)
        (reaches_unless ht (by rw [hkind]; decide) (reaches_when ht hkind ?_)))))
    refine reaches_bind
      ((reaches_block (s := s.advance) hd₁ hnormal hbody hu hukind).mono fun h => ?_)
      (reaches_pure _ _)
    simp only [Stmt.need, Stmt.block.sizeOf_spec] at *
    omega
  | expression value =>
    obtain ⟨_, hvalue, -⟩ := Passed.split hpassed
    -- an expression begins with none of the words
    obtain ⟨t, ht, hne⟩ := Expr.first_ne hnormal hvalue
    refine reaches_unless ht (hne _ rfl) (reaches_unless ht (hne _ rfl)
      (reaches_unless ht (hne _ rfl) (reaches_unless ht (hne _ rfl)
        (reaches_unless ht (hne _ rfl) (reaches_unless ht (hne _ rfl) ?_)))))
    refine (reaches_expressionStatement hd₁ hnormal hpassed).mono fun h => ?_
    simp only [Stmt.need, Expr.need, Stmt.expression.sizeOf_spec] at *
    omega
  | «variable» | function => contradiction
  | foreign description => exact hnormal.elim

/-- **Declarations.** -/
theorem reaches_declarationStep (hd : d.Complete room) {st : Stmt} (hnormal : st.Normal s.isInside)
    (hpassed : Passed s st.marks s') (hbefore : st.Before s') :
    Reaches (room < st.need + 1) (Parse.declarationStep d) s st s' := by
  have hd₁ := hd.below 1
  by_cases hdecl : st.isDeclaration = false
  -- all but three kinds of first tokens lead to a statement
  · obtain ⟨t, ht, -, hne⟩ := Stmt.first_of_normal hnormal hpassed
    obtain ⟨hvar, hconst, hfun⟩ := Stmt.opening_ne_declaration hdecl
    refine reaches_unless ht (hne _ rfl hvar) (reaches_unless ht (hne _ rfl hconst)
      (reaches_unless ht (hne _ rfl hfun) ?_))
    exact ((hd 1 (by omega)).statement hnormal hdecl hpassed hbefore).mono fun h => by omega
  cases st with
  | «variable» name initial const =>
    obtain ⟨t, ht, hkind, -⟩ := Passed.head hpassed
    -- both kinds of declarations of variables go on alike behind their words
    have hreaches : Reaches (room < (Stmt.variable name initial const).need + 1)
        (Parse.variableDeclaration (d.below 1) const) s.advance (.variable name initial const) s' :=
      (reaches_variableDeclaration hd₁ hnormal hpassed).mono fun h => by omega
    cases const with
    | false =>
      have hvar : t.kind = .varWord := hkind
      exact reaches_when ht hvar hreaches
    | true =>
      have hconst : t.kind = .constWord := hkind
      exact reaches_unless ht (by rw [hconst]; decide) (reaches_when ht hconst hreaches)
  | function name parameters body =>
    obtain ⟨t, ht, hkind : t.kind = .funWord, -⟩ := Passed.head hpassed
    refine reaches_unless ht (by rw [hkind]; decide) (reaches_unless ht (by rw [hkind]; decide)
      (reaches_when ht hkind ?_))
    exact (reaches_functionDeclaration hd₁ hnormal hpassed).mono fun h => by omega
  | _ => contradiction

end Statements

/-- **Productions in some room are bound to read back** what needs no more of it. -/
theorem productions_complete (room : Nat) : (Descent.inRoom room 0).Complete room := by
  induction room using Nat.strongRecOn with
  | _ room ih =>
    cases room with
    | zero =>
      refine ⟨fun hnormal _ hpassed _ => ?_, fun hnormal _ hpassed _ => ?_,
        fun hnormal hpassed _ => ?_⟩
      · obtain ⟨t, ht, -⟩ := Expr.front_of_normal hnormal hpassed
        exact reaches_reject ht (Expr.need_pos _)
      · obtain ⟨t, ht, -⟩ := Stmt.first_of_normal hnormal hpassed
        exact reaches_reject ht (Stmt.need_pos _)
      · obtain ⟨t, ht, -⟩ := Stmt.first_of_normal hnormal hpassed
        exact reaches_reject ht (Nat.succ_pos _)
    | succ room =>
      -- one step has all productions below it, with what is left of the room
      let d : Descent := fun cost => recurse .full .step room (cost - 1)
      have hd : d.Complete (room + 1) := by
        intro cost hcost
        have hleft : d cost = Descent.inRoom (room + 1 - cost) 0 := by
          rw [show room + 1 - cost = room - (cost - 1) by omega]
          exact recurse_eq_sub _ _ room (cost - 1)
        rw [hleft]
        exact ih _ (by omega)
      exact ⟨reaches_precedenceStep hd, reaches_statementStep hd, reaches_declarationStep hd⟩

/-- **Programs,** up to the end of the tokens. -/
theorem reaches_program {room : Nat} {program : List Stmt} {s s' : Spot} {t : Token}
    (hnormal : Stmt.AllNormal s.isInside program) (hpassed : Passed s (Stmt.listMarks program) s')
    (ht : s'.next? = some t) (hkind : t.kind = .eof) :
    Reaches (room < 8 * sizeOf program) (Parse.program (Descent.inRoom room)) s program
      s'.advance := by
  refine Loops.reaches ?_
  refine loops_statements ht (by rw [hkind]; decide) (fun read => ?_) program [] s hnormal
    (fun st hst s s' read hinside hpassed hbefore => ?_) rfl hpassed
  · exact reaches_bind (reaches_accept ht hkind) (reaches_pure _ _)
  · have hst_normal := Stmt.allNormal_iff.1 hnormal st hst
    obtain ⟨u, hu, -, hne⟩ := Stmt.first_of_normal hst_normal hpassed
    refine reaches_bind (reaches_accept_ne hu (hne _ rfl st.opening_ne.2.2)) ?_
    rw [← hinside] at hst_normal
    refine reaches_bind (((productions_complete room).declaration hst_normal hpassed hbefore).mono
      fun h => ?_) (reaches_pure _ _)
    have := Stmt.need_lt_of_mem hst
    omega

end Lox
