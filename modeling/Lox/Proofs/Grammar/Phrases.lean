import Lox.Proofs.Grammar.Distribution
import Lox.Proofs.Grammar.Steady

/-!
# Every production on its way

Each production of the grammar is followed on its own, from every place of a source where it may
begin. It ends in front of a token, not behind the last one, wherever it began or farther on, and
inside of as many functions. If it fails, it complains about the token where it has stopped. Only the
loop over all declarations passes the token that marks the end, and in room enough for its tokens it
always comes to its end or to a complaint that is not about the nesting.

* `Phrase` — the productions, `Phrase.Begins` where they begin, `Phrase.passed` how much they pass;
* `safely_phrase`, `steadily_phrase` — what the productions have in common;
* `parser_keeps_course` — the statement for whole sources.
-/

namespace Lox

open Window

/-- **Phrases.** One for each production, whether its visits are recorded or not. -/
inductive Phrase
  | precedence (level : Precedence)
  | expression | argumentList
  | grouping | unary | literal | variableName (canAssign : Bool)
  | binary (left : Expr) | call (left : Expr)
  | expressionStatement | printStatement | ifStatement | whileStatement | forStatement
  | returnStatement | block | statement
  | variableDeclaration (const : Bool) | functionDeclaration | declaration

namespace Phrase

/-- **The walk over a phrase,** whatever it finds. -/
def walk (d : Descent) : Phrase → Parse Unit
  | precedence level => do let _ ← (d 0).precedence level
  | expression => do let _ ← Parse.expression d
  | argumentList => do let _ ← Parse.argumentList d
  | grouping => do let _ ← Parse.grouping d
  | unary => do let _ ← Parse.unary d
  | literal => do let _ ← Parse.literal
  | variableName canAssign => do let _ ← Parse.variableName d canAssign
  | binary left => do let _ ← Parse.binary d left
  | call left => do let _ ← Parse.call d left
  | expressionStatement => do let _ ← Parse.expressionStatement d
  | printStatement => do let _ ← Parse.printStatement d
  | ifStatement => do let _ ← Parse.ifStatement d
  | whileStatement => do let _ ← Parse.whileStatement d
  | forStatement => do let _ ← Parse.forStatement d
  | returnStatement => do let _ ← Parse.returnStatement d
  | block => do let _ ← Parse.block d
  | statement => do let _ ← (d 0).statement
  | variableDeclaration const => do let _ ← Parse.variableDeclaration d const
  | functionDeclaration => do let _ ← Parse.functionDeclaration d
  | declaration => do let _ ← (d 0).declaration

/-- A place behind a token of such a kind. -/
def Follows (kinds : TokenKind → Prop) (c : Cursor) : Prop :=
  ∃ i t, c.index = i + 1 ∧ c.tokens[i]? = some t ∧ kinds t.kind

/-- **Where a phrase begins:** in front of a token and, if the phrase looks back, behind a token that
leads to it. -/
def Begins (phrase : Phrase) (c : Cursor) : Prop :=
  c.index < c.tokens.size ∧ match phrase with
    | precedence level => .assignment ≤ level
    | unary => Follows (fun kind => (Rule.of kind).front = some .unary) c
    | literal => Follows (fun kind => (Rule.of kind).front = some .literal) c
    | variableName _ => Follows (fun kind => (Rule.of kind).front = some .variable) c
    | binary _ => Follows (fun kind => (Rule.of kind).behind = some .binary) c
    | call _ => Follows (fun kind => (Rule.of kind).behind = some .call) c
    | returnStatement => Follows (fun kind => kind = .returnWord) c
    | _ => True

/-- **The tokens that a phrase passes at least,** those left out that were passed in front of it. -/
def passed : Phrase → Nat
  | precedence _ | expression | expressionStatement | statement | declaration => 1
  | _ => 0

end Phrase

/-- Every operator between operands binds. -/
theorem Rule.assignment_le_of_behind {kind : TokenKind}
    (h : (Rule.of kind).behind = some .binary) : .assignment ≤ (Rule.of kind).precedence := by
  cases kind <;> revert h <;> decide

/-! ### What the productions have in common -/

/-- What may be said of where a phrase ends. -/
def Phrase.Reaches (phrase : Phrase) (s s' : Spot) : Prop :=
  s.Reaches s' ∧ s.index + phrase.passed ≤ s'.index

section Phrases

variable {d : Descent} {phrase : Phrase} {c : Cursor} {α : Type}

/-- A walk that passes a token. -/
theorem Phrase.safely_passing {walk : Parse α} {s : Spot} (hpassed : phrase.passed ≤ 1)
    (h : Safely (fun _ s' => s.advance.Reaches s') walk s) :
    Safely (fun _ s' => phrase.Reaches s s') (do let _ ← walk) s :=
  safely_bind h fun _ s' h' => safely_pure ⟨h'.of_advance, by
    have hindex : s.index + 1 ≤ s'.index := h'.index_le
    omega⟩

/-- A walk that may pass nothing. -/
theorem Phrase.safely_staying {walk : Parse α} {s : Spot} (hpassed : phrase.passed = 0)
    (h : Safely (fun _ s' => s.Reaches s') walk s) :
    Safely (fun _ s' => phrase.Reaches s s') (do let _ ← walk) s :=
  safely_bind h fun _ s' h' => safely_pure ⟨h', by
    have hindex := h'.index_le
    omega⟩

/-- **Every phrase complains at worst.** -/
theorem safely_phrase (hd : d.Safe) (hs : c.spot.Ready) (hbegins : phrase.Begins c) :
    Safely (fun _ s' => phrase.Reaches c.spot s') (phrase.walk d) c.spot := by
  -- a phrase that looks back begins behind a token
  have hlook : ∀ {kinds : TokenKind → Prop} {walk : Parse Unit}, Phrase.Follows kinds c →
      (∀ s : Spot, c.spot = s.advance → ∀ t, s.next? = some t → kinds t.kind →
        Safely (fun _ s' => phrase.Reaches c.spot s') walk c.spot) →
      Safely (fun _ s' => phrase.Reaches c.spot s') walk c.spot := by
    rintro kinds walk ⟨i, t, hindex, ht, hkind⟩ hwalk
    refine hwalk ⟨c.tokens, i, c.functionDepth⟩ ?_ t ht hkind
    rw [Cursor.spot, hindex]
    rfl
  obtain ⟨-, hbegins⟩ := hbegins
  -- a phrase either passes a token or stays, and what it does is told by its production
  cases phrase with
  | precedence level =>
    exact Phrase.safely_passing (Nat.le_refl 1) ((hd 0).precedence level _ hbegins hs)
  | expression => exact Phrase.safely_passing (Nat.le_refl 1) (safely_expression hd hs)
  | argumentList => exact Phrase.safely_staying rfl (safely_argumentList hd hs)
  | grouping => exact Phrase.safely_staying rfl (safely_grouping hd hs)
  | unary =>
    refine hlook hbegins fun s h t ht _ => Phrase.safely_staying rfl ?_
    rw [h] at hs ⊢
    exact safely_unary hd ht hs
  | literal =>
    refine hlook hbegins fun s h t ht hrule => Phrase.safely_staying rfl ?_
    rw [h] at hs ⊢
    exact safely_literal ht hs hrule
  | variableName canAssign =>
    refine hlook hbegins fun s h t ht _ => Phrase.safely_staying rfl ?_
    rw [h] at hs ⊢
    exact safely_variableName hd ht hs canAssign
  | binary left =>
    refine hlook hbegins fun s h t ht hrule => Phrase.safely_staying rfl ?_
    rw [h] at hs ⊢
    exact safely_binary hd ht hs hrule (Rule.assignment_le_of_behind hrule) left
  | call left =>
    refine hlook hbegins fun s h t ht _ => Phrase.safely_staying rfl ?_
    rw [h] at hs ⊢
    exact safely_call hd ht hs left
  | expressionStatement =>
    exact Phrase.safely_passing (Nat.le_refl 1) (safely_expressionStatement hd hs)
  | printStatement => exact Phrase.safely_staying rfl (safely_printStatement hd hs)
  | ifStatement => exact Phrase.safely_staying rfl (safely_ifStatement hd hs)
  | whileStatement => exact Phrase.safely_staying rfl (safely_whileStatement hd hs)
  | forStatement => exact Phrase.safely_staying rfl (safely_forStatement hd hs)
  | returnStatement =>
    refine hlook hbegins fun s h t ht _ => Phrase.safely_staying rfl ?_
    rw [h] at hs ⊢
    exact safely_returnStatement hd ht hs
  | block => exact Phrase.safely_staying rfl (safely_block hd hs)
  | statement => exact Phrase.safely_passing (Nat.le_refl 1) ((hd 0).statement _ hs)
  | variableDeclaration const =>
    exact Phrase.safely_staying rfl (safely_variableDeclaration hd hs const)
  | functionDeclaration => exact Phrase.safely_staying rfl (safely_functionDeclaration hd hs)
  | declaration => exact Phrase.safely_passing (Nat.le_refl 1) ((hd 0).declaration _ hs)

/-- **Every phrase keeps its course.** -/
theorem steadily_phrase (room : Nat) (hbegins : phrase.Begins c) :
    Steadily True (phrase.walk (Descent.inRoom room)) c := by
  have hd : (Descent.inRoom room).Steady (room + 1) := fun cost _ => descent_steady room cost
  -- what is found does not matter, and neither does how much room there is
  have hquiet : ∀ {α : Type} {walk : Parse α} {excuse : Prop}, Steadily excuse walk c →
      Steadily True (do let _ ← walk) c := fun h =>
    steadily_bind (h.mono fun _ => trivial) fun _ _ _ _ => steadily_pure ()
  cases phrase with
  | precedence level => exact hquiet ((descent_steady room 0).precedence level c)
  | expression => exact hquiet (steadily_expression hd)
  | argumentList => exact hquiet (steadily_argumentList hd)
  | grouping => exact hquiet (steadily_grouping hd)
  | unary => exact hquiet (steadily_unary hd)
  | literal =>
    have hliteral : Steadily True Parse.literal c := steadily_literal
    exact hquiet hliteral
  | variableName canAssign => exact hquiet (steadily_variableName hd canAssign)
  | binary left => exact hquiet (steadily_binary hd left)
  | call left => exact hquiet (steadily_call hd left)
  | expressionStatement => exact hquiet (steadily_expressionStatement hd)
  | printStatement => exact hquiet (steadily_printStatement hd)
  | ifStatement => exact hquiet (steadily_ifStatement hd)
  | whileStatement => exact hquiet (steadily_whileStatement hd)
  | forStatement => exact hquiet (steadily_forStatement hd)
  | returnStatement =>
    -- the keyword has been passed, and it is the token that a return outside of functions reports
    obtain ⟨-, i, t, hindex, ht, hkind⟩ := hbegins
    refine hquiet (steadily_returnStatement hd fun u hu => ?_)
    rw [hindex, Nat.add_sub_cancel, ht] at hu
    exact Option.some.inj hu ▸ hkind
  | block => exact hquiet (steadily_block hd)
  | statement => exact hquiet ((descent_steady room 0).statement c)
  | variableDeclaration const => exact hquiet (steadily_variableDeclaration hd const)
  | functionDeclaration => exact hquiet (steadily_functionDeclaration hd)
  | declaration => exact hquiet ((descent_steady room 0).declaration c)

end Phrases

/-- **Programs keep their course.** -/
theorem steadily_program (room : Nat) {c : Cursor} :
    Steadily (room + 1 ≤ 8 * c.remaining + 6) (Parse.program (Descent.inRoom room)) c := by
  refine steadily_repeated id fun program c₁ h₁ => ?_
  have hle := h₁.remaining_le
  refine steadily_choice (fun _ _ _ => steadily_pure _) ?_
  refine steadily_bind (((descent_steady room 0).declaration c₁).mono (by omega)) ?_
  exact fun _ _ _ _ => steadily_pure _

/-! ### Whole sources -/

/-- **How a phrase fails:** in front of a token, which it complains about unless that is a return,
having gone no way back and being inside of as many functions. -/
structure Phrase.Fails (c : Cursor) (e : SyntaxError) (c' : Cursor) : Prop where
  onward : Onward 0 c c'
  inside : c'.index < c'.tokens.size
  complains : e.IsComplaint
  isAbout : e.IsAbout c'

section Sources

variable {source : String} {tokens : Array Token} {room : Nat}

theorem ready_of_tokenize (h : tokenize source = .ok tokens) {c : Cursor} (hc : c.tokens = tokens)
    (hlt : c.index < c.tokens.size) : c.spot.Ready := by
  obtain ⟨body, eof, hlist, heof, -⟩ := tokenize_shape h
  exact ⟨⟨body, eof, by rw [← hlist, ← hc]; rfl, heof⟩, hlt⟩

/-- The token that marks the end is the last one. -/
theorem index_eq_of_eof (h : tokenize source = .ok tokens) {i : Nat} {t : Token}
    (ht : tokens[i]? = some t) (hkind : t.kind = .eof) : i + 1 = tokens.size := by
  obtain ⟨body, eof, hlist, heof, hbody⟩ := tokenize_shape h
  have hsize : tokens.size = body.length + 1 := by
    rw [← Array.length_toList, hlist, List.length_append, List.length_singleton]
  have hlt := (Array.getElem?_eq_some_iff.1 ht).1
  by_contra hne
  -- it would be one of the tokens in front of the last one
  rw [← Array.getElem?_toList, hlist, List.getElem?_append_left (by omega)] at ht
  exact (hbody t (List.mem_of_getElem? ht)).1 hkind

/-- A token that is complained about is there. -/
theorem lt_size_of_isAbout (h : tokenize source = .ok tokens) {c : Cursor} (hc : c.tokens = tokens)
    {e : SyntaxError} (he : e.IsComplaint) (habout : e.IsAbout c) : c.index < c.tokens.size := by
  cases e with
  | complaint t about => exact (Array.getElem?_eq_some_iff.1 habout).1
  | topLevelReturn keyword =>
    obtain ⟨hkeyword, hkind⟩ := habout
    have hlt := (Array.getElem?_eq_some_iff.1 hkeyword).1
    by_contra hge
    -- the keyword would be the last token
    obtain ⟨body, eof, hlist, heof, -⟩ := tokenize_shape h
    have hsize : c.tokens.size = body.length + 1 := by
      rw [hc, ← Array.length_toList, hlist, List.length_append, List.length_singleton]
    have hlast : c.index - 1 = body.length := by omega
    rw [hc, ← Array.getElem?_toList, hlist, hlast, List.getElem?_concat_length] at hkeyword
    rw [← Option.some.inj hkeyword, heof] at hkind
    contradiction
  | _ => exact he.elim

/-- **Every phrase of a source** ends in front of a token. -/
theorem outcome_phrase (h : tokenize source = .ok tokens) (room : Nat) {phrase : Phrase} {c : Cursor}
    (hc : c.tokens = tokens) (hbegins : phrase.Begins c) :
    Outcome (fun _ c' => Onward phrase.passed c c' ∧ c'.index < c'.tokens.size)
      (fun e c' => Phrase.Fails c e c') (phrase.walk (Descent.inRoom room) c) := by
  have hs : c.spot.Ready := ready_of_tokenize h hc hbegins.1
  have hsafely := safely_phrase (descent_safe room) hs hbegins c.visits
  have hsteadily := steadily_phrase room hbegins
  change Outcome _ _ (phrase.walk (Descent.inRoom room) c) at hsafely
  unfold Steadily at hsteadily
  cases hwalk : phrase.walk (Descent.inRoom room) c with
  | ok a c' =>
    rw [hwalk] at hsafely hsteadily
    exact ⟨⟨hsteadily.tokens_eq, hsteadily.depth_eq, hsafely.2⟩, hsafely.1.ready.lt⟩
  | error e c' =>
    rw [hwalk] at hsafely hsteadily
    obtain ⟨honward, habout, -⟩ := hsteadily
    exact ⟨honward, lt_size_of_isAbout h (honward.tokens_eq.trans hc) hsafely habout, hsafely, habout⟩

/-- **A whole source** is read up to its end, or up to the token that is complained about. -/
theorem outcome_program (h : tokenize source = .ok tokens) (room : Nat) :
    Outcome (fun _ c' => c'.index = tokens.size ∧ c'.functionDepth = 0)
      (fun e c' => Phrase.Fails (Cursor.start tokens) e c' ∧
        (e.IsNesting → room < 8 * tokens.size + 6))
      (Parse.program (Descent.inRoom room) (Cursor.start tokens)) := by
  obtain ⟨body, eof, hlist, -, -⟩ := tokenize_shape h
  have hpos : 0 < tokens.size := by
    rw [← Array.length_toList, hlist, List.length_append]
    exact Nat.succ_pos _
  have hs : (Cursor.start tokens).spot.Ready := ready_of_tokenize h rfl hpos
  have hsafely := safely_program (descent_safe room) hs []
  have hsteadily := steadily_program room (c := Cursor.start tokens)
  change Outcome _ _ (Parse.program (Descent.inRoom room) (Cursor.start tokens)) at hsafely
  unfold Steadily at hsteadily
  cases hwalk : Parse.program (Descent.inRoom room) (Cursor.start tokens) with
  | ok program c' =>
    rw [hwalk] at hsafely hsteadily
    obtain ⟨s₁, t, hreaches, ht, hkind, hend⟩ := hsafely
    refine ⟨?_, hsteadily.depth_eq⟩
    -- the loop has passed the token that marks the end
    have htokens : s₁.tokens = tokens := hreaches.tokens_eq
    rw [Spot.next?, htokens] at ht
    have hindex : c'.index = s₁.index + 1 := congrArg Spot.index hend
    rw [hindex, index_eq_of_eof h ht hkind]
  | error e c' =>
    rw [hwalk] at hsafely hsteadily
    obtain ⟨honward, habout, hnesting⟩ := hsteadily
    have hinside := lt_size_of_isAbout h honward.tokens_eq hsafely habout
    exact ⟨⟨honward, hinside, hsafely, habout⟩, fun hn => Nat.lt_of_succ_le (hnesting hn)⟩

/-- **In room enough for its tokens** a source is read alike, however much room there is. -/
theorem reading_settles (h : tokenize source = .ok tokens) {room : Nat}
    (hroom : 8 * tokens.size + 6 ≤ room) :
    (Reading.ofTokens room tokens).statements =
      (Reading.ofTokens (8 * tokens.size + 6) tokens).statements := by
  have houtcome := outcome_program h (8 * tokens.size + 6)
  cases hwalk : Parse.program (Descent.inRoom (8 * tokens.size + 6)) (Cursor.start tokens) with
  | ok program c =>
    -- what is read in this much room is read in more
    have hread := reading_eq_ok_iff.2 ⟨c, hwalk⟩
    have hparse := parse_more_room (parse_eq_ok_of_reading h hread) hroom
    obtain ⟨tokens', c', htokens', hread'⟩ := parse_eq_ok_iff.1 hparse
    obtain rfl := Except.ok.inj (h.symm.trans htokens')
    rw [hread, reading_eq_ok_iff.2 ⟨c', hread'⟩]
  | error e c =>
    rw [hwalk] at houtcome
    -- a complaint about the nesting would want more room, so that this one is about the tokens
    obtain ⟨hfails, hnesting⟩ := houtcome
    have he : e.IsRejection := SyntaxError.isRejection_iff.2
      ⟨hfails.complains, fun hn => Nat.lt_irrefl _ (hnesting hn)⟩
    rw [reading_eq_error_iff.2 ⟨c, hwalk⟩]
    have hlist : Parse.program (Descent.inRoom (8 * tokens.size + 6))
        (Cursor.start tokens.toList.toArray) = .error e c := hwalk
    exact reading_eq_error_of_agree hlist he (fun i _ => (Array.getElem?_toList ..).symm)
      hroom

end Sources

/-- **The parser keeps to its tokens and always ends.** In every room, each production ends in front
of a token of the source if it begins in front of one, no farther back and inside of as many
functions, whether it succeeds or fails; expressions, statements and declarations pass a token if they
succeed. If it fails, it complains about a token of the source, and nothing else goes wrong. The loop
over all declarations ends behind the last token, or fails in the same way. In room enough for the
tokens of the source there is no complaint about the nesting, and more room makes no difference. -/
theorem parser_keeps_course {source : String} {tokens : Array Token}
    (h : tokenize source = .ok tokens) :
    (∀ (room : Nat) (phrase : Phrase) (c : Cursor), c.tokens = tokens → phrase.Begins c →
      Outcome (fun _ c' => Onward phrase.passed c c' ∧ c'.index < c'.tokens.size)
        (fun e c' => Phrase.Fails c e c') (phrase.walk (Descent.inRoom room) c)) ∧
    (∀ room : Nat, Outcome (fun _ c' => c'.index = tokens.size ∧ c'.functionDepth = 0)
      (fun e c' => Phrase.Fails (Cursor.start tokens) e c' ∧
        (e.IsNesting → room < 8 * tokens.size + 6))
      (Parse.program (Descent.inRoom room) (Cursor.start tokens))) ∧
    ∀ room : Nat, 8 * tokens.size + 6 ≤ room →
      (Reading.ofTokens room tokens).statements =
        (Reading.ofTokens (8 * tokens.size + 6) tokens).statements :=
  ⟨fun room _ _ hc hbegins => outcome_phrase h room hc hbegins, outcome_program h,
    fun _ hroom => reading_settles h hroom⟩

/-- A source with a return outside all functions, and the variable in it. -/
theorem parser_keeps_course_return :
    let keyword : Token := ⟨.returnWord, "return", none, 0, 1⟩
    let name : Token := ⟨.identifier, "a", none, 7, 1⟩
    let semicolon : Token := ⟨.semicolon, ";", none, 8, 1⟩
    let eof : Token := ⟨.eof, "", none, 9, 1⟩
    let tokens : Array Token := #[keyword, name, semicolon, eof]
    let c : Cursor := ⟨tokens, 2, 0, []⟩
    tokenize "return a;" = .ok tokens ∧ (Phrase.variableName true).Begins c ∧
    Outcome (fun _ c' => Onward 0 c c' ∧ c'.index < c'.tokens.size)
      (fun e c' => Phrase.Fails c e c') ((Phrase.variableName true).walk (Descent.inRoom 3) c) ∧
    Outcome (fun _ c' => c'.index = 4 ∧ c'.functionDepth = 0)
      (fun e c' => Phrase.Fails (Cursor.start tokens) e c' ∧ (e.IsNesting → 10 < 38))
      (Parse.program (Descent.inRoom 10) (Cursor.start tokens)) ∧
    (Reading.ofTokens 100 tokens).statements = (Reading.ofTokens 38 tokens).statements := by
  intro keyword name semicolon eof tokens c
  have htokens : tokenize "return a;" = .ok tokens := rfl
  have hbegins : (Phrase.variableName true).Begins c := by
    refine ⟨by decide, 1, name, rfl, rfl, rfl⟩
  obtain ⟨hphrase, hprogram, hsettles⟩ := parser_keeps_course htokens
  exact ⟨htokens, hbegins, hphrase 3 _ c rfl hbegins, hprogram 10, hsettles 100 (by decide)⟩

end Lox
