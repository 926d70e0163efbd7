import Lox.Proofs.Grammar.Completeness
import Lox.Proofs.Grammar.Rejection.Statement

/-!
# The first impossible token

The token that a syntax error reports is the first one that is impossible where it stands. With this
token, nothing that follows saves the source: every list of tokens that begins alike fails with the
same error. Without it, the tokens in front of it can be continued, unless there are too many items
between commas. So a source fails at its end exactly if it could still be completed.

* `program_fails_alike`, `program_succeeds_alike` — programs on two sides of a fork;
* `exists_completion` — the tokens in front of the one that is reported are continued;
* `FirstImpossible`, `rejected_at_first_impossible` — the statement for whole lists of tokens.
-/

namespace Lox

/-! ### Programs at a fork -/

section Fork

variable {f : Fork} {room room' : Nat} {e e' : SyntaxError} {c : Cursor}

/-- **A program that fails in front of the fork** fails on the other side as well. -/
theorem program_fails_alike (hroom : room ≤ room')
    (h : Parse.program (Descent.inRoom room) (Cursor.start f.left) = .error e c)
    (he : e.IsRejection) (hlt : e.decisive c.index < f.length) :
    f.FailsLike e c.index (Parse.program (Descent.inRoom room') (Cursor.start f.right)) := by
  have hagrees := Fork.agrees_program (descents_agree f hroom)
  exact (hagrees.error _ e c h he).2 (Cursor.start f.right) ⟨rfl, rfl, rfl, rfl⟩ hlt

/-- **A program that ends in front of the fork** is a program on the other side as well. -/
theorem program_succeeds_alike (hroom : room ≤ room') {program : List Stmt}
    (h : Parse.program (Descent.inRoom room) (Cursor.start f.left) = .ok program c)
    (hlt : c.index < f.length) :
    ∃ program' c', Parse.program (Descent.inRoom room') (Cursor.start f.right) =
      .ok program' c' := by
  have hagrees := Fork.agrees_program (descents_agree f hroom)
  obtain ⟨program', c', hprogram, -⟩ :=
    (hagrees.ok _ program c h).2 (Cursor.start f.right) ⟨rfl, rfl, rfl, rfl⟩ hlt
  exact ⟨program', c', hprogram⟩

end Fork

/-- The token that an error reports. -/
def SyntaxError.token? : SyntaxError → Option Token
  | .complaint t _ => some t
  | .topLevelReturn t => some t
  | _ => none

/-- The same error is reported at the same place. -/
theorem Fork.SameError.place_eq {f : Fork} {index : Nat} {e e' : SyntaxError}
    (h : f.SameError index e e') : e'.place index = e.place index := by
  cases h <;> rfl

theorem Fork.SameError.isRejection {f : Fork} {index : Nat} {e e' : SyntaxError}
    (h : f.SameError index e e') (he : e.IsRejection) : e'.IsRejection := by
  cases h with
  | complaint about => cases about <;> exact he
  | topLevelReturn => trivial

theorem Fork.SameError.isLimit_iff {f : Fork} {index : Nat} {e e' : SyntaxError}
    (h : f.SameError index e e') : e'.IsLimit ↔ e.IsLimit := by
  cases h <;> exact Iff.rfl

/-- The same error is about the token of its own side. -/
theorem Fork.SameError.token?_eq {f : Fork} {index : Nat} {e e' : SyntaxError}
    (h : f.SameError index e e') :
    ∃ t, f.left[e.place index]? = some t ∧ e.token? = some t := by
  cases h with
  | complaint about ht => exact ⟨_, ht, rfl⟩
  | topLevelReturn ht => exact ⟨_, ht, rfl⟩

/-- If it is about one token, it is one error. -/
theorem Fork.SameError.eq {f : Fork} {index : Nat} {e e' : SyntaxError}
    (h : f.SameError index e e') (hplace : f.right[e.place index]? = f.left[e.place index]?) :
    e' = e := by
  cases h with
  | complaint about ht ht' =>
    change f.right[index]? = f.left[index]? at hplace
    rw [ht, ht'] at hplace
    rw [Option.some.inj hplace]
  | topLevelReturn ht ht' =>
    change f.right[index - 1]? = f.left[index - 1]? at hplace
    rw [ht, ht'] at hplace
    rw [Option.some.inj hplace]

/-- Two lists of tokens that are equal in front of the fork. -/
def Fork.ofEq (left right : Array Token) (length : Nat)
    (h : ∀ i < length, right[i]? = left[i]?) : Fork :=
  ⟨left, right, length, fun i hi => by rw [h i hi]⟩

/-- Two lists of tokens of the same kinds, of which nothing else is known. -/
def Fork.ofKinds (left right : List Token) (length : Nat)
    (h : left.map Token.kind = right.map Token.kind) : Fork where
  left := left.toArray
  right := right.toArray
  length := length
  kind_eq i _ := by
    rw [List.getElem?_toArray, List.getElem?_toArray, ← List.getElem?_map, h, List.getElem?_map]

/-! ### Readings -/

theorem reading_eq_ok_iff {room : Nat} {tokens : Array Token} {program : List Stmt} :
    (Reading.ofTokens room tokens).statements = .ok program ↔
      ∃ c, Parse.program (Descent.inRoom room) (Cursor.start tokens) = .ok program c := by
  unfold Reading.ofTokens
  cases Parse.program (Descent.inRoom room) (Cursor.start tokens) <;> simp

theorem reading_eq_error_iff {room : Nat} {tokens : Array Token} {e : SyntaxError} :
    (Reading.ofTokens room tokens).statements = .error e ↔
      ∃ c, Parse.program (Descent.inRoom room) (Cursor.start tokens) = .error e c := by
  unfold Reading.ofTokens
  cases Parse.program (Descent.inRoom room) (Cursor.start tokens) <;> simp

/-- **Tokens of the same kinds** are as good as others, in at least as much room. -/
theorem reading_succeeds_alike {left right : List Token} {room room' : Nat} {program : List Stmt}
    (hkinds : left.map Token.kind = right.map Token.kind) (hroom : room ≤ room')
    (h : (Reading.ofTokens room left.toArray).statements = .ok program) :
    ∃ program', (Reading.ofTokens room' right.toArray).statements = .ok program' := by
  obtain ⟨c, hprogram⟩ := reading_eq_ok_iff.1 h
  let f := Fork.ofKinds left right (c.index + 1) hkinds
  obtain ⟨program', c', hprogram'⟩ :=
    program_succeeds_alike (f := f) hroom hprogram (Nat.lt_succ_self c.index)
  exact ⟨program', reading_eq_ok_iff.2 ⟨c', hprogram'⟩⟩

/-! ### Continuations -/

/-- A token with a value of its kind. -/
def Token.withValue (t : Token) : Token :=
  match t.kind with
  | .number => { t with value := some (.number 0) }
  | .string => { t with value := some (.string "") }
  | _ => t

theorem Token.kind_withValue (t : Token) : t.withValue.kind = t.kind := by
  unfold Token.withValue
  split <;> rfl

theorem Token.valued_withValue (t : Token) : t.withValue.Valued := by
  unfold Token.withValue
  split
  next hkind => exact ⟨fun _ => ⟨0, rfl⟩, by simp [hkind]⟩
  next hkind => exact ⟨by simp [hkind], fun _ => ⟨"", rfl⟩⟩
  next hnumber hstring => exact ⟨fun h => absurd h hnumber, fun h => absurd h hstring⟩

/-- A token that a mark is written as. -/
def Mark.write : Mark → Token
  | .token t => t
  | .word kind => ⟨kind, "", none, 0, 1⟩
  | .literal value => ⟨Mark.kindOf value, "", some value, 0, 1⟩

theorem Mark.fits_write (m : Mark) : m.Fits m.write := by
  cases m with
  | token t => rfl
  | word kind => rfl
  | literal value => exact ⟨rfl, fun _ => rfl⟩

/-- Whatever is marked can be written. -/
theorem Mark.forall_fits_write (ms : List Mark) :
    List.Forall₂ Mark.Fits ms (ms.map Mark.write) := by
  induction ms with
  | nil => exact .nil
  | cons m ms ih => exact .cons m.fits_write ih

section Continuation

variable {room : Nat} {tokens : List Token} {e : SyntaxError} {c : Cursor}

/-- **The tokens in front of the one that is reported** begin the written form of a program. -/
theorem exists_program_of_valued (hvalued : ∀ t ∈ tokens, t.Valued)
    (h : Parse.program (Descent.inRoom room) (Cursor.start tokens.toArray) = .error e c)
    (he : e.IsRejection) (hlimit : ¬ e.IsLimit) :
    ∃ program more, Stmt.AllNormal false program ∧
      List.Forall₂ Mark.Fits (Stmt.listMarks program) (tokens.take (e.place c.index) ++ more) := by
  let s : Spot := ⟨tokens.toArray, 0, 0⟩
  have hs : s.Lexed := fun t ht => hvalued t (Array.mem_toList_iff.2 ht)
  have hmends := mends_program (descent_mends room) hs []
  change Outcome _ _ (Parse.program (Descent.inRoom room) (Cursor.start tokens.toArray)) at hmends
  rw [h] at hmends
  obtain ⟨ms, more, s', hpassed, hindex, program, hnormal, hmarks⟩ := hmends he hlimit
  -- the marks that have been passed are those of the tokens in front of the one that is reported
  obtain ⟨ts, hrest, hfits⟩ := hpassed.fits
  have hlength : e.place c.index = ts.length := by
    have hstart : s'.index = 0 + ms.length := hpassed.index_eq
    rw [← hindex, hstart, Nat.zero_add, hfits.length_eq]
  have htake : tokens.take (e.place c.index) = ts := by
    have htokens : tokens = ts ++ s'.rest := hrest
    rw [htokens, hlength, List.take_left]
  refine ⟨program, more.map Mark.write, hnormal, ?_⟩
  rw [hmarks, htake]
  exact List.rel_append hfits (Mark.forall_fits_write more)

/-- **The tokens in front of the one that is reported can be continued,** up to any end. Whether a
literal among them has a value makes no difference. -/
theorem exists_completion {eof : Token} (heof : eof.kind = .eof)
    (h : Parse.program (Descent.inRoom room) (Cursor.start tokens.toArray) = .error e c)
    (he : e.IsRejection) (hlimit : ¬ e.IsLimit) :
    ∃ more need, ∀ room', need ≤ room' → ∃ program,
      (Reading.ofTokens room' (tokens.take (e.place c.index) ++ more ++ [eof]).toArray).statements =
        .ok program := by
  -- the same tokens with values fail at the same place
  have hkinds : tokens.map Token.kind = (tokens.map Token.withValue).map Token.kind := by
    rw [List.map_map]
    exact List.map_congr_left fun t _ => t.kind_withValue.symm
  let f := Fork.ofKinds tokens (tokens.map Token.withValue) (e.place c.index + 1) hkinds
  have hdecisive : e.decisive c.index < f.length :=
    Nat.lt_succ_of_le (SyntaxError.decisive_le_place c.index e)
  obtain ⟨e', c', h', hindex, hsame⟩ :=
    program_fails_alike (f := f) (Nat.le_refl room) h he hdecisive
  have hsame := hsame (Nat.lt_succ_self _)
  have hvalued : ∀ t ∈ tokens.map Token.withValue, t.Valued := by
    intro t ht
    obtain ⟨u, -, rfl⟩ := List.mem_map.1 ht
    exact u.valued_withValue
  obtain ⟨program, more, hnormal, hfits⟩ := exists_program_of_valued hvalued h'
    (hsame.isRejection he) fun hlimit' => hlimit (hsame.isLimit_iff.1 hlimit')
  rw [hindex, hsame.place_eq] at hfits
  refine ⟨more, 8 * sizeOf program, fun room' hneed => ?_⟩
  obtain hreading | ⟨hlt, -⟩ := reading_of_normal hnormal hfits heof room'
  · refine reading_succeeds_alike ?_ (Nat.le_refl room') hreading
    simp only [List.map_append, List.map_take, hkinds]
  · omega

end Continuation

/-! ### The token that is reported -/

/-- **The first impossible token.** In some room, a list of tokens up to its end has been rejected
with an error that is about the token at index `k`. -/
structure FirstImpossible (room : Nat) (body : List Token) (eof : Token) (e : SyntaxError)
    (k : Nat) : Prop where
  /-- The error reports the token at this index. -/
  reported : ∃ t, (body ++ [eof])[k]? = some t ∧ e.token? = some t
  /-- With this token, no continuation saves what is in front of it. -/
  impossible : ∀ others : Array Token, (∀ i ≤ k, others[i]? = (body ++ [eof])[i]?) →
    ∀ room', room ≤ room' → (Reading.ofTokens room' others).statements = .error e
  /-- Without it, some continuation does, unless a limit is exceeded. -/
  possible : ¬ e.IsLimit → ∃ more need, ∀ room', need ≤ room' → ∃ program,
    (Reading.ofTokens room' (body.take k ++ more ++ [eof]).toArray).statements = .ok program
  /-- It is the end that is impossible exactly if the whole source can be continued. -/
  atEnd : k = body.length ∧ ¬ e.IsLimit ↔ ∃ more room' program,
    (Reading.ofTokens room' (body ++ more).toArray).statements = .ok program

section Report

variable {room : Nat} {body : List Token} {eof : Token} {e : SyntaxError} {c : Cursor}

/-- **The error is about the token at the place** that it is reported for. -/
theorem exists_reported {tokens : List Token}
    (h : Parse.program (Descent.inRoom room) (Cursor.start tokens.toArray) = .error e c)
    (he : e.IsRejection) : ∃ t, tokens[e.place c.index]? = some t ∧ e.token? = some t := by
  -- nothing is different on the other side of this fork
  let f := Fork.ofKinds tokens tokens (e.place c.index + 1) rfl
  have hdecisive : e.decisive c.index < f.length :=
    Nat.lt_succ_of_le (SyntaxError.decisive_le_place c.index e)
  obtain ⟨e', c', -, -, hsame⟩ := program_fails_alike (f := f) (Nat.le_refl room) h he hdecisive
  obtain ⟨t, ht, htoken⟩ := (hsame (Nat.lt_succ_self _)).token?_eq
  exact ⟨t, by rw [← ht]; exact (List.getElem?_toArray ..).symm, htoken⟩

/-- **Whatever follows the token that is reported,** the error is the same. -/
theorem reading_eq_error_of_agree {tokens : List Token} {others : Array Token} {room' : Nat}
    (h : Parse.program (Descent.inRoom room) (Cursor.start tokens.toArray) = .error e c)
    (he : e.IsRejection) (hothers : ∀ i ≤ e.place c.index, others[i]? = tokens[i]?)
    (hroom : room ≤ room') : (Reading.ofTokens room' others).statements = .error e := by
  have hfront : ∀ i < e.place c.index + 1, others[i]? = tokens.toArray[i]? := fun i hi => by
    rw [hothers i (Nat.le_of_lt_succ hi), List.getElem?_toArray]
  let f := Fork.ofEq tokens.toArray others (e.place c.index + 1) hfront
  have hdecisive : e.decisive c.index < f.length :=
    Nat.lt_succ_of_le (SyntaxError.decisive_le_place c.index e)
  obtain ⟨e', c', h', -, hsame⟩ := program_fails_alike (f := f) hroom h he hdecisive
  have hplace := hfront _ (Nat.lt_succ_self _)
  obtain rfl : e' = e := (hsame (Nat.lt_succ_self _)).eq hplace
  exact reading_eq_error_iff.2 ⟨c', h'⟩

/-- An empty source is a program. -/
theorem program_nil {d : Descent} (heof : eof.kind = .eof) :
    ∃ c, Parse.program d (Cursor.start #[eof]) = .ok [] c := by
  have hnext : (Cursor.start #[eof]).tokens[(Cursor.start #[eof]).index]? = some eof := rfl
  refine ⟨⟨#[eof], 1, 0, []⟩, ?_⟩
  have hone : (Cursor.start #[eof]).remaining = 0 + 1 := rfl
  rw [Parse.program, Parse.repeated, get_bind_apply, hone, iterate,
    Fork.choice_of_getElem? hnext, if_pos heof]
  rfl

/-- **Only at the end** is a token decided on that a continuation can leave out. -/
theorem length_le_decisive {more : List Token} {room' : Nat} {program : List Stmt}
    (h : Parse.program (Descent.inRoom room) (Cursor.start (body ++ [eof]).toArray) = .error e c)
    (he : e.IsRejection)
    (hmore : (Reading.ofTokens room' (body ++ more).toArray).statements = .ok program) :
    body.length ≤ e.decisive c.index := by
  by_contra hlt
  have hfront : ∀ i < body.length, (body ++ more).toArray[i]? = (body ++ [eof]).toArray[i]? := by
    intro i hi
    rw [List.getElem?_toArray, List.getElem?_toArray, List.getElem?_append_left hi,
      List.getElem?_append_left hi]
  let f := Fork.ofEq (body ++ [eof]).toArray (body ++ more).toArray body.length hfront
  -- in room enough for both, the continuation is rejected and accepted
  obtain ⟨e', c', h', -⟩ := program_fails_alike (f := f) (Nat.le_max_left room room') h he
    (Nat.lt_of_not_le hlt)
  obtain ⟨program', hmore'⟩ := reading_succeeds_alike rfl (Nat.le_max_right room room') hmore
  have hfails : (Reading.ofTokens (max room room') (body ++ more).toArray).statements = .error e' :=
    reading_eq_error_iff.2 ⟨c', h'⟩
  rw [hfails] at hmore'
  contradiction

/-- **A limit is not exceeded by the end,** but by a comma in front of it. -/
theorem not_isLimit_of_length_le (heof : eof.kind = .eof)
    (h : Parse.program (Descent.inRoom room) (Cursor.start (body ++ [eof]).toArray) = .error e c)
    (hplace : e.place c.index ≤ body.length) (hdecisive : body.length ≤ e.decisive c.index) :
    ¬ e.IsLimit := by
  intro hlimit
  cases e with
  | complaint t about =>
    have hback : (SyntaxError.complaint t about).decisive c.index = c.index - 1 := by
      cases about <;> first | rfl | contradiction
    have hindex : c.index ≤ body.length := hplace
    -- so there is no token in front of the end, and nothing to complain about
    obtain rfl : body = [] := List.eq_nil_of_length_eq_zero (by omega)
    obtain ⟨c', hprogram⟩ := program_nil (d := Descent.inRoom room) heof
    have h : Parse.program (Descent.inRoom room) (Cursor.start #[eof]) = .error _ c := h
    rw [hprogram] at h
    contradiction
  | _ => contradiction

/-- **The token that is reported is the first impossible one.** -/
theorem rejected_at_first_impossible (heof : eof.kind = .eof)
    (h : Parse.program (Descent.inRoom room) (Cursor.start (body ++ [eof]).toArray) = .error e c)
    (hnesting : ¬ e.IsNesting) : FirstImpossible room body eof e (e.place c.index) := by
  have he : e.IsRejection :=
    SyntaxError.isRejection_iff.2 ⟨isComplaint_of_program heof h, hnesting⟩
  obtain ⟨t, ht, htoken⟩ := exists_reported h he
  -- the place is in the body, or it is that of the end
  have hplace : e.place c.index ≤ body.length := by
    have hlt := (List.getElem?_eq_some_iff.1 ht).1
    rw [List.length_append] at hlt
    exact Nat.le_of_lt_succ hlt
  -- in front of the end, the tokens up to the one that is reported are those of the body
  have htake : (body ++ [eof]).take (e.place c.index) = body.take (e.place c.index) :=
    List.take_append_of_le_length hplace
  have hpossible : ¬ e.IsLimit → ∃ more need, ∀ room', need ≤ room' → ∃ program,
      (Reading.ofTokens room' (body.take (e.place c.index) ++ more ++ [eof]).toArray).statements =
        .ok program := by
    intro hlimit
    rw [← htake]
    exact exists_completion heof h he hlimit
  refine ⟨⟨t, ht, htoken⟩, fun others hothers room' hroom =>
    reading_eq_error_of_agree h he hothers hroom, hpossible, ?_, ?_⟩
  · rintro ⟨hend, hlimit⟩
    obtain ⟨more, need, hprogram⟩ := hpossible hlimit
    obtain ⟨program, hprogram⟩ := hprogram need (Nat.le_refl need)
    -- a place at the end means that the whole body can be completed
    rw [hend, List.take_length, List.append_assoc] at hprogram
    exact ⟨more ++ [eof], need, program, hprogram⟩
  · rintro ⟨more, room', program, hprogram⟩
    -- what can be completed is not decided against before its end
    have hdecisive := length_le_decisive h he hprogram
    refine ⟨?_, not_isLimit_of_length_le heof h hplace hdecisive⟩
    exact Nat.le_antisymm hplace
      (Nat.le_trans hdecisive (SyntaxError.decisive_le_place c.index e))

end Report

/-- The tokens of `a + ;`, of which the semicolon is the first impossible one. -/
theorem rejected_at_first_impossible_operand :
    let a : Token := ⟨.identifier, "a", none, 0, 1⟩
    let plus : Token := ⟨.plus, "+", none, 2, 1⟩
    let semicolon : Token := ⟨.semicolon, ";", none, 4, 1⟩
    let eof : Token := ⟨.eof, "", none, 5, 1⟩
    let e : SyntaxError := .complaint semicolon (.expected "expression")
    ∃ c, Parse.program (Descent.inRoom 40) (Cursor.start ([a, plus, semicolon] ++ [eof]).toArray) =
        .error e c ∧
      eof.kind = .eof ∧ ¬ e.IsNesting ∧ e.place c.index = 2 ∧
      FirstImpossible 40 [a, plus, semicolon] eof e 2 := by
  intro a plus semicolon eof e
  have hfails : ∃ c, Parse.program (Descent.inRoom 40)
      (Cursor.start ([a, plus, semicolon] ++ [eof]).toArray) = .error e c ∧ e.place c.index = 2 :=
    ⟨_, rfl, rfl⟩
  obtain ⟨c, h, hplace⟩ := hfails
  have hnesting : ¬ e.IsNesting := by simp [SyntaxError.IsNesting, e]
  exact ⟨c, h, rfl, hnesting, hplace, hplace ▸ rejected_at_first_impossible rfl h hnesting⟩

end Lox
