import Lox.Grammar.Production
import Lox.Proofs.Grammar.Written
import Lox.Proofs.Outcome
import Mathlib.Data.List.Forall2

/-!
# What a walk passes

The tokens that a walk passes, and what it finds on the way, regardless of the visits that it
records. A walk that passes tokens which fit some marks can be put behind another one, and the marks
add up.

* `Spot` — where a cursor stands, its record left out;
* `Passed` — the tokens between two spots fit some marks;
* `Finds` — what is said of a walk that succeeds, with one rule for every move of a cursor.
-/

namespace Lox

/-- **Where a cursor stands.** Its record of visits is left out. -/
structure Spot where
  tokens : Array Token
  index : Nat
  functionDepth : Nat

namespace Spot

/-- A cursor at this spot. -/
def cursor (s : Spot) (visits : List Visit) : Cursor :=
  ⟨s.tokens, s.index, s.functionDepth, visits⟩

/-- The token that is next. -/
def next? (s : Spot) : Option Token := s.tokens[s.index]?

/-- The tokens from here on. -/
def rest (s : Spot) : List Token := s.tokens.toList.drop s.index

/-- The spot behind the next token. -/
def advance (s : Spot) : Spot := { s with index := s.index + 1 }

/-- Is the spot inside a function? -/
def isInside (s : Spot) : Bool := s.functionDepth != 0

/-- The same spot, inside one more function. -/
def inside (s : Spot) : Spot := { s with functionDepth := s.functionDepth + 1 }

/-- The same spot, inside one function less. -/
def outside (s : Spot) : Spot := { s with functionDepth := s.functionDepth - 1 }

/-- The token that was passed last stands one place back. -/
theorem advance_index_sub_one (s : Spot) : (s.advance.index : Int) + -1 = s.index := by
  change ((s.index + 1 : Nat) : Int) + -1 = s.index
  omega

theorem rest_of_next? {s : Spot} {t : Token} (h : s.next? = some t) :
    s.rest = t :: s.advance.rest := by
  unfold next? at h
  rw [← Array.getElem?_toList, List.getElem?_eq_some_iff] at h
  obtain ⟨hlt, ht⟩ := h
  rw [rest, List.drop_eq_getElem_cons hlt, ht]
  rfl

end Spot

/-- Where a cursor stands. -/
def Cursor.spot (c : Cursor) : Spot := ⟨c.tokens, c.index, c.functionDepth⟩

/-- **A spot is inside of a function** where the cursor has counted one. -/
theorem Cursor.isInside_spot {c : Cursor} (h : c.functionDepth ≠ 0) : c.spot.isInside = true :=
  bne_iff_ne.2 h

/-! ### Tokens between two spots -/

/-- **The tokens between two spots fit the marks.** -/
structure Passed (s : Spot) (ms : List Mark) (s' : Spot) : Prop where
  tokens_eq : s'.tokens = s.tokens
  depth_eq : s'.functionDepth = s.functionDepth
  index_eq : s'.index = s.index + ms.length
  /-- What was ahead of the first spot and is behind the second fits the marks. -/
  fits : ∃ ts, s.rest = ts ++ s'.rest ∧ List.Forall₂ Mark.Fits ms ts

theorem Passed.refl (s : Spot) : Passed s [] s := ⟨rfl, rfl, rfl, [], rfl, .nil⟩

/-- **Marks add up.** -/
theorem Passed.trans {s s' s'' : Spot} {ms ms' : List Mark} (h : Passed s ms s')
    (h' : Passed s' ms' s'') : Passed s (ms ++ ms') s'' := by
  obtain ⟨ts, hrest, hfits⟩ := h.fits
  obtain ⟨ts', hrest', hfits'⟩ := h'.fits
  refine ⟨h'.tokens_eq.trans h.tokens_eq, h'.depth_eq.trans h.depth_eq, ?_, ts ++ ts', ?_,
    List.rel_append hfits hfits'⟩
  · rw [h'.index_eq, h.index_eq, List.length_append, Nat.add_assoc]
  · rw [hrest, hrest', List.append_assoc]

theorem Passed.step {s : Spot} {t : Token} (h : s.next? = some t) {m : Mark} (hm : m.Fits t) :
    Passed s [m] s.advance :=
  ⟨rfl, rfl, rfl, [t], Spot.rest_of_next? h, .cons hm .nil⟩

theorem Passed.eq_of_nil {s s' : Spot} (h : Passed s [] s') : s' = s := by
  obtain ⟨htokens, hdepth, hindex, -⟩ := h
  cases s
  cases s'
  simp_all

/-- **The first token** that is passed fits the first mark. -/
theorem Passed.head {s s' : Spot} {m : Mark} {ms : List Mark} (h : Passed s (m :: ms) s') :
    ∃ t, s.next? = some t ∧ m.Fits t ∧ Passed s.advance ms s' := by
  obtain ⟨ts, hrest, hfits⟩ := h.fits
  cases hfits with
  | @cons _ t _ ts' hm hms =>
    -- the first token that is left is the one that is next
    have hnext : s.next? = some t := by
      rw [Spot.next?, ← Array.getElem?_toList, ← List.head?_drop]
      exact congrArg List.head? hrest
    refine ⟨t, hnext, hm, h.tokens_eq, h.depth_eq, ?_, ts', ?_, hms⟩
    · rw [h.index_eq, List.length_cons, Nat.add_comm ms.length 1, ← Nat.add_assoc]
      rfl
    · rw [Spot.rest_of_next? hnext] at hrest
      exact List.tail_eq_of_cons_eq hrest

/-- **Marks come apart** as they add up. -/
theorem Passed.split {s s'' : Spot} {ms ms' : List Mark} (h : Passed s (ms ++ ms') s'') :
    ∃ s', Passed s ms s' ∧ Passed s' ms' s'' := by
  induction ms generalizing s with
  | nil => exact ⟨s, Passed.refl s, h⟩
  | cons m ms ih =>
    obtain ⟨t, ht, hm, htail⟩ := h.head
    obtain ⟨s', hfirst, hsecond⟩ := ih htail
    exact ⟨s', (Passed.step ht hm).trans hfirst, hsecond⟩

theorem Passed.isInside_eq {s s' : Spot} {ms : List Mark} (h : Passed s ms s') :
    s'.isInside = s.isInside := by
  unfold Spot.isInside
  rw [h.depth_eq]

/-! ### Walks that succeed -/

variable {α β γ : Type} {said : α → Spot → Prop}

/-- **What is said of a walk that succeeds:** of what it finds and of the spot where it ends. The
visits that it meets and makes are not looked at. -/
def Finds (said : α → Spot → Prop) (walk : Parse α) (s : Spot) : Prop :=
  ∀ visits, Outcome (fun a c => said a c.spot) (fun _ _ => True) (walk (s.cursor visits))

theorem Finds.mono {said' : α → Spot → Prop} {walk : Parse α} {s : Spot} (h : Finds said walk s)
    (hsaid : ∀ a s', said a s' → said' a s') : Finds said' walk s :=
  fun visits => Outcome.mono (h visits) (fun a _ ha => hsaid a _ ha) fun _ _ he => he

theorem finds_pure {a : α} {s : Spot} (h : said a s) : Finds said (pure a) s := fun _ => h

/-- A walk that fails says nothing. -/
theorem finds_throw (e : SyntaxError) (s : Spot) : Finds said (throw e) s := fun _ => trivial

/-- A look at the cursor itself. -/
theorem finds_get (s : Spot) :
    Finds (fun c s' => s' = s ∧ c.spot = s) (get : Parse Cursor) s := fun _ => ⟨rfl, rfl⟩

/-- **One walk after the other.** -/
theorem finds_bind {said' : β → Spot → Prop} {walk : Parse β} {next : β → Parse α} {s : Spot}
    (h : Finds said' walk s) (hnext : ∀ b s', said' b s' → Finds said (next b) s') :
    Finds said (walk >>= next) s := by
  intro visits
  refine outcome_bind (Outcome.mono (h visits) ?_ fun _ _ he => he)
  exact fun b c hb => hnext b c.spot hb c.visits

theorem finds_map {said' : β → Spot → Prop} {walk : Parse β} {f : β → α} {s : Spot}
    (h : Finds said' walk s) (hf : ∀ b s', said' b s' → said (f b) s') :
    Finds said (f <$> walk) s := finds_bind h fun b s' hb => finds_pure (hf b s' hb)

/-- A walk that goes on after a failure says nothing either. -/
theorem finds_throw_bind (e : SyntaxError) (next : β → Parse α) (s : Spot) :
    Finds said (throw e >>= next) s := fun _ => trivial

/-- **Repetition** keeps what every turn keeps. -/
theorem finds_repeated {atEnd : SyntaxError} {turn : β → Parse (Turn β α)} {s : Spot}
    (keeps : β → Spot → Prop)
    (hturn : ∀ b s', keeps b s' → Finds (Turn.Says keeps said) (turn b) s') {b : β}
    (hb : keeps b s) : Finds said (Parse.repeated atEnd turn b) s := by
  intro visits
  -- what is kept is said of spots, while the repetition goes from cursor to cursor
  have hstep : ∀ b c, keeps b c.spot →
      Outcome (Turn.Says (fun b c => keeps b c.spot) fun a c => said a c.spot)
        (fun _ _ => True) (turn b c) := by
    intro b c hb
    refine Outcome.mono (hturn b c.spot hb c.visits) ?_ fun _ _ he => he
    intro t c' ht
    cases t <;> exact ht
  exact outcome_iterate (fun b c => keeps b c.spot) hstep (fun _ _ _ => trivial) _ b _ hb

/-! ### Moves -/

theorem finds_record {visit : Visit} {s : Spot} :
    Finds (fun _ s' => s' = s) (Parse.record visit) s := fun _ => rfl

/-- The record of a production changes nothing else. -/
theorem finds_traced {production : Production} {body : Parse α} {s : Spot}
    (h : Finds said body s) : Finds said (Parse.traced production body) s := by
  rw [Parse.traced_parse]
  refine finds_bind finds_record fun _ s' hs' => ?_
  subst hs'
  refine finds_bind h fun a s' ha => ?_
  refine finds_bind finds_record fun _ s'' hs'' => ?_
  subst hs''
  exact finds_pure ha

theorem finds_advance {s : Spot} : Finds (fun _ s' => s' = s.advance) Parse.advance s :=
  fun _ => rfl

/-- Going back, which only a walk does that is about to complain. -/
theorem finds_retreat (s : Spot) : Finds (fun _ _ => True) Parse.retreat s := fun _ => trivial

theorem finds_check (kind : TokenKind) {s : Spot} :
    Finds (fun b s' => s' = s ∧ ∃ t, s.next? = some t ∧ b = (t.kind == kind))
      (Parse.check kind) s := by
  refine finds_bind (finds_get s) ?_
  rintro c s ⟨rfl, hc⟩
  -- the cursor that is looked at stands at this spot
  have hnext : c.tokens[c.index]? = s.next? := congrArg Spot.next? hc
  rw [hnext]
  cases ht : s.next? with
  | none => exact finds_throw _ _
  | some t => exact finds_pure ⟨rfl, t, rfl, rfl⟩

/-- **A walk inside one more function** ends as the walk itself does, with the count set back. -/
theorem outcome_insideFunction {done : α → Cursor → Prop} {failed : SyntaxError → Cursor → Prop}
    {body : Parse α} {c : Cursor}
    (h : Outcome (fun a c₁ => done a { c₁ with functionDepth := c₁.functionDepth - 1 })
      (fun e c₁ => failed e { c₁ with functionDepth := c₁.functionDepth - 1 })
      (body { c with functionDepth := c.functionDepth + 1 })) :
    Outcome done failed (Parse.insideFunction body c) := by
  unfold Parse.insideFunction
  cases hbody : body { c with functionDepth := c.functionDepth + 1 } with
  | ok a c₁ => rw [hbody] at h; exact h
  | error e c₁ => rw [hbody] at h; exact h

theorem finds_insideFunction {body : Parse α} {s : Spot}
    (h : Finds (fun a s' => said a s'.outside) body s.inside) :
    Finds said (Parse.insideFunction body) s := fun visits => outcome_insideFunction (h visits)

/-- A walk inside one more function succeeds where the walk itself does. -/
theorem insideFunction_eq_ok_iff {body : Parse α} {c c₁ : Cursor} {a : α} :
    Parse.insideFunction body c = .ok a c₁ ↔
      ∃ c₂, body { c with functionDepth := c.functionDepth + 1 } = .ok a c₂ ∧
        { c₂ with functionDepth := c₂.functionDepth - 1 } = c₁ := by
  unfold Parse.insideFunction
  cases body { c with functionDepth := c.functionDepth + 1 } <;> simp

/-- It fails where the walk itself does. -/
theorem insideFunction_eq_error_iff {body : Parse α} {c c₁ : Cursor} {e : SyntaxError} :
    Parse.insideFunction body c = .error e c₁ ↔
      ∃ c₂, body { c with functionDepth := c.functionDepth + 1 } = .error e c₂ ∧
        { c₂ with functionDepth := c₂.functionDepth - 1 } = c₁ := by
  unfold Parse.insideFunction
  cases body { c with functionDepth := c.functionDepth + 1 } <;> simp

/-- **What is read at a place** that is not in front of the first token. -/
theorem peek_eq {c : Cursor} {distance : Int} {i : Nat} (h : (c.index : Int) + distance = i) :
    Parse.peek distance c = ((c.tokens[i]?).elim (throw .badIndex) pure : Parse Token) c := by
  have hnonneg : ¬ (c.index : Int) + distance < 0 := by omega
  have hindex : ((c.index : Int) + distance).toNat = i := by omega
  rw [Parse.peek, get_bind_apply, if_neg hnonneg, hindex]
  cases c.tokens[i]? with
  | none => rfl
  | some t => rfl

/-- **The token at a place** where there is one. -/
theorem peek_of_getElem? {c : Cursor} {distance : Int} {i : Nat} {t : Token}
    (h : (c.index : Int) + distance = i) (ht : c.tokens[i]? = some t) :
    Parse.peek distance c = .ok t c := by
  rw [peek_eq h, ht]
  rfl

theorem finds_peek_at {s : Spot} {distance : Int} {i : Nat} (h : (s.index : Int) + distance = i) :
    Finds (fun t s' => s' = s ∧ s.tokens[i]? = some t) (Parse.peek distance) s := by
  intro visits
  rw [peek_eq h]
  change Outcome _ _ ((s.tokens[i]?).elim (throw .badIndex : Parse Token) pure (s.cursor visits))
  cases s.tokens[i]? with
  | none => trivial
  | some t => exact ⟨rfl, rfl⟩

/-- The next token, without passing it. -/
theorem finds_peek {s : Spot} :
    Finds (fun t s' => s' = s ∧ s.next? = some t) (Parse.peek 0) s :=
  finds_peek_at (Int.add_zero (s.index : Int))

/-- The token that was passed last. -/
theorem finds_previous {s : Spot} :
    Finds (fun t s' => s' = s.advance ∧ s.next? = some t) Parse.previous s.advance :=
  finds_peek_at s.advance_index_sub_one

/-- The token that was passed last, when it is known. -/
theorem finds_previous_of {s : Spot} {t : Token} (ht : s.next? = some t) :
    Finds (fun u s' => t = u ∧ s' = s.advance) Parse.previous s.advance := by
  refine finds_previous.mono fun u s' ⟨hs', hu⟩ => ⟨?_, hs'⟩
  exact Option.some.inj (ht.symm.trans hu)

/-- What is known when a token of some kind was or was not next. -/
def Accepted (kind : TokenKind) (s : Spot) (b : Bool) (s' : Spot) : Prop :=
  ∃ t, s.next? = some t ∧ if b then t.kind = kind ∧ s' = s.advance else t.kind ≠ kind ∧ s' = s

theorem finds_accept (kind : TokenKind) {s : Spot} :
    Finds (Accepted kind s) (Parse.accept kind) s := by
  refine finds_bind (finds_check kind) fun b s' ⟨hs', t, ht, hb⟩ => ?_
  subst hs'
  cases b with
  | false => exact finds_pure ⟨t, ht, by simpa using hb.symm, rfl⟩
  | true =>
    refine finds_bind finds_advance fun _ s'' hs'' => ?_
    exact finds_pure ⟨t, ht, by simpa using hb.symm, hs''⟩

/-- **A choice by the next token,** which is passed in one case only. -/
theorem finds_choice {kind : TokenKind} {yes no : Parse α} {s : Spot}
    (hyes : ∀ t, s.next? = some t → t.kind = kind → Finds said yes s.advance)
    (hno : ∀ t, s.next? = some t → t.kind ≠ kind → Finds said no s) :
    Finds said (do if ← Parse.accept kind then yes else no) s := by
  refine finds_bind (finds_accept kind) fun b s' ⟨t, ht, hb⟩ => ?_
  cases b with
  | false =>
    obtain ⟨hkind, rfl⟩ := hb
    exact hno t ht hkind
  | true =>
    obtain ⟨hkind, rfl⟩ := hb
    exact hyes t ht hkind

/-- A walk that complains finds nothing. -/
theorem finds_reject (about : Complaint) (s : Spot) :
    Finds said (Parse.reject about : Parse α) s := by
  -- a complaint needs a token to complain about, and fails without one
  have hcomplaint : Finds (fun _ _ => True) (Parse.complaint about) s :=
    finds_bind finds_peek fun _ _ _ => finds_pure trivial
  exact finds_bind hcomplaint fun _ _ _ => finds_throw _ _

/-- A walk that goes on after a complaint finds nothing either. -/
theorem finds_reject_bind (about : Complaint) (next : β → Parse α) (s : Spot) :
    Finds said (Parse.reject about >>= next) s := by
  have hreject : Finds (fun _ _ => False) (Parse.reject about : Parse β) s := finds_reject about s
  exact finds_bind hreject fun _ _ hfalse => hfalse.elim

/-- **The next token is looked at** before it is passed, and once more afterwards. -/
theorem expect_eq_check (kind : TokenKind) (about : Complaint) :
    Parse.expect kind about = Parse.check kind >>= fun b =>
      if b then Parse.advance >>= fun _ => Parse.previous else Parse.reject about := by
  rw [Parse.expect, Parse.accept, bind_assoc]
  refine congrArg (Parse.check kind >>= ·) (funext fun b => ?_)
  cases b <;> rfl

theorem finds_expect (kind : TokenKind) (about : Complaint) {s : Spot} :
    Finds (fun t s' => s.next? = some t ∧ t.kind = kind ∧ s' = s.advance)
      (Parse.expect kind about) s := by
  refine finds_bind (finds_accept kind) fun b s' ⟨t, ht, hb⟩ => ?_
  cases b with
  | false => exact finds_reject about s'
  | true =>
    obtain ⟨hkind, rfl⟩ := hb
    refine (finds_previous_of ht).mono fun u s'' ⟨hu, hs''⟩ => ?_
    subst hu
    exact ⟨ht, hkind, hs''⟩

end Lox
