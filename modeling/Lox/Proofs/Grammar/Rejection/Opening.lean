import Lox.Proofs.Grammar.Rejection.Fork
import Lox.Proofs.Grammar.Soundness.Statement

/-!
# What can still be completed

A walk that fails in front of some token has passed others, and all of them are good for something:
with more tokens behind them they are a whole construct. The limits are left out, which have been
exceeded by then.

* `Opens` — the tokens passed so far can be completed;
* `Mends` — what is said of a walk that fails, with one rule for every move of a cursor;
* `Mends.within` — an inner construct that is completed completes the outer one.
-/

namespace Lox

/-! ### Tokens that can be completed -/

/-- **The beginning of something that is wanted.** The tokens up to an index fit marks, and more
marks make the whole of them. -/
def Opens (want : List Mark → Prop) (s : Spot) (index : Nat) : Prop :=
  ∃ ms more s', Passed s ms s' ∧ s'.index = index ∧ want (ms ++ more)

variable {want want' : List Mark → Prop} {s s' : Spot} {front : List Mark}

/-- What has been passed, and what makes it whole. -/
theorem Opens.of_passed (h : Passed s front s') (more : List Mark) (hwant : want (front ++ more)) :
    Opens want s s'.index := ⟨front, more, s', h, rfl, hwant⟩

/-- **A part that can be completed** is enough, if that completes the whole up to some tail. -/
theorem Opens.within {index : Nat} (h : Opens want' s' index) (hfront : Passed s front s')
    (hwant : ∀ ms, want' ms → ∃ tail, want (front ++ ms ++ tail)) : Opens want s index := by
  obtain ⟨ms, more, s₁, hpassed, hindex, hwhole⟩ := h
  obtain ⟨tail, htail⟩ := hwant _ hwhole
  refine ⟨front ++ ms, more ++ tail, s₁, hfront.trans hpassed, hindex, ?_⟩
  simpa only [List.append_assoc] using htail

/-! ### Walks that fail -/

variable {α β γ : Type} {origin : Spot}

/-- **What is said of a walk that fails:** that the tokens from the `origin` of a construct up to
the one that is reported can be completed. A walk that is cut short, or exceeds a limit, says
nothing. -/
def Mends (want : List Mark → Prop) (origin : Spot) (walk : Parse α) (s : Spot) : Prop :=
  ∀ visits, Outcome (fun _ _ => True)
    (fun e c => e.IsRejection → ¬ e.IsLimit → Opens want origin (e.place c.index))
    (walk (s.cursor visits))

/-- **A construct within another one.** -/
theorem Mends.within {inner : Spot} {walk : Parse α} (h : Mends want' inner walk s)
    (hfront : Passed origin front inner)
    (hwant : ∀ ms, want' ms → ∃ tail, want (front ++ ms ++ tail)) : Mends want origin walk s :=
  fun visits => Outcome.mono (h visits) (fun _ _ _ => trivial)
    fun _ _ hopens he hlimit => (hopens he hlimit).within hfront hwant

theorem Mends.mono {walk : Parse α} (h : Mends want' origin walk s)
    (hwant : ∀ ms, want' ms → want ms) : Mends want origin walk s :=
  h.within (Passed.refl origin) fun ms hms => ⟨[], by simpa using hwant ms hms⟩

theorem mends_pure (a : α) (s : Spot) : Mends want origin (pure a) s := fun _ => trivial

/-- A walk that fails of its own accord says nothing. -/
theorem mends_throw {e : SyntaxError} (he : ¬ e.IsRejection) (s : Spot) :
    Mends want origin (throw e : Parse α) s := fun _ he' => absurd he' he

/-- A walk may find anything. -/
theorem finds_anything (walk : Parse α) (s : Spot) : Finds (fun _ _ => True) walk s := by
  intro visits
  cases walk (s.cursor visits) <;> trivial

/-- **One walk after the other.** What the first one finds is known when the second one fails. -/
theorem mends_bind {said : β → Spot → Prop} {walk : Parse β} {next : β → Parse α}
    (hfinds : Finds said walk s) (hwalk : Mends want origin walk s)
    (hnext : ∀ b s', said b s' → Mends want origin (next b) s') :
    Mends want origin (walk >>= next) s := by
  intro visits
  have hfound := hfinds visits
  have hmends := hwalk visits
  refine outcome_bind ?_
  cases hresult : walk (s.cursor visits) with
  | ok b c =>
    rw [hresult] at hfound
    exact hnext b c.spot hfound c.visits
  | error e c =>
    rw [hresult] at hmends
    exact hmends

/-- A walk whose result is only put into another one. -/
theorem mends_bind_pure {walk : Parse β} {make : β → α} (h : Mends want origin walk s) :
    Mends want origin (walk >>= fun b => pure (make b)) s :=
  mends_bind (finds_anything walk s) h fun b s' _ => mends_pure (make b) s'

/-- **Repetition.** The turn that fails comes after others, which have kept something. -/
theorem mends_repeated {atEnd : SyntaxError} (hatEnd : ¬ atEnd.IsRejection)
    {turn : β → Parse (Turn β α)} {said : α → Spot → Prop} (keeps : β → Spot → Prop)
    (hfinds : ∀ b s', keeps b s' → Finds (Turn.Says keeps said) (turn b) s')
    (hturn : ∀ b s', keeps b s' → Mends want origin (turn b) s') {b : β} (hb : keeps b s) :
    Mends want origin (Parse.repeated atEnd turn b) s := by
  intro visits
  have hstep : ∀ b c, keeps b c.spot →
      Outcome (Turn.Says (fun b c => keeps b c.spot) fun _ _ => True)
        (fun e c => e.IsRejection → ¬ e.IsLimit → Opens want origin (e.place c.index))
        (turn b c) := by
    -- what a turn keeps is said of walks that succeed, and what it mends of those that fail
    intro b c hkeeps
    have hfound := hfinds b c.spot hkeeps c.visits
    have hmends := hturn b c.spot hkeeps c.visits
    change Outcome _ _ (turn b c) at hfound
    change Outcome _ _ (turn b c) at hmends
    cases hresult : turn b c with
    | error e c' =>
      rw [hresult] at hmends
      exact hmends
    | ok result c' =>
      rw [hresult] at hfound
      cases result with
      | again b' => exact hfound
      | done a => trivial
  exact outcome_iterate (fun b c => keeps b c.spot) hstep
    (fun _ _ _ hrejection => absurd hrejection hatEnd) _ b _ hb

/-! ### Moves -/

theorem mends_record (visit : Visit) (s : Spot) :
    Mends want origin (Parse.record visit) s := fun _ => trivial

/-- Visits are not looked at. -/
theorem mends_traced {production : Production} {body : Parse α} (h : Mends want origin body s) :
    Mends want origin (Parse.traced production body) s := by
  rw [Parse.traced_parse]
  refine mends_bind finds_record (mends_record _ s) fun _ s' hs' => ?_
  subst hs'
  refine mends_bind (finds_anything body s') h fun a s'' _ => ?_
  exact mends_bind finds_record (mends_record _ s'') fun _ s''' _ => mends_pure a s'''

theorem mends_advance (s : Spot) : Mends want origin Parse.advance s := fun _ => trivial

/-- A look at the next token is no reason to fail. -/
theorem mends_check (kind : TokenKind) (s : Spot) : Mends want origin (Parse.check kind) s := by
  intro visits
  cases ht : (s.cursor visits).tokens[(s.cursor visits).index]? with
  | none =>
    rw [Fork.check_of_none ht]
    exact fun he => absurd he id
  | some t =>
    rw [Window.check_of_getElem? ht]
    trivial

theorem mends_accept (kind : TokenKind) (s : Spot) : Mends want origin (Parse.accept kind) s := by
  refine mends_bind (finds_check kind) (mends_check kind s) fun b s' _ => ?_
  cases b with
  | false => exact mends_pure false s'
  | true => exact mends_bind finds_advance (mends_advance s') fun _ s'' _ => mends_pure true s''

theorem mends_peek (distance : Int) (s : Spot) : Mends want origin (Parse.peek distance) s := by
  intro visits
  cases hresult : Parse.peek distance (s.cursor visits) with
  | ok t c => trivial
  | error e c =>
    obtain rfl := Fork.peek_eq_error hresult
    exact fun he => absurd he id

theorem mends_previous (s : Spot) : Mends want origin Parse.previous s := mends_peek _ s

/-- **Complaints,** which are about the next token. -/
theorem mends_reject {about : Complaint} (h : about.isLimit = false → Opens want origin s.index) :
    Mends want origin (Parse.reject about : Parse α) s := by
  intro visits
  cases ht : (s.cursor visits).tokens[(s.cursor visits).index]? with
  | none =>
    rw [Fork.reject_of_none ht]
    exact fun he => absurd he id
  | some t =>
    rw [Fork.reject_of_getElem? ht]
    exact fun _ hlimit => h (Bool.eq_false_iff.2 hlimit)

theorem mends_reject_bind {about : Complaint}
    (h : about.isLimit = false → Opens want origin s.index)
    (next : β → Parse α) : Mends want origin (Parse.reject about >>= next) s := by
  have hfinds : Finds (fun _ _ => False) (Parse.reject about : Parse β) s := finds_reject about s
  exact mends_bind hfinds (mends_reject h) fun _ _ hfalse => hfalse.elim

/-- **A token that is expected.** -/
theorem mends_expect {kind : TokenKind} {about : Complaint} (h : Opens want origin s.index) :
    Mends want origin (Parse.expect kind about) s := by
  refine mends_bind (finds_accept kind) (mends_accept kind s) fun b s' ⟨t, _, hb⟩ => ?_
  cases b with
  | false =>
    obtain ⟨-, rfl⟩ := hb
    exact mends_reject fun _ => h
  | true => exact mends_previous s'

/-- What is read behind a token that is expected. -/
theorem mends_expect_bind {kind : TokenKind} {about : Complaint} {next : Token → Parse α}
    (h : Opens want origin s.index)
    (hnext : ∀ t, s.next? = some t → t.kind = kind → Mends want origin (next t) s.advance) :
    Mends want origin (Parse.expect kind about >>= next) s := by
  refine mends_bind (finds_expect kind about) (mends_expect h) fun t s' ⟨ht, hkind, hs'⟩ => ?_
  subst hs'
  exact hnext t ht hkind

/-- **A choice by the next token,** which is passed if it is of the kind. -/
theorem mends_choice {kind : TokenKind} {yes no : Parse α}
    (hyes : ∀ t, s.next? = some t → t.kind = kind → Mends want origin yes s.advance)
    (hno : ∀ t, s.next? = some t → t.kind ≠ kind → Mends want origin no s) :
    Mends want origin (do if ← Parse.accept kind then yes else no) s := by
  refine mends_bind (finds_accept kind) (mends_accept kind s) fun b s' ⟨t, ht, hb⟩ => ?_
  cases b with
  | false =>
    obtain ⟨hkind, rfl⟩ := hb
    exact hno t ht hkind
  | true =>
    obtain ⟨hkind, rfl⟩ := hb
    exact hyes t ht hkind

/-- A choice by the next token, which stays where it is. -/
theorem mends_check_bind {kind : TokenKind} {next : Bool → Parse α}
    (h : ∀ b, Mends want origin (next b) s) : Mends want origin (Parse.check kind >>= next) s := by
  refine mends_bind (finds_check kind) (mends_check kind s) fun b s' ⟨hs', _⟩ => ?_
  subst hs'
  exact h b

/-- The token that was passed last, and what is read behind it. -/
theorem mends_previous_bind {next : Token → Parse α} {t : Token} (ht : s.next? = some t)
    (h : Mends want origin (next t) s.advance) :
    Mends want origin (Parse.previous >>= next) s.advance := by
  refine mends_bind (finds_previous_of ht) (mends_previous s.advance) ?_
  rintro _ _ ⟨rfl, rfl⟩
  exact h

/-- **A walk inside one more function.** -/
theorem mends_insideFunction {body : Parse α} (h : Mends want s.inside body s.inside) :
    Mends want s (Parse.insideFunction body) s := by
  intro visits
  refine outcome_insideFunction (Outcome.mono (h visits) (fun _ _ _ => trivial) ?_)
  intro e c hbody he hlimit
  obtain ⟨ms, more, s', hpassed, hindex, hwant⟩ := hbody he hlimit
  exact ⟨ms, more, s'.outside, hpassed.of_inside, hindex, hwant⟩

end Lox
