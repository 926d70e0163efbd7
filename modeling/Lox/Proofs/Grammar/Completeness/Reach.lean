import Lox.Proofs.Grammar.Walk

/-!
# What a walk reaches

A walk that is bound to succeed, with a known result at a known spot. The one excuse for a failure
is that there is no room left, and it can only be used as long as there really is less room than the
walk needs.

* `Reaches` — the statement, with one rule for every move of a cursor;
* `Loops` — the same about a repetition, from one of its turns on.
-/

namespace Lox

variable {α β γ : Type} {excuse : Prop}

/-- The complaint of a walk that has used up its room. -/
def SyntaxError.IsNesting (e : SyntaxError) : Prop := ∃ t, e = .complaint t .tooMuchNesting

/-- **What a walk is bound to reach.** It may only fail for want of room, and only if it has an
excuse for that. -/
def Reaches (excuse : Prop) (walk : Parse α) (s : Spot) (a : α) (s' : Spot) : Prop :=
  ∀ visits, Outcome (fun b c => b = a ∧ c.spot = s') (fun e _ => excuse ∧ e.IsNesting)
    (walk (s.cursor visits))

theorem Reaches.mono {excuse' : Prop} {walk : Parse α} {s s' : Spot} {a : α}
    (h : Reaches excuse walk s a s') (hexcuse : excuse → excuse') : Reaches excuse' walk s a s' :=
  fun visits => Outcome.mono (h visits) (fun _ _ hb => hb) fun _ _ ⟨hx, he⟩ => ⟨hexcuse hx, he⟩

theorem reaches_pure (a : α) (s : Spot) : Reaches excuse (pure a) s a s := fun _ => ⟨rfl, rfl⟩

/-- **One walk after the other.** -/
theorem reaches_bind {walk : Parse β} {next : β → Parse α} {s s' s'' : Spot} {b : β} {a : α}
    (h : Reaches excuse walk s b s') (hnext : Reaches excuse (next b) s' a s'') :
    Reaches excuse (walk >>= next) s a s'' := by
  intro visits
  refine outcome_bind (Outcome.mono (h visits) ?_ fun _ _ he => he)
  rintro _ c ⟨rfl, rfl⟩
  exact hnext c.visits

theorem reaches_map {walk : Parse β} {f : β → α} {s s' : Spot} {b : β}
    (h : Reaches excuse walk s b s') : Reaches excuse (f <$> walk) s (f b) s' :=
  reaches_bind h (reaches_pure (f b) s')

/-! ### Moves -/

theorem reaches_record (visit : Visit) (s : Spot) :
    Reaches excuse (Parse.record visit) s () s := fun _ => ⟨rfl, rfl⟩

theorem reaches_traced {production : Production} {body : Parse α} {s s' : Spot} {a : α}
    (h : Reaches excuse body s a s') : Reaches excuse (Parse.traced production body) s a s' := by
  rw [Parse.traced_parse]
  exact reaches_bind (reaches_record _ s)
    (reaches_bind h (reaches_bind (reaches_record _ s') (reaches_pure a s')))

theorem reaches_advance (s : Spot) : Reaches excuse Parse.advance s () s.advance :=
  fun _ => ⟨rfl, rfl⟩

theorem reaches_check (kind : TokenKind) {s : Spot} {t : Token} (ht : s.next? = some t) :
    Reaches excuse (Parse.check kind) s (t.kind == kind) s := by
  intro visits
  have hnext : (s.cursor visits).tokens[(s.cursor visits).index]? = some t := ht
  rw [Parse.check, get_bind_apply, hnext]
  exact ⟨rfl, rfl⟩

theorem reaches_peek_at {s : Spot} {distance : Int} {i : Nat} {t : Token}
    (h : (s.index : Int) + distance = i) (ht : s.tokens[i]? = some t) :
    Reaches excuse (Parse.peek distance) s t s := by
  intro visits
  have hpeek : Parse.peek distance (s.cursor visits) = .ok t (s.cursor visits) :=
    peek_of_getElem? h ht
  rw [hpeek]
  exact ⟨rfl, rfl⟩

theorem reaches_peek {s : Spot} {t : Token} (ht : s.next? = some t) :
    Reaches excuse (Parse.peek 0) s t s := reaches_peek_at (Int.add_zero (s.index : Int)) ht

theorem reaches_previous {s : Spot} {t : Token} (ht : s.next? = some t) :
    Reaches excuse Parse.previous s.advance t s.advance :=
  reaches_peek_at s.advance_index_sub_one ht

theorem reaches_accept {kind : TokenKind} {s : Spot} {t : Token} (ht : s.next? = some t)
    (hkind : t.kind = kind) : Reaches excuse (Parse.accept kind) s true s.advance := by
  have hcheck : Reaches excuse (Parse.check kind) s true s := by
    rw [← beq_iff_eq.2 hkind]
    exact reaches_check kind ht
  exact reaches_bind hcheck (reaches_bind (reaches_advance s) (reaches_pure true _))

theorem reaches_accept_ne {kind : TokenKind} {s : Spot} {t : Token} (ht : s.next? = some t)
    (hkind : t.kind ≠ kind) : Reaches excuse (Parse.accept kind) s false s := by
  have hcheck : Reaches excuse (Parse.check kind) s false s := by
    rw [← beq_eq_false_iff_ne.2 hkind]
    exact reaches_check kind ht
  exact reaches_bind hcheck (reaches_pure false s)

theorem reaches_expect {kind : TokenKind} (about : Complaint) {s : Spot} {t : Token}
    (ht : s.next? = some t) (hkind : t.kind = kind) :
    Reaches excuse (Parse.expect kind about) s t s.advance :=
  reaches_bind (reaches_accept ht hkind) (reaches_previous ht)

/-- A production without room, which needs an excuse. -/
theorem reaches_reject {s s' : Spot} {a : α} {t : Token} (ht : s.next? = some t) (hx : excuse) :
    Reaches excuse (Parse.reject .tooMuchNesting : Parse α) s a s' := by
  have hcomplaint : Reaches excuse (Parse.complaint .tooMuchNesting) s
      (.complaint t .tooMuchNesting) s := reaches_bind (reaches_peek ht) (reaches_pure _ s)
  exact reaches_bind hcomplaint fun _ => ⟨hx, t, rfl⟩

/-! ### Repetition -/

/-- **What a repetition is bound to reach** from a turn on. The number of tokens that are left is
always enough, since every turn but the last passes one of them. -/
def Loops (excuse : Prop) (atEnd : SyntaxError) (turn : β → Parse (Turn β γ)) (b : β) (s : Spot)
    (c : γ) (s' : Spot) : Prop :=
  ∀ n, s.tokens.size - s.index ≤ n → Reaches excuse (iterate atEnd turn n b) s c s'

variable {atEnd : SyntaxError} {turn : β → Parse (Turn β γ)}

theorem Loops.reaches {b : β} {s s' : Spot} {c : γ} (h : Loops excuse atEnd turn b s c s') :
    Reaches excuse (Parse.repeated atEnd turn b) s c s' :=
  fun visits => h _ (Nat.le_refl _) visits

theorem Spot.size_sub_index_pos {s : Spot} {t : Token} (ht : s.next? = some t) :
    s.index < s.tokens.size := by
  obtain ⟨hlt, -⟩ := Array.getElem?_eq_some_iff.1 ht
  exact hlt

/-- The last turn. -/
theorem loops_done {b : β} {s s' : Spot} {c : γ} {t : Token} (ht : s.next? = some t)
    (hturn : Reaches excuse (turn b) s (.done c) s') : Loops excuse atEnd turn b s c s' := by
  intro n hn visits
  have hlt := Spot.size_sub_index_pos ht
  obtain ⟨n, rfl⟩ : ∃ m, n = m + 1 := Nat.exists_eq_add_one.2 (by omega)
  have h := hturn visits
  rw [iterate]
  cases hresult : turn b (s.cursor visits) with
  | error e c' => rw [hresult] at h; exact h
  | ok t c' =>
    rw [hresult] at h
    obtain ⟨rfl, rfl⟩ := h
    exact ⟨rfl, rfl⟩

/-- A turn that goes on, behind which less is left. -/
theorem loops_again {b b' : β} {s s₁ s' : Spot} {c : γ} {t : Token} (ht : s.next? = some t)
    (hturn : Reaches excuse (turn b) s (.again b') s₁) (htokens : s₁.tokens = s.tokens)
    (hindex : s.index < s₁.index) (h : Loops excuse atEnd turn b' s₁ c s') :
    Loops excuse atEnd turn b s c s' := by
  intro n hn visits
  have hlt := Spot.size_sub_index_pos ht
  obtain ⟨n, rfl⟩ : ∃ m, n = m + 1 := Nat.exists_eq_add_one.2 (by omega)
  have hfirst := hturn visits
  rw [iterate]
  cases hresult : turn b (s.cursor visits) with
  | error e c' => rw [hresult] at hfirst; exact hfirst
  | ok t c' =>
    rw [hresult] at hfirst
    obtain ⟨rfl, rfl⟩ := hfirst
    refine h n ?_ c'.visits
    rw [htokens]
    omega

end Lox
