import Lox.Proofs.Grammar.Walk
import Lox.Proofs.Relocation.Tree

/-!
# Windows on tokens

The tokens of a source can stand in the middle of others, farther on and with other places. A walk that
succeeds on the tokens alone and stays in front of their end does the same on the window; and where it
only asks for an `else` at the end, it may as well find there whatever comes next.

* `Window` — some tokens, and the tokens that they are found among;
* `Window.Transfers` — walks that do the same on both, with one rule for every move of a cursor;
* `Window.transfers_bind` — one walk after the other, `Window.transfers_repeated` repetition.
-/

namespace Lox

variable {α α' β β' γ γ' : Type}

/-- **Windows.** The tokens of a source without their end, which are found behind `shift` others.
Behind the last of them comes something else, but no `else`. -/
structure Window (r : Relocation) where
  part : Array Token
  whole : Array Token
  length : Nat
  shift : Nat
  size_eq : part.size = length + 1
  inner : ∀ i < length, ∃ t, part[i]? = some t ∧ t.kind ≠ .eof ∧ whole[shift + i]? = some (r.move t)
  ending : ∃ t u, part[length]? = some t ∧ t.kind = .eof ∧
    whole[shift + length]? = some u ∧ u.kind ≠ .elseWord

namespace Window

variable {r : Relocation} (w : Window r)

/-- There are as many tokens behind a place in the window. -/
theorem length_lt_size : w.shift + w.length < w.whole.size := by
  obtain ⟨-, u, -, -, hu, -⟩ := w.ending
  exact (Array.getElem?_eq_some_iff.1 hu).1

/-- **Two cursors at the same place.** -/
structure Beside (c c' : Cursor) : Prop where
  part_eq : c.tokens = w.part
  whole_eq : c'.tokens = w.whole
  index_eq : c'.index = w.shift + c.index
  depth_eq : c'.functionDepth = c.functionDepth

variable {w} in
/-- **The same token** is next at both cursors, in front of the end. -/
theorem Beside.next {c c' : Cursor} (h : w.Beside c c') (hlt : c.index < w.length) :
    ∃ t, c.tokens[c.index]? = some t ∧ t.kind ≠ .eof ∧ c'.tokens[c'.index]? = some (r.move t) := by
  rw [h.part_eq, h.whole_eq, h.index_eq]
  exact w.inner c.index hlt

/-- **Onward.** So many tokens at least are passed, and the walk is inside of as many functions. -/
structure Onward (passed : Nat) (c c₁ : Cursor) : Prop where
  tokens_eq : c₁.tokens = c.tokens
  depth_eq : c₁.functionDepth = c.functionDepth
  index_le : c.index + passed ≤ c₁.index

theorem Onward.refl (c : Cursor) : Onward 0 c c := ⟨rfl, rfl, Nat.le_refl _⟩

theorem Onward.trans {passed passed' : Nat} {c c₁ c₂ : Cursor} (h : Onward passed c c₁)
    (h' : Onward passed' c₁ c₂) : Onward (passed + passed') c c₂ := by
  have hindex := h.index_le
  have hindex' := h'.index_le
  exact ⟨h'.tokens_eq.trans h.tokens_eq, h'.depth_eq.trans h.depth_eq, by omega⟩

theorem Onward.mono {passed passed' : Nat} {c c₁ : Cursor} (h : Onward passed c c₁)
    (hle : passed' ≤ passed) : Onward passed' c c₁ :=
  ⟨h.tokens_eq, h.depth_eq, Nat.le_trans (Nat.add_le_add_left hle _) h.index_le⟩

/-- **Walks that do the same.** A walk on the part passes at least `passed` tokens; and if it ends so
many tokens `ahead` of the end, the other one has the same result, relocated, at the same place. -/
def Transfers (ahead passed : Nat) (onResult : α → α') (walk : Parse α) (walk' : Parse α') : Prop :=
  ∀ c a c₁, walk c = .ok a c₁ → Onward passed c c₁ ∧
    ∀ c', w.Beside c c' → c₁.index + ahead ≤ w.length →
      ∃ c₁', walk' c' = .ok (onResult a) c₁' ∧ w.Beside c₁ c₁'

variable {w} {ahead passed : Nat} {onResult : α → α'} {walk : Parse α} {walk' : Parse α'}

/-- Less is said of a walk that ends farther ahead, or passes fewer tokens. -/
theorem Transfers.mono {ahead' passed' : Nat} (h : w.Transfers ahead passed onResult walk walk')
    (hahead : ahead ≤ ahead') (hpassed : passed' ≤ passed) :
    w.Transfers ahead' passed' onResult walk walk' := by
  intro c a c₁ hwalk
  obtain ⟨honward, hsame⟩ := h c a c₁ hwalk
  exact ⟨honward.mono hpassed, fun c' hbeside hend => hsame c' hbeside (by omega)⟩

/-- A walk that does not look ahead may end anywhere. -/
theorem Transfers.anywhere (h : w.Transfers 0 passed onResult walk walk') :
    w.Transfers ahead passed onResult walk walk' := h.mono (Nat.zero_le _) (Nat.le_refl _)

/-- A walk that never succeeds. -/
theorem transfers_of_fails (h : ∀ c a c₁, walk c ≠ .ok a c₁) :
    w.Transfers ahead passed onResult walk walk' := fun c a c₁ hwalk => absurd hwalk (h c a c₁)

theorem transfers_pure (a : α) : w.Transfers ahead 0 onResult (pure a) (pure (onResult a)) := by
  intro c a₁ c₁ hwalk
  obtain ⟨rfl, rfl⟩ : a = a₁ ∧ c = c₁ := EStateM.Result.ok.inj hwalk
  exact ⟨Onward.refl c, fun c' hbeside _ => ⟨c', rfl, hbeside⟩⟩

theorem transfers_throw (e e' : SyntaxError) :
    w.Transfers ahead passed onResult (throw e) (throw e') :=
  transfers_of_fails fun _ _ _ hwalk => by contradiction

/-- A walk that succeeds as a whole has succeeded in both parts. -/
theorem bind_eq_ok {walk : Parse β} {next : β → Parse α} {c c₂ : Cursor} {a : α}
    (h : (walk >>= next) c = .ok a c₂) :
    ∃ b c₁, walk c = .ok b c₁ ∧ next b c₁ = .ok a c₂ := by
  change EStateM.bind walk next c = _ at h
  unfold EStateM.bind at h
  cases hwalk : walk c with
  | ok b c₁ => rw [hwalk] at h; exact ⟨b, c₁, rfl, h⟩
  | error e c₁ => rw [hwalk] at h; contradiction

theorem bind_of_ok {walk : Parse β} {next : β → Parse α} {c c₁ : Cursor} {b : β}
    (h : walk c = .ok b c₁) : (walk >>= next) c = next b c₁ := by
  change EStateM.bind walk next c = _
  unfold EStateM.bind
  rw [h]

theorem bind_of_error {walk : Parse β} {next : β → Parse α} {c c₁ : Cursor} {e : SyntaxError}
    (h : walk c = .error e c₁) : (walk >>= next) c = .error e c₁ := by
  change EStateM.bind walk next c = _
  unfold EStateM.bind
  rw [h]

/-- **One walk after the other.** The first may look as far ahead as the second goes on. -/
theorem transfers_bind {passed₁ : Nat} {onFirst : β → β'} {walk : Parse β}
    {walk' : Parse β'} {next : β → Parse α} {next' : β' → Parse α'}
    (h : w.Transfers (ahead + passed) passed₁ onFirst walk walk')
    (hnext : ∀ b, w.Transfers ahead passed onResult (next b) (next' (onFirst b))) :
    w.Transfers ahead passed onResult (walk >>= next) (walk' >>= next') := by
  intro c a c₂ hboth
  obtain ⟨b, c₁, hfirst, hsecond⟩ := bind_eq_ok hboth
  obtain ⟨honward₁, hsame₁⟩ := h c b c₁ hfirst
  obtain ⟨honward₂, hsame₂⟩ := hnext b c₁ a c₂ hsecond
  refine ⟨(honward₁.trans honward₂).mono (Nat.le_add_left ..), fun c' hbeside hend => ?_⟩
  -- what the second walk passes lies behind the first, which has so much more to look at
  have hindex := honward₂.index_le
  obtain ⟨c₁', hfirst', hbeside₁⟩ := hsame₁ c' hbeside (by omega)
  rw [bind_of_ok hfirst']
  exact hsame₂ c₁' hbeside₁ hend

/-- **A walk with nothing more to look for.** What comes after it does not look ahead. -/
theorem transfers_bind_after {onFirst : β → β'} {walk : Parse β} {walk' : Parse β'}
    {next : β → Parse α} {next' : β' → Parse α'} (h : w.Transfers ahead passed onFirst walk walk')
    (hnext : ∀ b, w.Transfers 0 0 onResult (next b) (next' (onFirst b))) :
    w.Transfers ahead passed onResult (walk >>= next) (walk' >>= next') := by
  intro c a c₂ hboth
  obtain ⟨b, c₁, hfirst, hsecond⟩ := bind_eq_ok hboth
  obtain ⟨honward₁, hsame₁⟩ := h c b c₁ hfirst
  obtain ⟨honward₂, hsame₂⟩ := hnext b c₁ a c₂ hsecond
  refine ⟨(honward₁.trans honward₂).mono (Nat.le_add_right ..), fun c' hbeside hend => ?_⟩
  have hindex := honward₂.index_le
  obtain ⟨c₁', hfirst', hbeside₁⟩ := hsame₁ c' hbeside (by omega)
  rw [bind_of_ok hfirst']
  exact hsame₂ c₁' hbeside₁ (by omega)

/-- A change of the result. -/
theorem transfers_map {onFirst : β → β'} {walk : Parse β} {walk' : Parse β'} {f : β → α}
    {f' : β' → α'} (h : w.Transfers ahead passed onFirst walk walk')
    (hf : ∀ b, f' (onFirst b) = onResult (f b)) :
    w.Transfers ahead passed onResult (f <$> walk) (f' <$> walk') := by
  have hresult : ∀ b, w.Transfers 0 0 onResult (pure (f b)) (pure (f' (onFirst b))) := by
    intro b
    rw [hf b]
    exact transfers_pure (f b)
  exact transfers_bind_after h hresult

/-- A walk that never succeeds, with whatever comes after it. -/
theorem fails_bind {walk : Parse β} (h : ∀ c b c₁, walk c ≠ .ok b c₁) (next : β → Parse α) :
    ∀ c a c₁, (walk >>= next) c ≠ .ok a c₁ := by
  intro c a c₂ hboth
  obtain ⟨b, c₁, hfirst, -⟩ := bind_eq_ok hboth
  exact h c b c₁ hfirst

/-- A walk that is followed by one that never succeeds. -/
theorem bind_fails {walk : Parse β} {next : β → Parse α} (h : ∀ b c a c₁, next b c ≠ .ok a c₁) :
    ∀ c a c₁, (walk >>= next) c ≠ .ok a c₁ := by
  intro c a c₂ hboth
  obtain ⟨b, c₁, -, hsecond⟩ := bind_eq_ok hboth
  exact h b c₁ a c₂ hsecond

/-! ### Moves -/

theorem transfers_record (visit : Visit) :
    w.Transfers ahead 0 id (Parse.record visit) (Parse.record visit) := by
  intro c a c₁ hwalk
  obtain ⟨-, rfl⟩ := EStateM.Result.ok.inj hwalk
  exact ⟨⟨rfl, rfl, Nat.le_refl _⟩, fun c' hbeside _ => ⟨_, rfl, hbeside.part_eq, hbeside.whole_eq,
    hbeside.index_eq, hbeside.depth_eq⟩⟩

/-- Visits are not looked at. -/
theorem transfers_traced {production : Production}
    (h : w.Transfers ahead passed onResult walk walk') :
    w.Transfers ahead passed onResult (Parse.traced production walk)
      (Parse.traced production walk') := by
  have hbehind : ∀ a, w.Transfers 0 0 onResult
      (Parse.record (.exiting production) >>= fun _ => pure a)
      (Parse.record (.exiting production) >>= fun _ => pure (onResult a)) := fun a =>
    transfers_bind (transfers_record _) fun _ => transfers_pure a
  rw [Parse.traced_parse, Parse.traced_parse]
  exact transfers_bind (transfers_record _) fun _ => transfers_bind_after h hbehind

theorem transfers_advance : w.Transfers ahead 1 id Parse.advance Parse.advance := by
  intro c a c₁ hwalk
  obtain rfl : { c with index := c.index + 1 } = c₁ := (EStateM.Result.ok.inj hwalk).2
  refine ⟨⟨rfl, rfl, Nat.le_refl _⟩, fun c' hbeside _ => ⟨{ c' with index := c'.index + 1 }, rfl,
    hbeside.part_eq, hbeside.whole_eq, ?_, hbeside.depth_eq⟩⟩
  change c'.index + 1 = w.shift + (c.index + 1)
  rw [hbeside.index_eq, Nat.add_assoc]

/-- A look at a token that is in front of the end. -/
theorem peek_eq_ok {c c₁ : Cursor} {distance : Int} {t : Token}
    (h : Parse.peek distance c = .ok t c₁) :
    c₁ = c ∧ ∃ i : Nat, (c.index : Int) + distance = i ∧ c.tokens[i]? = some t := by
  by_cases hneg : (c.index : Int) + distance < 0
  · rw [Parse.peek, get_bind_apply, if_pos hneg] at h
    contradiction
  · obtain ⟨i, hi⟩ := Int.eq_ofNat_of_zero_le (Int.not_lt.1 hneg)
    rw [peek_eq hi] at h
    cases ht : c.tokens[i]? with
    | none => rw [ht] at h; contradiction
    | some u =>
      rw [ht] at h
      obtain ⟨rfl, rfl⟩ := EStateM.Result.ok.inj h
      exact ⟨rfl, i, hi, ht⟩

/-- **The token at a distance,** as long as it is in front of the end. -/
theorem transfers_peek {distance : Int} (h : distance < ahead) :
    w.Transfers ahead 0 r.move (Parse.peek distance) (Parse.peek distance) := by
  intro c t c₁ hwalk
  obtain ⟨rfl, i, hi, ht⟩ := peek_eq_ok hwalk
  refine ⟨Onward.refl c₁, fun c' hbeside hend => ⟨c', ?_, hbeside⟩⟩
  obtain ⟨u, hu, -, hu'⟩ := w.inner i (by omega)
  obtain rfl : u = t := by
    rw [hbeside.part_eq, hu] at ht
    exact Option.some.inj ht
  have hi' : (c'.index : Int) + distance = ((w.shift + i : Nat) : Int) := by
    rw [hbeside.index_eq]
    omega
  refine peek_of_getElem? hi' ?_
  rw [hbeside.whole_eq, hu']

/-- The next token, without passing it. -/
theorem transfers_peek_next : w.Transfers 1 0 r.move (Parse.peek 0) (Parse.peek 0) :=
  transfers_peek (by decide)

theorem transfers_previous : w.Transfers ahead 0 r.move Parse.previous Parse.previous :=
  transfers_peek (by omega)

/-- What a look at the next token finds. -/
theorem check_eq_ok {c c₁ : Cursor} {kind : TokenKind} {b : Bool}
    (h : Parse.check kind c = .ok b c₁) :
    c₁ = c ∧ ∃ t, c.tokens[c.index]? = some t ∧ (t.kind == kind) = b := by
  rw [Parse.check, get_bind_apply] at h
  cases ht : c.tokens[c.index]? with
  | none => rw [ht] at h; contradiction
  | some t =>
    rw [ht] at h
    obtain ⟨hb, rfl⟩ := EStateM.Result.ok.inj h
    exact ⟨rfl, t, rfl, hb⟩

theorem check_of_getElem? {c : Cursor} {t : Token} (ht : c.tokens[c.index]? = some t)
    (kind : TokenKind) : Parse.check kind c = .ok (t.kind == kind) c := by
  rw [Parse.check, get_bind_apply, ht]
  rfl

theorem transfers_check (kind : TokenKind) :
    w.Transfers 1 0 id (Parse.check kind) (Parse.check kind) := by
  intro c b c₁ hwalk
  obtain ⟨rfl, t, ht, rfl⟩ := check_eq_ok hwalk
  refine ⟨Onward.refl c₁, fun c' hbeside hend => ⟨c', ?_, hbeside⟩⟩
  obtain ⟨u, hu, -, hu'⟩ := hbeside.next (by omega)
  obtain rfl : u = t := Option.some.inj (hu.symm.trans ht)
  rw [check_of_getElem? hu', r.kind_eq]
  rfl

/-- **An `else` is not found at the end** either, whatever is there instead. -/
theorem transfers_check_else :
    w.Transfers 0 0 id (Parse.check .elseWord) (Parse.check .elseWord) := by
  intro c b c₁ hwalk
  obtain ⟨honward, hsame⟩ := transfers_check (w := w) .elseWord c b c₁ hwalk
  refine ⟨honward, fun c' hbeside hend => ?_⟩
  obtain ⟨rfl, t, ht, hb⟩ := check_eq_ok hwalk
  by_cases hlt : c₁.index < w.length
  · exact hsame c' hbeside hlt
  · -- the cursor stands at the end
    have hat : c₁.index = w.length := by omega
    obtain ⟨eof, u, heof, hkind, hu, hne⟩ := w.ending
    rw [hbeside.part_eq, hat, heof] at ht
    obtain rfl := Option.some.inj ht
    have hu' : c'.tokens[c'.index]? = some u := by
      rw [hbeside.whole_eq, hbeside.index_eq, hat, hu]
    refine ⟨c', ?_, hbeside⟩
    rw [check_of_getElem? hu', ← hb, hkind]
    exact congrArg (fun b => EStateM.Result.ok b c') (beq_eq_false_iff_ne.2 hne)

/-- Passing a token of a kind, if one is next. -/
theorem transfers_accept_of {kind : TokenKind}
    (h : w.Transfers ahead 0 id (Parse.check kind) (Parse.check kind)) :
    w.Transfers ahead 0 id (Parse.accept kind) (Parse.accept kind) := by
  refine transfers_bind h fun b => ?_
  cases b with
  | false => exact transfers_pure false
  | true => exact transfers_bind transfers_advance fun _ => transfers_pure true

theorem transfers_accept (kind : TokenKind) :
    w.Transfers 1 0 id (Parse.accept kind) (Parse.accept kind) :=
  transfers_accept_of (transfers_check kind)

theorem transfers_accept_else :
    w.Transfers 0 0 id (Parse.accept .elseWord) (Parse.accept .elseWord) :=
  transfers_accept_of transfers_check_else

/-- A complaint is a failure. -/
theorem reject_fails (about : Complaint) :
    ∀ c a c₁, (Parse.reject about : Parse α) c ≠ .ok a c₁ := by
  intro c a c₁ hwalk
  obtain ⟨e, c₂, -, hthrow⟩ := bind_eq_ok hwalk
  contradiction

theorem transfers_reject (about : Complaint) :
    w.Transfers ahead passed onResult (Parse.reject about) (Parse.reject about) :=
  transfers_of_fails (reject_fails about)

theorem transfers_reject_bind (about : Complaint) (next : β → Parse α) :
    w.Transfers ahead passed onResult (Parse.reject about >>= next) walk' :=
  transfers_of_fails (fails_bind (reject_fails about) next)

/-- **Passing a token of a kind.** The walk stands behind it then. -/
theorem transfers_expect (kind : TokenKind) (about : Complaint) :
    w.Transfers ahead 1 r.move (Parse.expect kind about) (Parse.expect kind about) := by
  rw [expect_eq_check]
  refine transfers_bind ((transfers_check kind).mono (Nat.le_add_left ..) (Nat.le_refl 0)) fun b => ?_
  cases b with
  | false => exact transfers_reject about
  | true => exact transfers_bind_after transfers_advance fun _ => transfers_previous

/-! ### Repetition -/

/-- **Repetition.** There are at least as many tokens left in the whole. -/
theorem transfers_repeated {atEnd : SyntaxError} {onFirst : β → β'} {turn : β → Parse (Turn β α)}
    {turn' : β' → Parse (Turn β' α')}
    (hturn : ∀ b, w.Transfers ahead 0 (Turn.map onFirst onResult) (turn b) (turn' (onFirst b)))
    (b : β) : w.Transfers ahead 0 onResult (Parse.repeated atEnd turn b)
      (Parse.repeated atEnd turn' (onFirst b)) := by
  -- the bound on the turns is that of the tokens left, of which the whole may have more
  have hiterate : ∀ n b c a c₁, iterate atEnd turn n b c = .ok a c₁ → Onward 0 c c₁ ∧
      ∀ n' c', n ≤ n' → w.Beside c c' → c₁.index + ahead ≤ w.length →
        ∃ c₁', iterate atEnd turn' n' (onFirst b) c' = .ok (onResult a) c₁' ∧ w.Beside c₁ c₁' := by
    intro n
    -- by induction on the turns in the part
    induction n with
    | zero => exact fun b c a c₁ h => by contradiction
    | succ n ih =>
      intro b c a c₂ h
      rw [iterate] at h
      cases hfirst : turn b c with
      | error e c₁ => rw [hfirst] at h; contradiction
      | ok next c₁ =>
        rw [hfirst] at h
        obtain ⟨honward₁, hsame₁⟩ := hturn b c next c₁ hfirst
        cases next with
        | done result =>
          -- the last turn
          obtain ⟨rfl, rfl⟩ := EStateM.Result.ok.inj h
          refine ⟨honward₁, fun n' c' hn hbeside hend => ?_⟩
          obtain ⟨m, rfl⟩ : ∃ m, n' = m + 1 := ⟨n' - 1, by omega⟩
          obtain ⟨c₁', hfirst', hbeside₁⟩ := hsame₁ c' hbeside hend
          exact ⟨c₁', by rw [iterate, hfirst']; rfl, hbeside₁⟩
        | again b₁ =>
          -- the rest of the part ends in it, and so does this turn
          obtain ⟨honward₂, hsame₂⟩ := ih b₁ c₁ a c₂ h
          have hindex := honward₂.index_le
          refine ⟨honward₁.trans honward₂, fun n' c' hn hbeside hend => ?_⟩
          obtain ⟨m, rfl⟩ : ∃ m, n' = m + 1 := ⟨n' - 1, by omega⟩
          obtain ⟨c₁', hfirst', hbeside₁⟩ := hsame₁ c' hbeside (by omega)
          obtain ⟨c₂', hrest, hbeside₂⟩ := hsame₂ m c₁' (by omega) hbeside₁ hend
          exact ⟨c₂', by rw [iterate, hfirst']; exact hrest, hbeside₂⟩
  intro c a c₁ hwalk
  obtain ⟨honward, hsame⟩ := hiterate c.remaining b c a c₁ hwalk
  refine ⟨honward, fun c' hbeside hend => ?_⟩
  have hroom := w.length_lt_size
  have hremaining : c.remaining ≤ c'.remaining := by
    rw [Cursor.remaining, Cursor.remaining, hbeside.part_eq, hbeside.whole_eq, hbeside.index_eq,
      w.size_eq]
    omega
  exact hsame c'.remaining c' hremaining hbeside hend

end Window

end Lox
