import Lox.Proofs.Grammar.Completeness.Reach
import Lox.Proofs.Grammar.Safety
import Lox.Proofs.Grammar.Windows

/-!
# Forks

Two lists of tokens may begin alike and then part. A walk sees nothing of a token but its kind, and
it never looks past the token that is next; so on both lists it does the same until it comes to the
fork, and an error that is decided in front of the fork is an error on both sides.

* `SyntaxError.place`, `SyntaxError.decisive` — the token that an error reports, and the one that
  decides on it;
* `Fork` — two lists of tokens with a common beginning;
* `Fork.Agrees` — walks that do the same on both sides, failures included, with one rule for every
  move of a cursor;
* `Fork.agrees_bind` — one walk after the other, `Fork.agrees_repeated` repetition.
-/

namespace Lox

/-! ### Errors and their places -/

/-- The complaints about too many items between commas. -/
def Complaint.isLimit : Complaint → Bool
  | .tooManyArguments | .tooManyParameters => true
  | _ => false

namespace SyntaxError

/-- **The errors that the tokens are to blame for.** Neither the room is, nor a walk that starts in
the wrong place. -/
def IsRejection : SyntaxError → Prop
  | .complaint _ .tooMuchNesting => False
  | .complaint .. | .topLevelReturn _ => True
  | _ => False

/-- The errors for too many items between commas. -/
def IsLimit : SyntaxError → Prop
  | .complaint _ about => about.isLimit = true
  | _ => False

/-- **The place of the token that is reported,** for a walk that fails at some index. It is the
token that is next, or the keyword of a return, which has just been passed. -/
def place (index : Nat) : SyntaxError → Nat
  | .topLevelReturn _ => index - 1
  | _ => index

/-- **The place of the token that decides.** It is the one that is reported, except that it is the
comma in front of it which exceeds a limit. -/
def decisive (index : Nat) : SyntaxError → Nat
  | .topLevelReturn _
  | .complaint _ .tooManyArguments
  | .complaint _ .tooManyParameters => index - 1
  | _ => index

/-- The errors of a source, short of those for want of room. -/
theorem isRejection_iff {e : SyntaxError} : e.IsRejection ↔ e.IsComplaint ∧ ¬ e.IsNesting := by
  cases e with
  | complaint t about => cases about <;> simp [IsRejection, IsComplaint, IsNesting]
  | topLevelReturn keyword => simp [IsRejection, IsComplaint, IsNesting]
  | _ => simp [IsRejection, IsComplaint]

theorem decisive_le_place (index : Nat) (e : SyntaxError) : e.decisive index ≤ e.place index := by
  cases e with
  | complaint t about => cases about <;> simp [decisive, place]
  | _ => simp [decisive, place]

end SyntaxError

/-! ### Two lists of tokens -/

/-- **Forks.** In front of the `length` that the two have in common, the tokens are of the same
kinds; behind it, either list goes on as it likes, or ends. -/
structure Fork where
  left : Array Token
  right : Array Token
  length : Nat
  kind_eq : ∀ i < length, left[i]?.map Token.kind = right[i]?.map Token.kind

variable {α β γ κ κ₁ : Type}

/-- Nothing is seen of a result. -/
def unseen (_ : α) : Unit := ()

/-- **A turn that keeps pace** with the tokens: it passes one before it goes on, and fails of its
own accord where there is none. -/
structure Paced (turn : Parse (Turn β γ)) : Prop where
  onward : ∀ c b c₁, turn c = .ok (.again b) c₁ → c.index < c₁.index
  missing : ∀ c, c.tokens[c.index]? = none → ∃ e c₁, turn c = .error e c₁ ∧ ¬ e.IsRejection

namespace Fork

open Window

variable (f : Fork)

/-- What is missing on the one side is missing on the other. -/
theorem getElem?_eq_none {i : Nat} (hi : i < f.length) (h : f.right[i]? = none) :
    f.left[i]? = none := by
  have hkind := f.kind_eq i hi
  rw [h] at hkind
  simpa using hkind

/-- A token has another one of its kind beside it. -/
theorem exists_kind_eq {i : Nat} (hi : i < f.length) {t : Token} (h : f.left[i]? = some t) :
    ∃ t', f.right[i]? = some t' ∧ t'.kind = t.kind := by
  have hkind := f.kind_eq i hi
  rw [h] at hkind
  cases h' : f.right[i]? with
  | none => rw [h'] at hkind; contradiction
  | some t' =>
    rw [h'] at hkind
    exact ⟨t', rfl, (Option.some.inj hkind).symm⟩

/-- **Two cursors at the same place.** -/
structure Beside (c c' : Cursor) : Prop where
  left_eq : c.tokens = f.left
  right_eq : c'.tokens = f.right
  index_eq : c'.index = c.index
  depth_eq : c'.functionDepth = c.functionDepth

variable {f} in
/-- Two tokens of one kind are next. -/
theorem Beside.next {c c' : Cursor} (h : f.Beside c c') (hlt : c.index < f.length) {t : Token}
    (ht : c.tokens[c.index]? = some t) :
    ∃ t', c'.tokens[c'.index]? = some t' ∧ t'.kind = t.kind := by
  rw [h.left_eq] at ht
  rw [h.right_eq, h.index_eq]
  exact f.exists_kind_eq hlt ht

/-- **The same error,** on either side about the token in the same place. -/
inductive SameError (index : Nat) : SyntaxError → SyntaxError → Prop
  | complaint {t t' : Token} (about : Complaint) (ht : f.left[index]? = some t)
    (ht' : f.right[index]? = some t') : SameError index (.complaint t about) (.complaint t' about)
  | topLevelReturn {t t' : Token} (ht : f.left[index - 1]? = some t)
    (ht' : f.right[index - 1]? = some t') : SameError index (.topLevelReturn t) (.topLevelReturn t')

/-- **A failure like another one,** at the same index. The token that is reported can only be the
same if it stands in front of the fork. -/
def FailsLike (e : SyntaxError) (index : Nat) (r : EStateM.Result SyntaxError Cursor α) : Prop :=
  ∃ e' c', r = .error e' c' ∧ c'.index = index ∧
    (e.place index < f.length → f.SameError index e e')

/-- **Walks that do the same.** A walk on the left passes at least `passed` tokens if it succeeds,
and the token that decides on its failure is at most so many tokens `behind` the place where it
starts. If the walk ends in front of the fork, the one on the right ends there too, with the same to
be `seen` of its result; if the decisive token is in front of the fork, the one on the right fails
as well. -/
structure Agrees (behind passed : Nat) (seen : α → κ) (walk walk' : Parse α) : Prop where
  ok : ∀ c a c₁, walk c = .ok a c₁ → Onward passed c c₁ ∧
    ∀ c', f.Beside c c' → c₁.index < f.length →
      ∃ a' c₁', walk' c' = .ok a' c₁' ∧ seen a' = seen a ∧ f.Beside c₁ c₁'
  error : ∀ c e c₁, walk c = .error e c₁ → e.IsRejection →
    c.index ≤ e.decisive c₁.index + behind ∧
    ∀ c', f.Beside c c' → e.decisive c₁.index < f.length → f.FailsLike e c₁.index (walk' c')

variable {f} {behind passed : Nat} {seen : α → κ} {walk walk' : Parse α}

/-- Less is said of a walk that passes fewer tokens, or looks farther back. -/
theorem Agrees.mono {behind' passed' : Nat} (h : f.Agrees behind passed seen walk walk')
    (hbehind : behind ≤ behind') (hpassed : passed' ≤ passed) :
    f.Agrees behind' passed' seen walk walk' where
  ok c a c₁ hwalk := by
    obtain ⟨honward, hsame⟩ := h.ok c a c₁ hwalk
    exact ⟨honward.mono hpassed, hsame⟩
  error c e c₁ hwalk he := by
    obtain ⟨hindex, hsame⟩ := h.error c e c₁ hwalk he
    exact ⟨by omega, hsame⟩

/-- A walk may stand behind a token that it does not complain about. -/
theorem Agrees.lookingBack (h : f.Agrees 0 passed seen walk walk') :
    f.Agrees 1 passed seen walk walk' := h.mono (Nat.zero_le 1) (Nat.le_refl passed)

/-- A walk that never comes to anything that is looked at. -/
theorem agrees_of_fails (h : ∀ c, ∃ e c₁, walk c = .error e c₁ ∧ ¬ e.IsRejection) :
    f.Agrees behind passed seen walk walk' where
  ok c a c₁ hwalk := by
    obtain ⟨e, c₂, herror, -⟩ := h c
    rw [hwalk] at herror
    contradiction
  error c e c₁ hwalk he := by
    obtain ⟨e', c₂, herror, hnot⟩ := h c
    rw [hwalk] at herror
    obtain ⟨rfl, -⟩ := EStateM.Result.error.inj herror
    exact absurd he hnot

theorem agrees_throw {e : SyntaxError} (h : ¬ e.IsRejection) :
    f.Agrees behind passed seen (throw e) walk' := agrees_of_fails fun c => ⟨e, c, rfl, h⟩

theorem agrees_pure {a a' : α} (h : seen a' = seen a) :
    f.Agrees behind 0 seen (pure a) (pure a') where
  ok c a₁ c₁ hwalk := by
    obtain ⟨rfl, rfl⟩ : a = a₁ ∧ c = c₁ := EStateM.Result.ok.inj hwalk
    exact ⟨Onward.refl c, fun c' hbeside _ => ⟨a', c', rfl, h, hbeside⟩⟩
  error c e c₁ hwalk := by contradiction

/-- A walk that fails as a whole has failed in one of its parts. -/
theorem bind_eq_error {walk : Parse β} {next : β → Parse α} {c c₂ : Cursor} {e : SyntaxError}
    (h : (walk >>= next) c = .error e c₂) :
    walk c = .error e c₂ ∨ ∃ b c₁, walk c = .ok b c₁ ∧ next b c₁ = .error e c₂ := by
  change EStateM.bind walk next c = _ at h
  unfold EStateM.bind at h
  cases hwalk : walk c with
  | ok b c₁ => rw [hwalk] at h; exact .inr ⟨b, c₁, rfl, h⟩
  | error e' c₁ =>
    rw [hwalk] at h
    obtain ⟨rfl, rfl⟩ := EStateM.Result.error.inj h
    exact .inl rfl

/-- A failure of the first part is one of the whole. -/
theorem FailsLike.bind {e : SyntaxError} {index : Nat} {walk : Parse β} {next : β → Parse α}
    {c : Cursor} (h : f.FailsLike e index (walk c)) : f.FailsLike e index ((walk >>= next) c) := by
  obtain ⟨e', c', hwalk, hrest⟩ := h
  exact ⟨e', c', bind_of_error hwalk, hrest⟩

/-- **One walk after the other,** which together pass what both of them pass. What the second one
looks at is not behind the place where the first one ends. -/
theorem agrees_bind_add {passed₁ : Nat} {seen₁ : β → κ₁} {walk walk' : Parse β}
    {next next' : β → Parse α} (h : f.Agrees behind passed₁ seen₁ walk walk')
    (hnext : ∀ b b', seen₁ b' = seen₁ b → f.Agrees 0 passed seen (next b) (next' b')) :
    f.Agrees behind (passed₁ + passed) seen (walk >>= next) (walk' >>= next') where
  ok c a c₂ hboth := by
    obtain ⟨b, c₁, hfirst, hsecond⟩ := bind_eq_ok hboth
    obtain ⟨honward₁, hsame₁⟩ := h.ok c b c₁ hfirst
    obtain ⟨honward₂, -⟩ := (hnext b b rfl).ok c₁ a c₂ hsecond
    refine ⟨honward₁.trans honward₂, fun c' hbeside hlt => ?_⟩
    have hindex := honward₂.index_le
    obtain ⟨b', c₁', hfirst', hseen, hbeside₁⟩ := hsame₁ c' hbeside (by omega)
    rw [bind_of_ok hfirst']
    exact ((hnext b b' hseen).ok c₁ a c₂ hsecond).2 c₁' hbeside₁ hlt
  error c e c₂ hboth he := by
    -- the error is that of the first walk, or it is that of the second behind the first
    obtain hfirst | ⟨b, c₁, hfirst, hsecond⟩ := bind_eq_error hboth
    · obtain ⟨hindex, hsame⟩ := h.error c e c₂ hfirst he
      exact ⟨hindex, fun c' hbeside hlt => (hsame c' hbeside hlt).bind⟩
    · obtain ⟨honward₁, hsame₁⟩ := h.ok c b c₁ hfirst
      obtain ⟨hindex₂, -⟩ := (hnext b b rfl).error c₁ e c₂ hsecond he
      have hindex₁ := honward₁.index_le
      refine ⟨by omega, fun c' hbeside hlt => ?_⟩
      obtain ⟨b', c₁', hfirst', hseen, hbeside₁⟩ := hsame₁ c' hbeside (by omega)
      rw [bind_of_ok hfirst']
      exact ((hnext b b' hseen).error c₁ e c₂ hsecond he).2 c₁' hbeside₁ hlt

/-- One walk after the other, which passes enough by itself. -/
theorem agrees_bind {passed₁ : Nat} {seen₁ : β → κ₁} {walk walk' : Parse β}
    {next next' : β → Parse α} (h : f.Agrees behind passed₁ seen₁ walk walk')
    (hnext : ∀ b b', seen₁ b' = seen₁ b → f.Agrees 0 passed seen (next b) (next' b')) :
    f.Agrees behind passed seen (walk >>= next) (walk' >>= next') :=
  (agrees_bind_add h hnext).mono (Nat.le_refl _) (Nat.le_add_left ..)

/-- One walk after another, which has passed enough. -/
theorem agrees_bind_after {seen₁ : β → κ₁} {walk walk' : Parse β} {next next' : β → Parse α}
    (h : f.Agrees behind passed seen₁ walk walk')
    (hnext : ∀ b b', seen₁ b' = seen₁ b → f.Agrees 0 0 seen (next b) (next' b')) :
    f.Agrees behind passed seen (walk >>= next) (walk' >>= next') :=
  agrees_bind_add h hnext

/-! ### Moves -/

/-- The record of a visit changes nothing else. -/
theorem agrees_record_bind {visit : Visit} (h : f.Agrees behind passed seen walk walk') :
    f.Agrees behind passed seen (Parse.record visit >>= fun _ => walk)
      (Parse.record visit >>= fun _ => walk') where
  ok c a c₁ hwalk := by
    obtain ⟨honward, hsame⟩ := h.ok { c with visits := visit :: c.visits } a c₁ hwalk
    refine ⟨⟨honward.tokens_eq, honward.depth_eq, honward.index_le⟩, fun c' hbeside hlt => ?_⟩
    exact hsame { c' with visits := visit :: c'.visits }
      ⟨hbeside.left_eq, hbeside.right_eq, hbeside.index_eq, hbeside.depth_eq⟩ hlt
  error c e c₁ hwalk he := by
    obtain ⟨hindex, hsame⟩ := h.error { c with visits := visit :: c.visits } e c₁ hwalk he
    refine ⟨hindex, fun c' hbeside hlt => ?_⟩
    exact hsame { c' with visits := visit :: c'.visits }
      ⟨hbeside.left_eq, hbeside.right_eq, hbeside.index_eq, hbeside.depth_eq⟩ hlt

/-- Visits are not looked at. -/
theorem agrees_traced {production : Production} (h : f.Agrees behind passed seen walk walk') :
    f.Agrees behind passed seen (Parse.traced production walk) (Parse.traced production walk') := by
  rw [Parse.traced_parse, Parse.traced_parse]
  exact agrees_record_bind (agrees_bind_after h fun _ _ hseen =>
    agrees_record_bind (agrees_pure hseen))

theorem agrees_advance : f.Agrees behind 1 id Parse.advance Parse.advance where
  ok c a c₁ hwalk := by
    obtain rfl : { c with index := c.index + 1 } = c₁ := (EStateM.Result.ok.inj hwalk).2
    refine ⟨⟨rfl, rfl, Nat.le_refl _⟩, fun c' hbeside _ => ?_⟩
    exact ⟨(), { c' with index := c'.index + 1 }, rfl, rfl, hbeside.left_eq, hbeside.right_eq,
      congrArg (· + 1) hbeside.index_eq, hbeside.depth_eq⟩
  error c e c₁ hwalk := by contradiction

/-- Where there is no token, there is none to check, either. -/
theorem check_of_none {c : Cursor} (h : c.tokens[c.index]? = none) (kind : TokenKind) :
    Parse.check kind c = .error .outOfRange c := by
  rw [Parse.check, get_bind_apply, h]
  rfl

theorem agrees_check (kind : TokenKind) :
    f.Agrees behind 0 id (Parse.check kind) (Parse.check kind) where
  ok c b c₁ hwalk := by
    obtain ⟨rfl, t, ht, rfl⟩ := check_eq_ok hwalk
    refine ⟨Onward.refl c₁, fun c' hbeside hlt => ?_⟩
    obtain ⟨t', ht', hkind⟩ := hbeside.next hlt ht
    refine ⟨_, c', check_of_getElem? ht' kind, ?_, hbeside⟩
    rw [hkind]
  error c e c₁ hwalk he := by
    cases ht : c.tokens[c.index]? with
    | none =>
      rw [check_of_none ht] at hwalk
      obtain ⟨rfl, -⟩ := EStateM.Result.error.inj hwalk
      contradiction
    | some t => rw [check_of_getElem? ht] at hwalk; contradiction

/-- A look that fails is the fault of the walk. -/
theorem peek_eq_error {c c₁ : Cursor} {distance : Int} {e : SyntaxError}
    (h : Parse.peek distance c = .error e c₁) : e = .badIndex := by
  by_cases hneg : (c.index : Int) + distance < 0
  · rw [Parse.peek, get_bind_apply, if_pos hneg] at h
    exact (EStateM.Result.error.inj h).1.symm
  · obtain ⟨i, hi⟩ := Int.eq_ofNat_of_zero_le (Int.not_lt.1 hneg)
    rw [peek_eq hi] at h
    cases ht : c.tokens[i]? with
    | none => rw [ht] at h; exact (EStateM.Result.error.inj h).1.symm
    | some t => rw [ht] at h; contradiction

/-- **A look on either side,** at tokens of one kind in the same place. -/
theorem Beside.peek {c c' : Cursor} (h : f.Beside c c') {distance : Int} {i : Nat} {t : Token}
    (hi : (c.index : Int) + distance = i) (ht : c.tokens[i]? = some t) (hlt : i < f.length) :
    f.left[i]? = some t ∧ ∃ t', f.right[i]? = some t' ∧ t'.kind = t.kind ∧
      Parse.peek distance c' = .ok t' c' := by
  rw [h.left_eq] at ht
  obtain ⟨t', ht', hkind⟩ := f.exists_kind_eq hlt ht
  refine ⟨ht, t', ht', hkind, peek_of_getElem? (i := i) ?_ ?_⟩
  · rw [h.index_eq, hi]
  · rw [h.right_eq, ht']

/-- **The token at a distance** that is not ahead of the one that is next. -/
theorem agrees_peek {distance : Int} (h : distance ≤ 0) :
    f.Agrees behind 0 Token.kind (Parse.peek distance) (Parse.peek distance) where
  ok c t c₁ hwalk := by
    obtain ⟨rfl, i, hi, ht⟩ := peek_eq_ok hwalk
    refine ⟨Onward.refl c₁, fun c' hbeside hlt => ?_⟩
    obtain ⟨-, t', -, hkind, hpeek⟩ := hbeside.peek hi ht (by omega)
    exact ⟨t', c', hpeek, hkind, hbeside⟩
  error c e c₁ hwalk he := by
    obtain rfl := peek_eq_error hwalk
    contradiction

theorem agrees_previous : f.Agrees behind 0 Token.kind Parse.previous Parse.previous :=
  agrees_peek (by decide)

/-- Passing a token of a kind, if one is next. -/
theorem agrees_accept (kind : TokenKind) :
    f.Agrees behind 0 id (Parse.accept kind) (Parse.accept kind) := by
  refine agrees_bind (agrees_check kind) fun b b' hb => ?_
  obtain rfl : b' = b := hb
  cases b' with
  | false => exact agrees_pure rfl
  | true => exact agrees_bind agrees_advance fun _ _ _ => agrees_pure rfl

theorem accept_of_none {c : Cursor} (h : c.tokens[c.index]? = none) (kind : TokenKind) :
    Parse.accept kind c = .error .outOfRange c := bind_of_error (check_of_none h kind)

/-- What a walk comes to that complains about the next token. -/
theorem reject_of_getElem? {c : Cursor} {t : Token} (ht : c.tokens[c.index]? = some t)
    (about : Complaint) :
    (Parse.reject about : Parse α) c = .error (.complaint t about) c := by
  have hpeek : Parse.peek 0 c = .ok t c := peek_of_getElem? (Int.add_zero _) ht
  have hcomplaint : Parse.complaint about c = .ok (.complaint t about) c := by
    rw [Parse.complaint, bind_of_ok hpeek]
    rfl
  rw [Parse.reject, bind_of_ok hcomplaint]
  rfl

theorem reject_of_none {c : Cursor} (h : c.tokens[c.index]? = none) (about : Complaint) :
    (Parse.reject about : Parse α) c = .error .badIndex c := by
  have hpeek : Parse.peek 0 c = .error .badIndex c := by
    rw [peek_eq (Int.add_zero (c.index : Int)), h]
    rfl
  have hcomplaint : Parse.complaint about c = .error .badIndex c := bind_of_error hpeek
  exact bind_of_error hcomplaint

/-- **Complaints,** which are about the same token if it is in front of the fork. A limit has been
exceeded by the token before. -/
theorem agrees_reject (about : Complaint) (h : about.isLimit = true → 1 ≤ behind) :
    f.Agrees behind passed seen (Parse.reject about) (Parse.reject about) where
  ok c a c₁ hwalk := absurd hwalk (reject_fails about c a c₁)
  error c e c₁ hwalk he := by
    cases ht : c.tokens[c.index]? with
    | none =>
      rw [reject_of_none ht] at hwalk
      obtain ⟨rfl, -⟩ := EStateM.Result.error.inj hwalk
      contradiction
    | some t =>
    rw [reject_of_getElem? ht] at hwalk
    obtain ⟨rfl, rfl⟩ := EStateM.Result.error.inj hwalk
    have hdecisive : c.index ≤ (SyntaxError.complaint t about).decisive c.index + behind := by
      cases about <;> simp_all [SyntaxError.decisive, Complaint.isLimit] <;> omega
    refine ⟨hdecisive, fun c' hbeside _ => ?_⟩
    cases ht' : c'.tokens[c'.index]? with
    | some t' =>
      refine ⟨_, c', reject_of_getElem? ht' about, hbeside.index_eq, fun _ => ?_⟩
      rw [hbeside.left_eq] at ht
      rw [hbeside.right_eq, hbeside.index_eq] at ht'
      exact .complaint about ht ht'
    | none =>
      refine ⟨_, c', reject_of_none ht' about, hbeside.index_eq, fun hlt => ?_⟩
      rw [hbeside.right_eq, hbeside.index_eq] at ht'
      -- the token that is reported has nothing beside it, and so it stands behind the fork
      have hmissing : f.left[c.index]? = none := f.getElem?_eq_none hlt ht'
      rw [hbeside.left_eq, hmissing] at ht
      contradiction

/-- A complaint is not followed by anything. -/
theorem agrees_reject_bind (about : Complaint) (h : about.isLimit = true → 1 ≤ behind)
    (next next' : β → Parse α) :
    f.Agrees behind passed seen (Parse.reject about >>= next) (Parse.reject about >>= next') where
  ok c a c₁ hwalk := absurd hwalk (fails_bind (reject_fails about) next c a c₁)
  error c e c₁ hwalk he := by
    obtain hreject | ⟨b, c₂, hreject, -⟩ := bind_eq_error hwalk
    · have hagrees : f.Agrees behind 0 unseen (Parse.reject about : Parse β) (Parse.reject about) :=
        agrees_reject about h
      obtain ⟨hindex, hsame⟩ := hagrees.error c e c₁ hreject he
      exact ⟨hindex, fun c' hbeside hlt => (hsame c' hbeside hlt).bind⟩
    · exact absurd hreject (reject_fails about c b c₂)

/-- **Passing a token of a kind,** or complaining about the one that is next instead. -/
theorem agrees_expect (kind : TokenKind) (about : Complaint) (h : about.isLimit = false) :
    f.Agrees behind 1 Token.kind (Parse.expect kind about) (Parse.expect kind about) := by
  rw [expect_eq_check]
  refine agrees_bind (agrees_check kind) fun b b' hb => ?_
  obtain rfl : b' = b := hb
  cases b' with
  | false => exact agrees_reject about (by simp [h])
  | true => exact agrees_bind_after agrees_advance fun _ _ _ => agrees_previous

/-! ### Moves that are followed by a look back -/

/-- **A look at the next token,** by which a walk decides how to go on. -/
theorem agrees_of_next
    (hmissing : ∀ c, c.tokens[c.index]? = none → ∃ e c₁, walk c = .error e c₁ ∧ ¬ e.IsRejection)
    {next next' : Token → Parse α}
    (hnext : ∀ c t, c.tokens[c.index]? = some t → walk c = next t c)
    (hnext' : ∀ c t, c.tokens[c.index]? = some t → walk' c = next' t c)
    (h : ∀ t t', t'.kind = t.kind → f.Agrees 0 passed seen (next t) (next' t')) :
    f.Agrees 0 passed seen walk walk' where
  ok c a c₁ hwalk := by
    -- a walk that succeeds has had a token to look at
    cases ht : c.tokens[c.index]? with
    | none =>
      obtain ⟨e, c₂, herror, -⟩ := hmissing c ht
      rw [hwalk] at herror
      contradiction
    | some t =>
      rw [hnext c t ht] at hwalk
      obtain ⟨honward, -⟩ := (h t t rfl).ok c a c₁ hwalk
      have hindex := honward.index_le
      refine ⟨honward, fun c' hbeside hlt => ?_⟩
      obtain ⟨t', ht', hkind⟩ := hbeside.next (by omega) ht
      rw [hnext' c' t' ht']
      exact ((h t t' hkind).ok c a c₁ hwalk).2 c' hbeside hlt
  error c e c₁ hwalk he := by
    -- and so has one that fails with a rejection
    cases ht : c.tokens[c.index]? with
    | none =>
      obtain ⟨e', c₂, herror, hnot⟩ := hmissing c ht
      rw [hwalk] at herror
      obtain ⟨rfl, -⟩ := EStateM.Result.error.inj herror
      exact absurd he hnot
    | some t =>
      rw [hnext c t ht] at hwalk
      obtain ⟨hindex, -⟩ := (h t t rfl).error c e c₁ hwalk he
      refine ⟨hindex, fun c' hbeside hlt => ?_⟩
      obtain ⟨t', ht', hkind⟩ := hbeside.next (by omega) ht
      rw [hnext' c' t' ht']
      exact ((h t t' hkind).error c e c₁ hwalk he).2 c' hbeside hlt

/-- What is read behind a token may still complain about it. -/
theorem agrees_advance_bind (h : f.Agrees 1 passed seen walk walk') :
    f.Agrees 0 (passed + 1) seen (Parse.advance >>= fun _ => walk)
      (Parse.advance >>= fun _ => walk') where
  ok c a c₁ hwalk := by
    obtain ⟨honward, hsame⟩ := h.ok { c with index := c.index + 1 } a c₁ hwalk
    have hindex : c.index + 1 + passed ≤ c₁.index := honward.index_le
    refine ⟨⟨honward.tokens_eq, honward.depth_eq, by omega⟩, fun c' hbeside hlt => ?_⟩
    exact hsame { c' with index := c'.index + 1 } ⟨hbeside.left_eq, hbeside.right_eq,
      congrArg (· + 1) hbeside.index_eq, hbeside.depth_eq⟩ hlt
  error c e c₁ hwalk he := by
    obtain ⟨hindex, hsame⟩ := h.error { c with index := c.index + 1 } e c₁ hwalk he
    have hindex' : c.index + 1 ≤ e.decisive c₁.index + 1 := hindex
    refine ⟨by omega, fun c' hbeside hlt => ?_⟩
    exact hsame { c' with index := c'.index + 1 } ⟨hbeside.left_eq, hbeside.right_eq,
      congrArg (· + 1) hbeside.index_eq, hbeside.depth_eq⟩ hlt

/-- A token is passed, and looked at afterwards. -/
theorem first_of_getElem? {next : Token → Parse α} {c : Cursor} {t : Token}
    (ht : c.tokens[c.index]? = some t) :
    (Parse.advance >>= fun _ => Parse.previous >>= next) c =
      (Parse.advance >>= fun _ => next t) c := by
  have hback : ((c.index + 1 : Nat) : Int) + -1 = c.index := by omega
  have hprevious : Parse.previous { c with index := c.index + 1 } =
      .ok t { c with index := c.index + 1 } := peek_of_getElem? hback ht
  have hadvance : (Parse.advance : Parse Unit) c = .ok () { c with index := c.index + 1 } := rfl
  rw [bind_of_ok hadvance, bind_of_ok hadvance, bind_of_ok hprevious]

theorem first_of_none {next : Token → Parse α} {c : Cursor} (h : c.tokens[c.index]? = none) :
    (Parse.advance >>= fun _ => Parse.previous >>= next) c =
      .error .badIndex { c with index := c.index + 1 } := by
  have hback : ((c.index + 1 : Nat) : Int) + -1 = c.index := by omega
  have hprevious : Parse.previous { c with index := c.index + 1 } =
      .error .badIndex { c with index := c.index + 1 } := by
    rw [Parse.previous, peek_eq (c := { c with index := c.index + 1 }) hback, h]
    rfl
  have hadvance : (Parse.advance : Parse Unit) c = .ok () { c with index := c.index + 1 } := rfl
  rw [bind_of_ok hadvance, bind_of_error hprevious]

/-- **The first token of an expression.** -/
theorem agrees_first {next next' : Token → Parse α}
    (h : ∀ t t', t'.kind = t.kind → f.Agrees 1 passed seen (next t) (next' t')) :
    f.Agrees 0 (passed + 1) seen (Parse.advance >>= fun _ => Parse.previous >>= next)
      (Parse.advance >>= fun _ => Parse.previous >>= next') :=
  agrees_of_next (fun _ hnone => ⟨_, _, first_of_none hnone, id⟩)
    (fun _ _ ht => first_of_getElem? ht) (fun _ _ ht => first_of_getElem? ht)
    fun t t' hkind => agrees_advance_bind (h t t' hkind)

/-- **A token that begins nothing** is complained about, behind it. -/
theorem agrees_retreat_reject (about : Complaint) (h : about.isLimit = false) :
    f.Agrees 1 passed seen (Parse.retreat >>= fun _ => Parse.reject about)
      (Parse.retreat >>= fun _ => Parse.reject about) where
  ok c a c₁ hwalk := absurd hwalk (bind_fails (fun _ => reject_fails about) c a c₁)
  error c e c₁ hwalk he := by
    have hreject : f.Agrees 0 passed seen (Parse.reject about) (Parse.reject about) :=
      agrees_reject about (by simp [h])
    obtain ⟨hindex, hsame⟩ := hreject.error { c with index := c.index - 1 } e c₁ hwalk he
    have hindex' : c.index - 1 ≤ e.decisive c₁.index := hindex
    refine ⟨by omega, fun c' hbeside hlt => ?_⟩
    exact hsame { c' with index := c'.index - 1 } ⟨hbeside.left_eq, hbeside.right_eq,
      congrArg (· - 1) hbeside.index_eq, hbeside.depth_eq⟩ hlt

/-- A choice where there is a token. -/
theorem choice_of_getElem? {kind : TokenKind} {yes no : Parse α} {c : Cursor} {t : Token}
    (ht : c.tokens[c.index]? = some t) :
    (do if ← Parse.accept kind then yes else no : Parse α) c =
      (if t.kind = kind then Parse.advance >>= fun _ => yes else no : Parse α) c := by
  have hcheck : Parse.check kind c = .ok (t.kind == kind) c := check_of_getElem? ht kind
  by_cases hkind : t.kind = kind
  · rw [beq_iff_eq.2 hkind] at hcheck
    have haccept : Parse.accept kind c = .ok true { c with index := c.index + 1 } := by
      rw [Parse.accept, bind_of_ok hcheck]
      rfl
    rw [if_pos hkind, bind_of_ok haccept]
    rfl
  · rw [beq_eq_false_iff_ne.2 hkind] at hcheck
    have haccept : Parse.accept kind c = .ok false c := by
      rw [Parse.accept, bind_of_ok hcheck]
      rfl
    rw [if_neg hkind, bind_of_ok haccept]
    rfl

/-- **A choice by the next token.** -/
theorem agrees_choice {kind : TokenKind} {yes no yes' no' : Parse α}
    (hyes : f.Agrees 1 passed seen yes yes') (hno : f.Agrees 0 passed seen no no') :
    f.Agrees 0 passed seen (do if ← Parse.accept kind then yes else no)
      (do if ← Parse.accept kind then yes' else no') := by
  refine agrees_of_next (fun c hnone => ⟨_, _, bind_of_error (accept_of_none hnone kind), id⟩)
    (fun _ _ ht => choice_of_getElem? ht) (fun _ _ ht => choice_of_getElem? ht) fun t t' hkind => ?_
  rw [hkind]
  split
  · exact (agrees_advance_bind hyes).mono (Nat.le_refl 0) (Nat.le_succ passed)
  · exact hno

/-- Outside all functions, a return is complained about behind its keyword. -/
theorem return_apply {rest : Token → Parse α} {after : Token → β → Parse α} {c : Cursor}
    {t : Token} (ht : Parse.previous c = .ok t c) :
    (Parse.previous >>= fun keyword => get >>= fun (c : Cursor) =>
      if c.functionDepth = 0 then throw (.topLevelReturn keyword) >>= after keyword
      else rest keyword) c =
      if c.functionDepth = 0 then .error (.topLevelReturn t) c else rest t c := by
  rw [bind_of_ok ht, get_bind_apply]
  split <;> rfl

/-- **The rest of a return,** behind its keyword. -/
theorem agrees_return {rest rest' : Token → Parse α} {after after' : Token → β → Parse α}
    (h : ∀ t t', t'.kind = t.kind → f.Agrees 1 passed seen (rest t) (rest' t')) :
    f.Agrees 1 passed seen
      (Parse.previous >>= fun keyword => get >>= fun (c : Cursor) =>
        if c.functionDepth = 0 then throw (.topLevelReturn keyword) >>= after keyword
        else rest keyword)
      (Parse.previous >>= fun keyword => get >>= fun (c : Cursor) =>
        if c.functionDepth = 0 then throw (.topLevelReturn keyword) >>= after' keyword
        else rest' keyword) where
  ok c a c₁ hwalk := by
    obtain ⟨t, c₂, hprevious, -⟩ := bind_eq_ok hwalk
    obtain ⟨rfl, i, hi, ht⟩ := peek_eq_ok hprevious
    -- outside functions the walk fails, so that it is inside one
    rw [return_apply hprevious] at hwalk
    split at hwalk
    · contradiction
    next hdepth =>
    obtain ⟨honward, -⟩ := (h t t rfl).ok c₂ a c₁ hwalk
    have hindex := honward.index_le
    refine ⟨honward, fun c' hbeside hlt => ?_⟩
    -- the depth is the same on the right, and so is the kind of the keyword
    obtain ⟨-, t', -, hkind, hprevious'⟩ := hbeside.peek hi ht (by omega)
    rw [return_apply hprevious', if_neg (hbeside.depth_eq ▸ hdepth)]
    exact ((h t t' hkind).ok c₂ a c₁ hwalk).2 c' hbeside hlt
  error c e c₁ hwalk he := by
    obtain hprevious | ⟨t, c₂, hprevious, -⟩ := bind_eq_error hwalk
    · obtain rfl := peek_eq_error hprevious
      contradiction
    obtain ⟨rfl, i, hi, ht⟩ := peek_eq_ok hprevious
    rw [return_apply hprevious] at hwalk
    -- the keyword has been passed, so that it is in front of the fork if anything behind it is
    split at hwalk
    next hdepth =>
      obtain ⟨rfl, rfl⟩ := EStateM.Result.error.inj hwalk
      obtain rfl : i = c₂.index - 1 := by omega
      refine ⟨by change c₂.index ≤ c₂.index - 1 + 1; omega, fun c' hbeside hlt => ?_⟩
      obtain ⟨hleft, t', hright, -, hprevious'⟩ := hbeside.peek hi ht hlt
      refine ⟨.topLevelReturn t', c', ?_, hbeside.index_eq, fun _ => .topLevelReturn hleft hright⟩
      rw [return_apply hprevious', if_pos (hbeside.depth_eq ▸ hdepth)]
    next hdepth =>
      obtain ⟨hindex, -⟩ := (h t t rfl).error c₂ e c₁ hwalk he
      refine ⟨hindex, fun c' hbeside hlt => ?_⟩
      obtain ⟨-, t', -, hkind, hprevious'⟩ := hbeside.peek hi ht (by omega)
      rw [return_apply hprevious', if_neg (hbeside.depth_eq ▸ hdepth)]
      exact ((h t t' hkind).error c₂ e c₁ hwalk he).2 c' hbeside hlt

/-- **A walk inside one more function.** -/
theorem agrees_insideFunction (h : f.Agrees behind passed seen walk walk') :
    f.Agrees behind passed seen (Parse.insideFunction walk) (Parse.insideFunction walk') := by
  have hinside : ∀ {c c' : Cursor}, f.Beside c c' →
      f.Beside { c with functionDepth := c.functionDepth + 1 }
        { c' with functionDepth := c'.functionDepth + 1 } := fun hbeside =>
    ⟨hbeside.left_eq, hbeside.right_eq, hbeside.index_eq, congrArg (· + 1) hbeside.depth_eq⟩
  constructor
  · intro c a c₁ hwalk
    obtain ⟨c₂, hbody, rfl⟩ := insideFunction_eq_ok_iff.1 hwalk
    obtain ⟨honward, hsame⟩ := h.ok _ a c₂ hbody
    refine ⟨⟨honward.tokens_eq, Nat.sub_eq_of_eq_add honward.depth_eq, honward.index_le⟩,
      fun c' hbeside hlt => ?_⟩
    obtain ⟨b', c₂', hbody', hseen, hbeside₂⟩ := hsame _ (hinside hbeside) hlt
    exact ⟨b', _, insideFunction_eq_ok_iff.2 ⟨c₂', hbody', rfl⟩, hseen, hbeside₂.left_eq,
      hbeside₂.right_eq, hbeside₂.index_eq, congrArg (· - 1) hbeside₂.depth_eq⟩
  · intro c e c₁ hwalk he
    obtain ⟨c₂, hbody, rfl⟩ := insideFunction_eq_error_iff.1 hwalk
    obtain ⟨hindex, hsame⟩ := h.error _ e c₂ hbody he
    refine ⟨hindex, fun c' hbeside hlt => ?_⟩
    obtain ⟨e', c₂', hbody', hindex', hsameError⟩ := hsame _ (hinside hbeside) hlt
    exact ⟨e', _, insideFunction_eq_error_iff.2 ⟨c₂', hbody', rfl⟩, hindex', hsameError⟩

/-! ### Repetition -/

section Repetition

variable {seen₁ : β → κ₁} {turn turn' : β → Parse (Turn β α)} {atEnd atEnd' : SyntaxError}

/-- **The right side has a turn left** where the left side takes one, as long as it has as many
turns as tokens. -/
theorem exists_turn_left {b : β} (hpaced : Paced (turn b)) {c c' : Cursor}
    (hbeside : f.Beside c c') (hlt : c.index < f.length) {turns : Nat}
    (hturns : f.right.size ≤ c'.index + turns)
    (htakes : ∀ e c₁, turn b c = .error e c₁ → e.IsRejection) : ∃ left, turns = left + 1 := by
  cases turns with
  | succ left => exact ⟨left, rfl⟩
  | zero =>
    have hright : f.right[c'.index]? = none := Array.getElem?_eq_none hturns
    rw [hbeside.index_eq] at hright
    have hleft : c.tokens[c.index]? = none := by
      rw [hbeside.left_eq]
      exact f.getElem?_eq_none hlt hright
    obtain ⟨e, c₁, herror, hnot⟩ := hpaced.missing c hleft
    exact absurd (htakes e c₁ herror) hnot

theorem takes_of_ok {b : β} {result : Turn β α} {c c₁ : Cursor} (h : turn b c = .ok result c₁) :
    ∀ e c₂, turn b c = .error e c₂ → e.IsRejection := by
  intro e c₂ herror
  rw [h] at herror
  contradiction

/-- **A turn that goes on** in front of the fork goes on on the right side as well, which has turns
enough for what comes next. -/
theorem iterate_again (hpaced : ∀ b, Paced (turn b))
    (hturn : ∀ b b', seen₁ b' = seen₁ b → f.Agrees 0 0 (Turn.map seen₁ seen) (turn b) (turn' b'))
    {b b₁ : β} {c c₁ : Cursor} (hfirst : turn b c = .ok (.again b₁) c₁) (hlt : c₁.index < f.length)
    {n' : Nat} {b' : β} {c' : Cursor} (hb : seen₁ b' = seen₁ b) (hbeside : f.Beside c c')
    (hturns : f.right.size ≤ c'.index + n') :
    ∃ m b₁' c₁', iterate atEnd' turn' n' b' c' = iterate atEnd' turn' m b₁' c₁' ∧
      seen₁ b₁' = seen₁ b₁ ∧ f.Beside c₁ c₁' ∧ f.right.size ≤ c₁'.index + m := by
  have hstep := (hpaced b).onward c b₁ c₁ hfirst
  obtain ⟨m, rfl⟩ := exists_turn_left (hpaced b) hbeside (by omega) hturns (takes_of_ok hfirst)
  obtain ⟨result', c₁', hfirst', hseen, hbeside₁⟩ :=
    ((hturn b b' hb).ok c _ c₁ hfirst).2 c' hbeside hlt
  -- the turn on the right goes on because the one on the left does
  cases result' with
  | done a' => contradiction
  | again b₁' =>
    have hindex := hbeside.index_eq
    have hindex₁ := hbeside₁.index_eq
    exact ⟨m, b₁', c₁', by rw [iterate, hfirst'], Turn.again.inj hseen, hbeside₁, by omega⟩

/-- **A repetition that succeeds.** Both sides take the same turns. -/
theorem iterate_ok (hpaced : ∀ b, Paced (turn b))
    (hturn : ∀ b b', seen₁ b' = seen₁ b → f.Agrees 0 0 (Turn.map seen₁ seen) (turn b) (turn' b'))
    (n : Nat) : ∀ {b : β} {c c₁ : Cursor} {a : α}, iterate atEnd turn n b c = .ok a c₁ →
      Onward 0 c c₁ ∧ ∀ n' b' c', seen₁ b' = seen₁ b → f.Beside c c' →
        f.right.size ≤ c'.index + n' → c₁.index < f.length →
        ∃ a' c₁', iterate atEnd' turn' n' b' c' = .ok a' c₁' ∧ seen a' = seen a ∧
          f.Beside c₁ c₁' := by
  induction n with
  | zero => intro b c c₁ a h; contradiction
  | succ n ih =>
    intro b c c₂ a h
    rw [iterate] at h
    cases hfirst : turn b c with
    | error e c₁ => rw [hfirst] at h; contradiction
    | ok result c₁ =>
      rw [hfirst] at h
      obtain ⟨honward₁, -⟩ := (hturn b b rfl).ok c result c₁ hfirst
      have hindex₁ := honward₁.index_le
      cases result with
      -- the last turn is the last one on the right too
      | done a₁ =>
        obtain ⟨rfl, rfl⟩ := EStateM.Result.ok.inj h
        refine ⟨honward₁, fun n' b' c' hb hbeside hturns hlt => ?_⟩
        obtain ⟨m, rfl⟩ :=
          exists_turn_left (hpaced b) hbeside (by omega) hturns (takes_of_ok hfirst)
        obtain ⟨result', c₁', hfirst', hseen, hbeside₁⟩ :=
          ((hturn b b' hb).ok c _ c₁ hfirst).2 c' hbeside hlt
        cases result' with
        | again b₁ => contradiction
        | done a' =>
          refine ⟨a', c₁', ?_, Turn.done.inj hseen, hbeside₁⟩
          rw [iterate, hfirst']
      -- the turn goes on on the right too, and leaves the rest of the turns for the others
      | again b₁ =>
        obtain ⟨honward₂, hsame₂⟩ := ih h
        have hindex₂ := honward₂.index_le
        refine ⟨honward₁.trans honward₂, fun n' b' c' hb hbeside hturns hlt => ?_⟩
        obtain ⟨m, b₁', c₁', hiterate, hb₁, hbeside₁, hturns₁⟩ :=
          iterate_again hpaced hturn hfirst (by omega) hb hbeside hturns
        rw [hiterate]
        exact hsame₂ m b₁' c₁' hb₁ hbeside₁ hturns₁ hlt

/-- **A repetition that fails.** Both sides take the same turns up to the one that fails. -/
theorem iterate_error (hatEnd : ¬ atEnd.IsRejection) (hpaced : ∀ b, Paced (turn b))
    (hturn : ∀ b b', seen₁ b' = seen₁ b → f.Agrees 0 0 (Turn.map seen₁ seen) (turn b) (turn' b'))
    (n : Nat) : ∀ {b : β} {c c₁ : Cursor} {e : SyntaxError},
      iterate atEnd turn n b c = .error e c₁ → e.IsRejection →
      c.index ≤ e.decisive c₁.index ∧ ∀ n' b' c', seen₁ b' = seen₁ b → f.Beside c c' →
        f.right.size ≤ c'.index + n' → e.decisive c₁.index < f.length →
        f.FailsLike e c₁.index (iterate atEnd' turn' n' b' c') := by
  induction n with
  | zero =>
    intro b c c₁ e h he
    obtain ⟨rfl, -⟩ := EStateM.Result.error.inj h
    -- to be out of turns is no rejection
    exact absurd he hatEnd
  | succ n ih =>
    intro b c c₂ e h he
    rw [iterate] at h
    cases hfirst : turn b c with
    -- the turn that fails, fails on the right as well
    | error e' c₁ =>
      rw [hfirst] at h
      obtain ⟨rfl, rfl⟩ := EStateM.Result.error.inj h
      obtain ⟨hindex, -⟩ := (hturn b b rfl).error c e' c₁ hfirst he
      refine ⟨hindex, fun n' b' c' hb hbeside hturns hlt => ?_⟩
      have htakes : ∀ e c₁, turn b c = .error e c₁ → e.IsRejection := by
        intro e₂ c₂ herror
        rw [hfirst] at herror
        exact (EStateM.Result.error.inj herror).1 ▸ he
      obtain ⟨m, rfl⟩ := exists_turn_left (hpaced b) hbeside (by omega) hturns htakes
      obtain ⟨e₂, c₁', hfirst', hrest⟩ :=
        ((hturn b b' hb).error c e' c₁ hfirst he).2 c' hbeside hlt
      exact ⟨e₂, c₁', by rw [iterate, hfirst'], hrest⟩
    | ok result c₁ =>
      rw [hfirst] at h
      cases result with
      | done a => contradiction
      | again b₁ =>
        -- the failing turn is a later one, and this one is taken on the right as well
        obtain ⟨hindex₂, hsame₂⟩ := ih h he
        have hstep := (hpaced b).onward c b₁ c₁ hfirst
        refine ⟨by omega, fun n' b' c' hb hbeside hturns hlt => ?_⟩
        obtain ⟨m, b₁', c₁', hiterate, hb₁, hbeside₁, hturns₁⟩ :=
          iterate_again hpaced hturn hfirst (by omega) hb hbeside hturns
        rw [hiterate]
        exact hsame₂ m b₁' c₁' hb₁ hbeside₁ hturns₁ hlt

/-- **Repetition.** Every turn keeps pace with the tokens, so that neither side runs out of turns in
front of the fork. -/
theorem agrees_repeated (hatEnd : ¬ atEnd.IsRejection) (hpaced : ∀ b, Paced (turn b))
    (hturn : ∀ b b', seen₁ b' = seen₁ b → f.Agrees 0 0 (Turn.map seen₁ seen) (turn b) (turn' b'))
    {b b' : β} (hb : seen₁ b' = seen₁ b) :
    f.Agrees 0 0 seen (Parse.repeated atEnd turn b) (Parse.repeated atEnd' turn' b') := by
  have hturns : ∀ {c c' : Cursor}, f.Beside c c' → f.right.size ≤ c'.index + c'.remaining := by
    intro c c' hbeside
    rw [Cursor.remaining, hbeside.right_eq]
    omega
  constructor
  · intro c a c₁ hwalk
    obtain ⟨honward, hsame⟩ := iterate_ok hpaced hturn c.remaining hwalk
    exact ⟨honward, fun c' hbeside hlt => hsame _ b' c' hb hbeside (hturns hbeside) hlt⟩
  · intro c e c₁ hwalk he
    obtain ⟨hindex, hsame⟩ := iterate_error hatEnd hpaced hturn c.remaining hwalk he
    exact ⟨hindex, fun c' hbeside hlt => hsame _ b' c' hb hbeside (hturns hbeside) hlt⟩

end Repetition

end Fork

end Lox
