import Lox.Grammar.Production
import Lox.Proofs.Outcome
import Lox.Proofs.Trace.Tree

/-!
# What walks record

A walk over tokens records a word of visits. If it comes to a result the word is balanced, and the
result tells which word it is. If it fails, the entries without an exit are the productions that its
error has left. The error of a plain walk does not know them; so a walk is compared with the same walk
over errors that are told of every production that they leave. A rule for each way in which walks are
put together makes such statements compose.

* `Halt` — errors with the productions in progress, `Backtraced` the walks that fail with them;
* `Records` — what a walk records, together with the same walk with a backtrace;
* `records_bind`, `records_repeated` — walks one after the other;
* `quiet_check`, `quiet_accept`, `quiet_expect` — the single moves, which record nothing;
* `records_traced` — productions.
-/

namespace Lox

variable {α β : Type}

/-! ### Errors with a backtrace -/

/-- **Errors with a backtrace:** the productions in progress, the innermost last. -/
structure Halt where
  error : SyntaxError
  inProgress : List Production

/-- An error adds the productions that it leaves. -/
instance : Failure Halt where
  of e := ⟨e, []⟩
  leaving production h := ⟨h.error, production :: h.inProgress⟩

/-- **Walks with a backtrace.** -/
abbrev Backtraced := Walk Halt

/-! ### Walks -/

/-- **A walk from `c` has come to a result:** it has recorded a balanced word, of which `said` is
true together with the result. -/
def Cursor.Recorded (said : α → List Visit → Prop) (c : Cursor) (a : α) (c' : Cursor) : Prop :=
  ∃ word, c'.visits = word.reverse ++ c.visits ∧ Balanced word ∧ said a word

/-- **A walk from `c` has failed:** the entries without an exit are those of the productions in
progress. -/
def Cursor.Halted (c : Cursor) (h : Halt) (c' : Cursor) : Prop :=
  ∃ word, c'.visits = word.reverse ++ c.visits ∧ unmatched word = some h.inProgress.reverse

/-- **What a walk records.** With a backtrace it does the same as without. -/
def Records (said : α → List Visit → Prop) (traced : Backtraced α) (walk : Parse α) : Prop :=
  ∀ c, Conveys id Halt.error id (c.Recorded said) c.Halted traced walk c

variable {said : α → List Visit → Prop} {traced : Backtraced α} {walk : Parse α}

/-- What a walk records behind another one. -/
theorem Records.after {before : List Visit} {c c' : Cursor}
    (h : Records (fun a word => said a (before ++ word)) traced walk)
    (hvisits : c'.visits = before.reverse ++ c.visits) (hbefore : Balanced before) :
    Conveys id Halt.error id (c.Recorded said) c.Halted traced walk c' := by
  refine (h c').mono ?_ ?_
  · rintro a c'' ⟨word, hvisits', hword, ha⟩
    refine ⟨before ++ word, ?_, hbefore.append hword, ha⟩
    rw [hvisits', hvisits, List.reverse_append, List.append_assoc]
  · rintro e c'' ⟨word, hvisits', hword⟩
    refine ⟨before ++ word, ?_, (hbefore.unmatched_append word).trans hword⟩
    rw [hvisits', hvisits, List.reverse_append, List.append_assoc]

theorem Records.mono {said' : α → List Visit → Prop} (h : Records said traced walk)
    (hsaid : ∀ a word, said a word → said' a word) : Records said' traced walk := fun c =>
  (h c).mono (fun a _ ⟨word, hvisits, hword, ha⟩ => ⟨word, hvisits, hword, hsaid a word ha⟩)
    fun _ _ he => he

theorem records_pure {a : α} (ha : said a []) : Records said (pure a) (pure a) :=
  fun _ => ⟨rfl, [], rfl, balanced_nil, ha⟩

theorem records_fail (e : SyntaxError) : Records said (Parse.fail e) (Parse.fail e) :=
  fun _ => ⟨rfl, [], rfl, rfl⟩

/-- **One walk after the other.** -/
theorem records_bind {first : β → List Visit → Prop} {traced : Backtraced β} {walk : Parse β}
    {next : β → Backtraced α} {next' : β → Parse α} (h : Records first traced walk)
    (hnext : ∀ b word, first b word →
      Records (fun a word' => said a (word ++ word')) (next b) (next' b)) :
    Records said (traced >>= next) (walk >>= next') := by
  refine fun c => conveys_bind ((h c).mono ?_ fun _ _ he => he)
  rintro b c' ⟨word, hvisits, hword, hb⟩
  exact (hnext b word hb).after hvisits hword

theorem records_get_bind {next : Cursor → Backtraced α} {next' : Cursor → Parse α}
    (hnext : ∀ c, Records said (next c) (next' c)) :
    Records said (get >>= next) (get >>= next') := fun c => hnext c c

/-! ### Moves -/

/-- **A quiet walk** records nothing, and its errors have left no production. -/
def Quiet (traced : Backtraced α) (walk : Parse α) : Prop :=
  Records (fun _ word => word = []) traced walk

/-- A quiet walk in front of another one. -/
theorem records_quiet_bind {traced : Backtraced β} {walk : Parse β} {next : β → Backtraced α}
    {next' : β → Parse α} (h : Quiet traced walk) (hnext : ∀ b, Records said (next b) (next' b)) :
    Records said (traced >>= next) (walk >>= next') := by
  refine records_bind h ?_
  rintro b word rfl
  exact hnext b

theorem quiet_pure (a : α) : Quiet (pure a) (pure a) := records_pure rfl

theorem quiet_peek (distance : Int) : Quiet (Parse.peek distance) (Parse.peek distance) := by
  refine records_get_bind fun c => ?_
  by_cases hnegative : (c.index : Int) + distance < 0
  · -- nothing is looked up after the failure
    have hfails : Records (fun _ _ => False) (Parse.fail .badIndex : Backtraced Unit)
        (Parse.fail .badIndex) := records_fail _
    simp only [if_pos hnegative]
    exact records_bind hfails fun _ _ h => h.elim
  · simp only [if_neg hnegative]
    cases c.tokens[((c.index : Int) + distance).toNat]? with
    | some token => exact quiet_pure token
    | none => exact records_fail _

theorem quiet_check (kind : TokenKind) : Quiet (Parse.check kind) (Parse.check kind) := by
  refine records_get_bind fun c => ?_
  cases c.tokens[c.index]? with
  | some token => exact quiet_pure _
  | none => exact records_fail _

theorem quiet_advance : Quiet Parse.advance Parse.advance :=
  fun _ => ⟨rfl, [], rfl, balanced_nil, rfl⟩

theorem quiet_retreat : Quiet Parse.retreat Parse.retreat :=
  fun _ => ⟨rfl, [], rfl, balanced_nil, rfl⟩

theorem quiet_accept (kind : TokenKind) : Quiet (Parse.accept kind) (Parse.accept kind) := by
  refine records_quiet_bind (quiet_check kind) fun next => ?_
  cases next with
  | true => exact records_quiet_bind quiet_advance fun _ => quiet_pure true
  | false => exact quiet_pure false

/-- A complaint has no result. -/
theorem records_reject (about : Complaint) :
    Records said (Parse.reject about) (Parse.reject about) := by
  refine records_quiet_bind ?_ fun e => records_fail e
  exact records_quiet_bind (quiet_peek 0) fun _ => quiet_pure _

theorem quiet_expect (kind : TokenKind) (about : Complaint) :
    Quiet (Parse.expect kind about) (Parse.expect kind about) := by
  refine records_quiet_bind (quiet_accept kind) fun accepted => ?_
  cases accepted with
  | true => exact quiet_peek (-1)
  | false => exact records_reject about

/-! ### Productions -/

/-- The cursor when a production has been entered or left. -/
def Cursor.visited (c : Cursor) (visit : Visit) : Cursor := { c with visits := visit :: c.visits }

theorem Parse.traced_apply {ε : Type} [Failure ε] (production : Production) (body : Walk ε α)
    (c : Cursor) :
    Parse.traced production body c = match body (c.visited (.entering production)) with
      | .ok a c' => .ok a (c'.visited (.exiting production))
      | .error e c' => .error (Failure.leaving production e) c' := by
  change EStateM.bind (Parse.naming production body) _ (c.visited (.entering production)) = _
  unfold EStateM.bind Parse.naming
  cases body (c.visited (.entering production)) <;> rfl

/-- **A production** puts its brackets around the word inside. An error that leaves it leaves its
entry without an exit. -/
theorem records_traced {production : Production}
    (h : Records (fun a word => said a (production.around word)) traced walk) :
    Records said (Parse.traced production traced) (Parse.traced production walk) := by
  intro c
  obtain ⟨hsame, hends⟩ := h (c.visited (.entering production))
  change _ = walk (c.visited (.entering production)) at hsame
  change Outcome.map id Halt.error id (Parse.traced production traced c) =
    Parse.traced production walk c ∧ Outcome _ _ (Parse.traced production traced c)
  rw [Parse.traced_apply, Parse.traced_apply, ← hsame]
  -- the exit is recorded only where the production comes to its end
  cases hact : traced (c.visited (.entering production)) with
  | ok a c' =>
    rw [hact] at hends
    obtain ⟨word, hvisits, hword, ha⟩ := hends
    refine ⟨rfl, production.around word, ?_, hword.around production, ha⟩
    simp [Cursor.visited, hvisits, Production.around]
  | error e c' =>
    rw [hact] at hends
    obtain ⟨word, hvisits, hword⟩ := hends
    refine ⟨rfl, .entering production :: word, ?_, ?_⟩
    · simp [Cursor.visited, hvisits]
    · change unmatched _ = some (production :: e.inProgress).reverse
      rw [List.reverse_cons]
      exact unmatched_entering production hword

/-- **Repetition.** -/
theorem records_repeated (keeps : β → List Visit → Prop) {atEnd : SyntaxError}
    {turn : β → Backtraced (Turn β α)} {turn' : β → Parse (Turn β α)}
    (hturn : ∀ b word, keeps b word → Records
      (fun next word' => Turn.Says keeps said next (word ++ word')) (turn b) (turn' b))
    {b : β} (hb : keeps b []) :
    Records said (Parse.repeated atEnd turn b) (Parse.repeated atEnd turn' b) := by
  intro c
  change Conveys id Halt.error id _ _ (iterate (⟨atEnd, []⟩ : Halt) turn c.remaining b)
    (iterate (Halt.error ⟨atEnd, []⟩) turn' c.remaining (id b)) c
  -- every turn adds to the word of the turns before it
  refine conveys_iterate (c.Recorded keeps) ?_ ?_ c.remaining b c
    ⟨[], rfl, balanced_nil, hb⟩
  · rintro b c' ⟨word, hvisits, hword, hkeeps⟩
    rw [Turn.map_id]
    refine ((hturn b word hkeeps).after hvisits hword).mono ?_ fun _ _ he => he
    rintro next c'' ⟨word', hvisits', hword', hnext⟩
    cases next <;> exact ⟨word', hvisits', hword', hnext⟩
  · rintro b c' ⟨word, hvisits, hword, -⟩
    exact ⟨word, hvisits, hword⟩

/-- **A walk inside one more function.** -/
theorem records_insideFunction (h : Records said traced walk) :
    Records said (Parse.insideFunction traced) (Parse.insideFunction walk) := by
  intro c
  obtain ⟨hsame, hends⟩ := h { c with functionDepth := c.functionDepth + 1 }
  change _ = walk { c with functionDepth := c.functionDepth + 1 } at hsame
  change Outcome.map id Halt.error id (Parse.insideFunction traced c) =
    Parse.insideFunction walk c ∧ Outcome _ _ (Parse.insideFunction traced c)
  unfold Parse.insideFunction
  rw [← hsame]
  cases hact : traced { c with functionDepth := c.functionDepth + 1 } with
  | ok a c' =>
    rw [hact] at hends
    exact ⟨rfl, hends⟩
  | error e c' =>
    rw [hact] at hends
    exact ⟨rfl, hends⟩

end Lox
