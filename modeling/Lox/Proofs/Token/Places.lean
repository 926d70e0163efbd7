import Lox.Proofs.Token.Scan

/-!
# Places of tokens

A walk counts the characters and the lines that it has passed, those inside strings and comments
included. So the place that a token claims is the one where it stands in the source.

* `Position.after` — the position behind a text, and `Position.after_eq`, what is counted there;
* `scanFrom_places` — where the tokens of a walk stand;
* `tokenize_line_eq` — the line of a token is one more than the number of newlines before it.
-/

namespace Lox

/-- **The position behind a text** that starts here. -/
def Position.after (here : Position) (text : List Char) : Position := text.foldl .advance here

@[simp] theorem Position.after_nil (here : Position) : here.after [] = here := rfl

@[simp] theorem Position.after_cons (here : Position) (c : Char) (text : List Char) :
    here.after (c :: text) = (here.advance c).after text := rfl

theorem Position.after_append (here : Position) (text more : List Char) :
    here.after (text ++ more) = (here.after text).after more := List.foldl_append

/-- **What is counted:** all characters, and among them the newlines. -/
theorem Position.after_eq (here : Position) (text : List Char) :
    here.after text = ⟨here.offset + text.length, here.line + text.count '\n'⟩ := by
  induction text generalizing here with
  | nil => rfl
  | cons c text ih =>
    rw [after_cons, ih, advance, List.length_cons, List.count_cons]
    by_cases hc : c = '\n'
    · simp only [hc, if_true, BEq.rfl]
      congr 1 <;> omega
    · simp only [hc, if_false, beq_iff_eq]
      congr 1
      omega

/-- **The place of a token** in a text that starts `here`: it claims the position of one of the
characters, or of the end. -/
def Token.StandsIn (t : Token) (here : Position) (text : List Char) : Prop :=
  ∃ before rest, text = before ++ rest ∧ t.start = (here.after before).offset ∧
    t.line = (here.after before).line

theorem Token.StandsIn.cons {t : Token} {here : Position} {c : Char} {text : List Char}
    (h : t.StandsIn (here.advance c) text) : t.StandsIn here (c :: text) := by
  obtain ⟨before, rest, rfl, hstart, hline⟩ := h
  exact ⟨c :: before, rest, rfl, hstart, hline⟩

/-- **Every token of a walk** stands in the text, if it was not there before. -/
theorem scanFrom_places {source : List Char} {tokens result : Array Token} {here : Position}
    {text : List Char} {skip : Nat} (h : scanFrom source tokens here text skip = .ok result) :
    ∀ t ∈ result, t ∈ tokens ∨ t.StandsIn here text := by
  induction text generalizing tokens here skip with
  | nil =>
    rw [scanFrom] at h
    obtain rfl := Except.ok.inj h
    intro t ht
    obtain ht | rfl := Array.mem_push.1 ht
    · exact .inl ht
    · -- the token for the end stands behind all of the text
      exact .inr ⟨[], [], rfl, rfl, rfl⟩
  | cons c rest ih =>
    -- what stands in the rest stands in the text, one character later
    have hlater : ∀ {tokens' : Array Token} {skip' : Nat},
        scanFrom source tokens' (here.advance c) rest skip' = .ok result →
        ∀ t ∈ result, t ∈ tokens' ∨ t.StandsIn here (c :: rest) :=
      fun h' t ht => (ih h' t ht).imp_right Token.StandsIn.cons
    cases skip with
    | succ skip => exact hlater h
    | zero =>
      rw [scanFrom] at h
      split at h
      · exact hlater h
      next kind length value _ =>
        intro t ht
        obtain ht | ht := hlater h t ht
        · obtain ht | rfl := Array.mem_push.1 ht
          · exact .inl ht
          · -- a new token stands where the text begins
            exact .inr ⟨[], c :: rest, rfl, rfl, rfl⟩
        · exact .inr ht
      all_goals contradiction

/-- **The place of a token** in its source. -/
theorem tokenize_standsIn {source : String} {tokens : Array Token}
    (h : tokenize source = .ok tokens) {t : Token} (ht : t ∈ tokens) :
    t.StandsIn .start source.toList := by
  obtain ht | ht := scanFrom_places h t ht
  · exact absurd ht (Array.not_mem_empty t)
  · exact ht

/-- **The line of a token** is one more than the number of newlines before it. -/
theorem tokenize_line_eq {source : String} {tokens : Array Token}
    (h : tokenize source = .ok tokens) {t : Token} (ht : t ∈ tokens) :
    ∃ before rest, source.toList = before ++ rest ∧ t.start = before.length ∧
      t.line = 1 + before.count '\n' := by
  obtain ⟨before, rest, hsource, hstart, hline⟩ := tokenize_standsIn h ht
  rw [Position.after_eq] at hstart hline
  refine ⟨before, rest, hsource, ?_, ?_⟩
  · rw [hstart]
    simp [Position.start]
  · rw [hline]
    simp [Position.start]

/-- **The lines of a source** begin with one, and every newline begins another. -/
theorem tokenize_line_le {source : String} {tokens : Array Token}
    (h : tokenize source = .ok tokens) {t : Token} (ht : t ∈ tokens) :
    1 ≤ t.line ∧ t.line ≤ 1 + source.toList.count '\n' := by
  obtain ⟨before, rest, hsource, -, hline⟩ := tokenize_line_eq h ht
  have hcount : source.toList.count '\n' = before.count '\n' + rest.count '\n' := by
    rw [hsource, List.count_append]
  omega

end Lox
