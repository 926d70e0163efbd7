import Lox.Proofs.Token.Longest
import Lox.Proofs.Token.Places

/-!
# The reference scanner

A scanner by rules: skip a character of white space, skip a comment, or take the longest lexeme. It
has no branches to be tried in order and no counters that could go wrong. Tokenizing a source is the
same: it gives the tokens of the reference scanner when that reaches the end of the source, and the
error of the place where no rule applies when it does not.

* `Reached` — what the reference scanner can have read, with the text that it has left;
* `Stuck` — the places where it cannot go on, and the errors there;
* `Reached.scanFrom_eq` — the walk over the source passes through every place that is reached;
* `Reached.step`, `Reached.finishes` — it goes on to the end or to a place where it is stuck;
* `reached_of_tokenize`, `stuck_of_tokenize` — what has been read of an accepted and a refused
  source;
* `tokenize_eq_reference` — the two scanners agree on every source.
-/

namespace Lox

/-! ### Rules -/

/-- **The token of a lexeme** with this text before it. -/
def Token.behind (before : List Char) (kind : TokenKind) (lexeme : List Char) : Token where
  kind := kind
  lexeme := String.ofList lexeme
  value := valueOf kind lexeme
  start := before.length
  line := 1 + before.count '\n'

/-- **The reference scanner.** `Reached source body before text` says that it has read the tokens
`body` from the front `before` of the source, and that `text` is left. A comment ends where its line
does. -/
inductive Reached (source : List Char) : List Token → List Char → List Char → Prop
  | start : Reached source [] [] source
  | space {body : List Token} {before text : List Char} {c : Char}
    (h : Reached source body before (c :: text)) (hc : isSpace c = true) :
    Reached source body (before ++ [c]) text
  | comment {body : List Token} {before comment text : List Char}
    (h : Reached source body before ('/' :: '/' :: (comment ++ text))) (hcomment : '\n' ∉ comment)
    (htext : ∀ c ∈ text.head?, c = '\n') :
    Reached source body (before ++ '/' :: '/' :: comment) text
  | lexeme {body : List Token} {before lexeme text : List Char} {kind : TokenKind}
    (h : Reached source body before (lexeme ++ text)) (hgap : ¬ BeginsGap (lexeme ++ text))
    (hlexeme : Longest (lexeme ++ text) kind lexeme) :
    Reached source (body ++ [.behind before kind lexeme]) (before ++ lexeme) text

/-- **Places without a rule:** a quote with no quote behind it, and a character that is no white
space and begins no comment and no lexeme. -/
inductive Stuck (source before : List Char) : List Char → ScanError → Prop
  | quote {rest : List Char} (hrest : '"' ∉ rest) :
    Stuck source before ('"' :: rest)
      (.unterminatedString (1 + before.count '\n') (contextAt source before.length))
  | character {c : Char} {rest : List Char} (hgap : ¬ BeginsGap (c :: rest)) (hquote : c ≠ '"')
    (hnone : ∀ kind lexeme, IsLexeme kind lexeme → ¬ lexeme <+: c :: rest) :
    Stuck source before (c :: rest)
      (.unexpectedCharacter (1 + before.count '\n') before.length (contextAt source before.length))

/-! ### The walk -/

/-- **Skipping** the rest of what was read last. -/
theorem scanFrom_skip (source : List Char) (tokens : Array Token) (here : Position)
    (skipped text : List Char) : scanFrom source tokens here (skipped ++ text) skipped.length =
      scanFrom source tokens (here.after skipped) text 0 := by
  induction skipped generalizing here with
  | nil => rfl
  | cons c skipped ih => exact ih (here.advance c)

/-- **A token in its place** is the one that the walk collects there. -/
theorem Token.behind_eq (before : List Char) (kind : TokenKind) (lexeme : List Char) :
    (⟨kind, String.ofList lexeme, valueOf kind lexeme, (Position.start.after before).offset,
      (Position.start.after before).line⟩ : Token) = .behind before kind lexeme := by
  rw [Position.after_eq]
  simp [behind, Position.start]

namespace Reached

variable {source before text : List Char} {body : List Token}

theorem append_eq (h : Reached source body before text) : before ++ text = source := by
  induction h with
  | start => rfl
  | space _ _ ih | comment _ _ _ ih | lexeme _ _ _ ih => simpa using ih

/-- **A place that is reached** is one that the walk passes through, with the same tokens. -/
theorem scanFrom_eq (h : Reached source body before text) :
    scanFrom source #[] .start source 0 =
      scanFrom source body.toArray (Position.start.after before) text 0 := by
  induction h with
  | start => rfl
  | space _ hc ih =>
    rw [ih, scanFrom, Lexeme.read_space hc, Position.after_append]
    rfl
  | @comment body before comment text _ hcomment htext ih =>
    rw [ih, scanFrom, Lexeme.read_comment hcomment htext, Position.after_append]
    exact scanFrom_skip source body.toArray _ ('/' :: comment) text
  | @lexeme body before lexeme text kind _ hgap hlexeme ih =>
    obtain ⟨c, rest, rfl⟩ := List.exists_cons_of_ne_nil hlexeme.isLexeme.ne_nil
    rw [List.cons_append] at ih hgap hlexeme
    have htake : (c :: (rest ++ text)).take (c :: rest).length = c :: rest :=
      List.take_left' rfl
    rw [ih, scanFrom, Lexeme.read_of_longest hgap hlexeme, Position.after_append]
    simp only [htake, Token.behind_eq, List.push_toArray]
    exact scanFrom_skip source _ _ rest text

/-- **The end of the source.** -/
theorem tokenize_eq_ok {source : String} (h : Reached source.toList body source.toList []) :
    tokenize source = .ok (body ++ [Token.behind source.toList .eof []]).toArray := by
  rw [tokenize, h.scanFrom_eq, scanFrom, ← List.push_toArray, ← Token.behind_eq]
  rfl

/-- **A place without a rule.** -/
theorem tokenize_eq_error {source : String} {e : ScanError}
    (h : Reached source.toList body before text) (hstuck : Stuck source.toList before text e) :
    tokenize source = .error e := by
  have hplace : Position.start.after before = ⟨before.length, 1 + before.count '\n'⟩ := by
    rw [Position.after_eq, Position.start, Nat.zero_add]
  rw [tokenize, h.scanFrom_eq, hplace]
  cases hstuck with
  | quote hrest => rw [scanFrom, Lexeme.read_quote hrest]
  | character hgap hquote hnone => rw [scanFrom, Lexeme.read_of_none hgap hquote hnone]

/-- **A step.** At every place but the end there is a rule to go on with, or none and the reference
scanner is stuck. -/
theorem step (h : Reached source body before text) :
    text = [] ∨ (∃ e, Stuck source before text e) ∨
      ∃ body' before' text', Reached source body' before' text' ∧ text'.length < text.length := by
  cases text with
  | nil => exact .inl rfl
  | cons c rest =>
    right
    by_cases hgap : BeginsGap (c :: rest)
    · right
      obtain hspace | ⟨rfl, hslash⟩ := hgap
      · exact ⟨_, _, rest, h.space hspace, Nat.lt_succ_self _⟩
      · obtain ⟨rest, rfl⟩ := List.head?_eq_some_iff.1 hslash
        -- the comment is all up to the newline
        have hsplit := List.takeWhile_append_dropWhile (p := (· != '\n')) (l := rest)
        rw [← hsplit] at h
        refine ⟨_, _, _, h.comment (fun hmem => by simpa using List.mem_takeWhile_imp hmem) ?_, ?_⟩
        · exact fun d hd => bne_eq_false_iff_eq.1 (head?_dropWhile_eq d hd)
        · have := (List.dropWhile_sublist (· != '\n') (l := rest)).length_le
          simp only [List.length_cons]
          omega
    · -- no gap begins here, so that the longest lexeme is read if there is one
      have hread := Lexeme.describes_read hgap
      cases hlexeme : Lexeme.read c rest with
      | gap => rw [hlexeme] at hread; exact hread.elim
      | unknown => rw [hlexeme] at hread; exact hread.elim
      | unterminated =>
        rw [hlexeme] at hread
        obtain ⟨rest', hcons, hrest⟩ := hread
        rw [hcons]
        exact .inl ⟨_, .quote hrest⟩
      | unexpected =>
        rw [hlexeme] at hread
        exact .inl ⟨_, .character hgap (fun heq => hread.1 (congrArg some heq)) hread.2⟩
      | token kind length value =>
        rw [hlexeme] at hread
        obtain ⟨lexeme, hlongest, -⟩ := hread
        -- the lexeme is not empty, so that less is left
        obtain ⟨text', htext⟩ := hlongest.isPrefix
        rw [← htext] at h hgap hlongest ⊢
        refine .inr ⟨_, _, text', h.lexeme hgap hlongest, ?_⟩
        rw [List.length_append]
        exact Nat.lt_add_of_pos_left (List.length_pos_iff.2 hlongest.isLexeme.ne_nil)

/-- **Progress.** From every place the reference scanner reaches the end, or a place where it is
stuck. -/
theorem finishes (h : Reached source body before text) :
    (∃ body', Reached source body' source []) ∨
      ∃ body' before' text' e, Reached source body' before' text' ∧ Stuck source before' text' e := by
  induction hlength : text.length using Nat.strong_induction_on generalizing body before text with
  | _ n ih =>
    subst hlength
    obtain rfl | ⟨e, hstuck⟩ | ⟨body', before', text', hnext, hless⟩ := h.step
    · obtain rfl : before = source := by simpa using h.append_eq
      exact .inl ⟨body, h⟩
    · exact .inr ⟨body, before, text, e, h, hstuck⟩
    · exact ih text'.length hless hnext rfl

end Reached

/-- **A source that is accepted** has been read up to its end. -/
theorem reached_of_tokenize {source : String} {tokens : Array Token}
    (h : tokenize source = .ok tokens) : ∃ body,
      Reached source.toList body source.toList [] ∧
        tokens.toList = body ++ [.behind source.toList .eof []] := by
  obtain ⟨body, hreached⟩ | ⟨body, before, text, e, hreached, hstuck⟩ :=
    (Reached.start : Reached source.toList [] [] _).finishes
  · rw [hreached.tokenize_eq_ok] at h
    exact ⟨body, hreached, by rw [← Except.ok.inj h]⟩
  · rw [hreached.tokenize_eq_error hstuck] at h
    contradiction

/-- **A source that is refused** has been read up to a place without a rule. -/
theorem stuck_of_tokenize {source : String} {e : ScanError} (h : tokenize source = .error e) :
    ∃ body before text,
      Reached source.toList body before text ∧ Stuck source.toList before text e := by
  obtain ⟨body, hreached⟩ | ⟨body, before, text, e', hreached, hstuck⟩ :=
    (Reached.start : Reached source.toList [] [] _).finishes
  · rw [hreached.tokenize_eq_ok] at h
    contradiction
  · rw [hreached.tokenize_eq_error hstuck] at h
    obtain rfl := Except.error.inj h
    exact ⟨body, before, text, hreached, hstuck⟩

/-- **Tokenizing is longest match.** A source has the tokens that the reference scanner reads up to
its end, with one more for the end itself, and it is refused exactly where the reference scanner is
stuck; no operator is ever matched that is not among the kinds. -/
theorem tokenize_eq_reference (source : String) :
    (∀ tokens, tokenize source = .ok tokens ↔ ∃ body,
      Reached source.toList body source.toList [] ∧
        tokens.toList = body ++ [.behind source.toList .eof []]) ∧
    (∀ e, tokenize source = .error e ↔ ∃ body before text,
      Reached source.toList body before text ∧ Stuck source.toList before text e) ∧
    ∀ text, tokenize source ≠ .error (.unknownToken text) := by
  refine ⟨fun tokens => ⟨reached_of_tokenize, ?_⟩, fun e => ⟨stuck_of_tokenize, ?_⟩, fun text h => ?_⟩
  · rintro ⟨body, hreached, htokens⟩
    rw [hreached.tokenize_eq_ok, ← htokens]
  · rintro ⟨body, before, text, hreached, hstuck⟩
    exact hreached.tokenize_eq_error hstuck
  · obtain ⟨body, before, text, -, hstuck⟩ := stuck_of_tokenize h
    cases hstuck

end Lox
