import Lox.Token.Scan
import Mathlib.Data.List.TakeDrop
import Mathlib.Data.List.TakeWhile

/-!
# The tokens of a source

A scan that succeeds ends in one token for the end of the source, and nowhere else is there such a
token. Tokens of numbers and strings carry a value of their kind.

* `Token.Valued` — tokens with the value that their kind calls for;
* `Lexeme.valued_read` — what a lexeme makes of a token;
* `tokenize_shape` — the tokens of a whole source.
-/

namespace Lox

/-- **Tokens with their value.** Those of numbers and strings have a value of their kind. -/
def Token.Valued (t : Token) : Prop :=
  (t.kind = .number → ∃ x, t.value = some (.number x)) ∧
    (t.kind = .string → ∃ x, t.value = some (.string x))

/-! ### Numbers -/

namespace Number

theorem splitDigits_append {whole : List Char} (rest : List Char)
    (hwhole : ∀ c ∈ whole, c.isDigit = true)
    (hrest : ∀ c ∈ rest.head?, c.isDigit = false) :
    splitDigits (whole ++ rest) = (whole, rest) := by
  rw [splitDigits, List.span_eq_takeWhile_dropWhile, List.takeWhile_append_of_pos hwhole,
    List.dropWhile_append_of_pos hwhole]
  cases rest with
  | nil => simp
  | cons c rest => simp [hrest c rfl]

/-- **Digits with an optional fraction** are a number. -/
theorem isSome_ofUnsigned? {whole : List Char} (fraction : List Char) (hne : whole ≠ [])
    (hwhole : ∀ c ∈ whole, c.isDigit = true) (hfraction : ∀ c ∈ fraction, c.isDigit = true) :
    (ofUnsigned? whole).isSome = true ∧ (ofUnsigned? (whole ++ '.' :: fraction)).isSome = true := by
  have hplain := splitDigits_append [] hwhole (by simp)
  have hpoint := splitDigits_append ('.' :: fraction) hwhole (by simp)
  have hdigits := splitDigits_append [] hfraction (by simp)
  rw [List.append_nil] at hplain hdigits
  constructor
  · simp [ofUnsigned?, hplain, hne, exponent?]
  · simp [ofUnsigned?, hpoint, hdigits, hne, exponent?]

end Number

/-! ### Lexemes -/

theorem TokenKind.isKeyword_of_keyword? {text : String} {kind : TokenKind}
    (h : TokenKind.keyword? text = some kind) : kind.isKeyword = true := by
  have := List.find?_some h
  simp only [Bool.and_eq_true] at this
  exact this.1

theorem TokenKind.text_of_ofText? {text : String} {kind : TokenKind}
    (h : TokenKind.ofText? text = some kind) : kind.text = text := by
  simpa using List.find?_some h

namespace Lexeme

/-- **What is known of a lexeme** that becomes a token. -/
def Valued (lexeme : Lexeme) : Prop :=
  ∀ kind length value, lexeme = .token kind length value →
    kind ≠ .eof ∧ (kind = .number → ∃ x, value = some (.number x)) ∧
      (kind = .string → ∃ x, value = some (.string x))

theorem valued_number {c : Char} {rest : List Char} (hc : c.isDigit = true) :
    (number c rest).Valued := by
  have hall : ∀ {text : List Char}, ∀ d ∈ text.takeWhile Char.isDigit, d.isDigit = true :=
    fun d hd => List.mem_takeWhile_imp hd
  have hwhole : ∀ d ∈ c :: rest.takeWhile Char.isDigit, d.isDigit = true := by
    intro d hd
    obtain rfl | hd := List.mem_cons.1 hd
    · exact hc
    · exact hall d hd
  rintro kind length value heq
  obtain ⟨rfl, -, rfl⟩ := Lexeme.token.inj heq
  refine ⟨by decide, fun _ => ?_, by simp⟩
  simp only [Option.map_eq_some_iff, Literal.number.injEq, exists_eq_right]
  rw [← Option.isSome_iff_exists]
  split
  next text _ =>
    -- the digits in front of the point are those that were taken, and so are those behind it
    have hboth := Number.isSome_ofUnsigned? (text.takeWhile Char.isDigit) (List.cons_ne_nil c _)
      hwhole hall
    split
    · exact hboth.1
    · exact hboth.2
  next => exact (Number.isSome_ofUnsigned? [] (List.cons_ne_nil c _) hwhole (by simp)).1

theorem valued_word {c : Char} {rest : List Char} : (word c rest).Valued := by
  rintro kind length value heq
  simp only [word, Lexeme.token.injEq] at heq
  obtain ⟨rfl, -, -⟩ := heq
  cases hkeyword : TokenKind.keyword? (String.ofList (c :: rest.takeWhile isWordPart)) with
  | none => simp
  | some kind =>
    have := TokenKind.isKeyword_of_keyword? hkeyword
    cases kind <;> simp_all [TokenKind.isKeyword]

theorem valued_string {rest : List Char} : (string rest).Valued := by
  rintro kind length value heq
  simp only [string] at heq
  split at heq
  · obtain ⟨rfl, -, rfl⟩ := Lexeme.token.inj heq
    exact ⟨by decide, by simp, fun _ => ⟨_, rfl⟩⟩
  · contradiction

/-- The placeholders for kinds without a fixed spelling begin with a letter, and no operator does. -/
theorem valued_operator {c : Char} {rest : List Char} (hc : isWordStart c = false) :
    (operator (c :: rest)).Valued := by
  rintro kind length value heq
  simp only [operator] at heq
  split at heq
  · contradiction
  next n hlongest =>
    split at heq
    next kind' hkind =>
      obtain ⟨rfl, -, -⟩ := Lexeme.token.inj heq
      have htext := TokenKind.text_of_ofText? hkind
      obtain ⟨m, rfl⟩ : ∃ m, n = m + 1 := Nat.exists_eq_add_one.2 (PrefixTree.longest_le hlongest).1
      -- the spelling begins with the character that was looked at
      have hletter : kind'.text.toList.head?.any isWordStart = false := by
        rw [htext]
        simpa using hc
      have hnot : ∀ k ∈ [TokenKind.eof, .number, .string], kind' ≠ k := by
        rintro k hk rfl
        have hplaceholder : ∀ k ∈ [TokenKind.eof, .number, .string],
            k.text.toList.head?.any isWordStart = true := by decide
        rw [hplaceholder kind' hk] at hletter
        contradiction
      exact ⟨hnot _ (by simp), fun h => absurd h (hnot _ (by simp)),
        fun h => absurd h (hnot _ (by simp))⟩
    · contradiction

/-- **What is read at a character** becomes a token with its value, if it becomes one. -/
theorem valued_read (c : Char) (rest : List Char) : (read c rest).Valued := by
  unfold read
  split
  · exact fun _ _ _ heq => by contradiction
  split
  · exact fun _ _ _ heq => by contradiction
  split
  · exact valued_string
  split
  next hdigit => exact valued_number hdigit
  split
  · exact valued_word
  next hword => exact valued_operator (by simpa using hword)

end Lexeme

/-! ### Sources -/

/-- **What a walk adds to the tokens** that it has collected. -/
theorem scanFrom_shape {source : List Char} {tokens result : Array Token} {here : Position}
    {text : List Char} {skip : Nat} (h : scanFrom source tokens here text skip = .ok result) :
    ∃ body eof, result.toList = tokens.toList ++ (body ++ [eof]) ∧ eof.kind = .eof ∧
      ∀ t ∈ body, t.kind ≠ .eof ∧ t.Valued := by
  induction text generalizing tokens here skip with
  | nil =>
    -- at the end of the text the mark of the end is added, and nothing else
    simp only [scanFrom, Except.ok.injEq] at h
    exact ⟨[], _, by rw [← h, Array.toList_push]; rfl, rfl, by simp⟩
  | cons c rest ih =>
    cases skip with
    | succ skip => exact ih h
    | zero =>
      rw [scanFrom] at h
      have hvalued := Lexeme.valued_read c rest
      split at h
      · exact ih h
      next kind length value hread =>
        obtain ⟨body, eof, hresult, heof, hbody⟩ := ih h
        let t : Token :=
          ⟨kind, String.ofList ((c :: rest).take length), value, here.offset, here.line⟩
        refine ⟨t :: body, eof, ?_, heof, ?_⟩
        · rw [hresult, Array.toList_push, List.append_assoc, List.singleton_append,
            List.cons_append]
        · exact List.forall_mem_cons.2 ⟨hvalued kind length value hread, hbody⟩
      all_goals contradiction

/-- **The tokens of a source.** The last of them, and no other one, marks the end. -/
theorem tokenize_shape {source : String} {tokens : Array Token} (h : tokenize source = .ok tokens) :
    ∃ body eof, tokens.toList = body ++ [eof] ∧ eof.kind = .eof ∧
      ∀ t ∈ body, t.kind ≠ .eof ∧ t.Valued := by
  simpa using scanFrom_shape h

end Lox
