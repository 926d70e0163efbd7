import Lox.Token.Scan
import Mathlib.Data.List.Infix

/-!
# The lexical grammar

What the lexemes of the language are, said without a scanner. A lexeme is of one kind, and the
longest one at the front of a text is the only one of its length.

* `IsNumeral`, `IsWord`, `IsLexeme` — the lexemes of every kind;
* `IsLexeme.kind_unique` — a text is a lexeme of one kind at most;
* `Longest`, `Longest.unique` — the longest lexeme at the front of a text.
-/

namespace Lox

/-! ### Lexemes -/

/-- **Numerals.** Digits, and perhaps a point with more digits behind it. -/
inductive IsNumeral : List Char → Prop
  | whole {digits : List Char} (hne : digits ≠ []) (hdigits : ∀ c ∈ digits, c.isDigit = true) :
    IsNumeral digits
  | decimal {digits fraction : List Char} (hne : digits ≠ [])
    (hdigits : ∀ c ∈ digits, c.isDigit = true) (hsome : fraction ≠ [])
    (hfraction : ∀ c ∈ fraction, c.isDigit = true) : IsNumeral (digits ++ '.' :: fraction)

/-- **Words.** A letter or underscore, with letters, underscores and digits behind it. -/
def IsWord : List Char → Prop
  | [] => False
  | c :: rest => isWordStart c = true ∧ ∀ d ∈ rest, isWordPart d = true

/-- **Lexemes.** A word is a keyword when all of it spells one, and an identifier otherwise. -/
inductive IsLexeme : TokenKind → List Char → Prop
  | number {digits : List Char} (h : IsNumeral digits) : IsLexeme .number digits
  | string {body : List Char} (h : '"' ∉ body) : IsLexeme .string ('"' :: (body ++ ['"']))
  | keyword {kind : TokenKind} (h : kind.isKeyword = true) : IsLexeme kind kind.text.toList
  | identifier {letters : List Char} (h : IsWord letters)
    (hnot : ∀ kind : TokenKind, kind.isKeyword = true → kind.text.toList ≠ letters) :
    IsLexeme .identifier letters
  | operator {kind : TokenKind} (h : kind.isOperator = true) : IsLexeme kind kind.text.toList

/-- There are eighteen operators. -/
example : (TokenKind.all.filter (·.isOperator)).map (·.text) =
    ["(", ")", "\x7b", "\x7d", ",", "-", "+", ";", "/", "*", "!", "!=", "=", "==", ">", ">=", "<",
      "<="] := by decide

/-- There are fourteen keywords, and the placeholders for other kinds are none of them. -/
example : (TokenKind.all.filter (·.isKeyword)).map (·.text) =
    ["and", "or", "if", "else", "for", "while", "return", "true", "false", "nil", "var", "const",
      "fun", "print"] := by decide

/-- **The longest lexeme** at the front of a text. -/
structure Longest (text : List Char) (kind : TokenKind) (lexeme : List Char) : Prop where
  isLexeme : IsLexeme kind lexeme
  isPrefix : lexeme <+: text
  length_le : ∀ {kind' lexeme'}, IsLexeme kind' lexeme' → lexeme' <+: text →
    lexeme'.length ≤ lexeme.length

/-! ### First characters

The first character of a lexeme tells its class: digits, quotes and the characters of words and of
operators are all different. -/

theorem isDigit_of_isWordStart {c : Char} (h : isWordStart c = true) : c.isDigit = false := by
  rw [isWordStart, Bool.or_eq_true, beq_iff_eq] at h
  obtain h | rfl := h
  · -- the codes of letters are behind those of the digits
    have hletter : (decide ('A'.val ≤ c.val ∧ c.val ≤ 'Z'.val) ||
        decide ('a'.val ≤ c.val) && decide (c.val ≤ 'z'.val)) = true := h
    change (decide ('0'.val ≤ c.val) && decide (c.val ≤ '9'.val)) = false
    simp only [Bool.or_eq_true, Bool.and_eq_true, decide_eq_true_eq] at hletter
    simp only [Bool.and_eq_false_iff, decide_eq_false_iff_not, UInt32.not_le]
    grind
  · decide

namespace TokenKind

theorem mem_all (kind : TokenKind) : kind ∈ all := by
  cases kind <;> decide

theorem isWord_text {kind : TokenKind} (h : kind.isKeyword = true) : IsWord kind.text.toList := by
  have hall : ∀ kind ∈ all, kind.isKeyword = true →
      kind.text.toList.head?.any isWordStart = true ∧
        kind.text.toList.tail.all isWordPart = true := by decide
  obtain ⟨hhead, htail⟩ := hall kind kind.mem_all h
  cases htext : kind.text.toList with
  | nil =>
    rw [htext] at hhead
    contradiction
  | cons c rest =>
    rw [htext] at hhead htail
    exact ⟨hhead, List.all_eq_true.1 htail⟩

/-- **No operator** begins like a number, a string or a word. -/
theorem head_operator {kind : TokenKind} (h : kind.isOperator = true) :
    ∃ c rest, kind.text.toList = c :: rest ∧ c.isDigit = false ∧ c ≠ '"' ∧
      isWordStart c = false := by
  have hall : ∀ kind ∈ all, kind.isOperator = true → kind.text.toList.head?.any
      (fun c => !c.isDigit && c != '"' && !isWordStart c) = true := by decide
  obtain ⟨c, hc, hclass⟩ := (Option.any_eq_true _ _).1 (hall kind kind.mem_all h)
  obtain ⟨rest, hrest⟩ := List.head?_eq_some_iff.1 hc
  simp only [Bool.and_eq_true, Bool.not_eq_true', bne_iff_ne] at hclass
  exact ⟨c, rest, hrest, hclass.1.1, hclass.1.2, hclass.2⟩

theorem text_inj {kind kind' : TokenKind} (h : kind.text = kind'.text) : kind = kind' := by
  have hof := ofText?_text kind'
  rw [← h, ofText?_text] at hof
  exact Option.some.inj hof

/-- **The keyword with a spelling** is the only one. -/
theorem keyword?_text {kind : TokenKind} (h : kind.isKeyword = true) :
    keyword? kind.text = some kind := by
  have hall : ∀ kind ∈ all, kind.isKeyword = true → keyword? kind.text = some kind := by decide
  exact hall kind kind.mem_all h

theorem keyword?_eq_some_iff {text : String} {kind : TokenKind} :
    keyword? text = some kind ↔ kind.isKeyword = true ∧ kind.text = text := by
  constructor
  · intro h
    have := List.find?_some h
    rwa [Bool.and_eq_true, beq_iff_eq] at this
  · rintro ⟨hkeyword, rfl⟩
    exact keyword?_text hkeyword

end TokenKind

theorem IsNumeral.head {text : List Char} (h : IsNumeral text) :
    ∃ c rest, text = c :: rest ∧ c.isDigit = true := by
  obtain ⟨hne, hdigits⟩ | ⟨hne, hdigits, -, -⟩ := h
  all_goals
    obtain ⟨c, rest, rfl⟩ := List.exists_cons_of_ne_nil hne
    exact ⟨c, _, rfl, hdigits c List.mem_cons_self⟩

theorem IsWord.of_keyword?_eq_none {letters : List Char} (h : IsWord letters)
    (hnone : TokenKind.keyword? (String.ofList letters) = none) : IsLexeme .identifier letters := by
  refine .identifier h fun kind hkind htext => ?_
  have hsome : TokenKind.keyword? (String.ofList letters) = some kind := by
    rw [← htext, String.ofList_toList]
    exact TokenKind.keyword?_text hkind
  rw [hnone] at hsome
  contradiction

namespace IsLexeme

variable {kind : TokenKind} {c : Char} {rest : List Char}

/-- **Words.** Which of the two kinds of words it is depends on nothing but the whole word. -/
theorem of_isWord {letters : List Char} (h : IsWord letters) :
    IsLexeme ((TokenKind.keyword? (String.ofList letters)).getD .identifier) letters := by
  cases hkeyword : TokenKind.keyword? (String.ofList letters) with
  | none => exact h.of_keyword?_eq_none hkeyword
  | some kind =>
    obtain ⟨hkind, htext⟩ := TokenKind.keyword?_eq_some_iff.1 hkeyword
    have hlexeme : IsLexeme kind kind.text.toList := .keyword hkind
    rwa [htext, String.toList_ofList] at hlexeme

/-- **The four classes of lexemes,** told by their first characters. -/
theorem classes {text : List Char} (h : IsLexeme kind text) :
    ∃ c rest, text = c :: rest ∧
      (c.isDigit = true ∧ kind = .number ∧ IsNumeral text ∨
        c = '"' ∧ kind = .string ∧ (∃ body, rest = body ++ ['"'] ∧ '"' ∉ body) ∨
        isWordStart c = true ∧ IsWord text ∧
          kind = (TokenKind.keyword? (String.ofList text)).getD .identifier ∨
        (c.isDigit = false ∧ c ≠ '"' ∧ isWordStart c = false) ∧ kind.isOperator = true ∧
          kind.text.toList = text) := by
  cases h with
  | number h =>
    obtain ⟨c, rest, rfl, hc⟩ := h.head
    exact ⟨c, rest, rfl, .inl ⟨hc, rfl, h⟩⟩
  | @string body h => exact ⟨'"', body ++ ['"'], rfl, .inr (.inl ⟨rfl, rfl, body, rfl, h⟩)⟩
  | keyword h =>
    -- a keyword is a word, which is looked up under its own text
    have hword := TokenKind.isWord_text h
    have hkind := TokenKind.keyword?_text h
    rw [← String.ofList_toList (s := kind.text)] at hkind
    generalize kind.text.toList = text at hword hkind ⊢
    cases text with
    | nil => exact hword.elim
    | cons c rest =>
      exact ⟨c, rest, rfl, .inr (.inr (.inl ⟨hword.1, hword, by rw [hkind]; rfl⟩))⟩
  | identifier h hnot =>
    -- an identifier is a word that is no keyword
    have hnone : TokenKind.keyword? (String.ofList text) = none := by
      refine Option.eq_none_iff_forall_ne_some.2 fun kind hkind => ?_
      obtain ⟨hkeyword, htext⟩ := TokenKind.keyword?_eq_some_iff.1 hkind
      exact hnot kind hkeyword (by rw [htext, String.toList_ofList])
    cases text with
    | nil => exact h.elim
    | cons c rest => exact ⟨c, rest, rfl, .inr (.inr (.inl ⟨h.1, h, by rw [hnone]; rfl⟩))⟩
  | operator h =>
    obtain ⟨c, rest, htext, hclass⟩ := TokenKind.head_operator h
    exact ⟨c, rest, htext, .inr (.inr (.inr ⟨hclass, h, rfl⟩))⟩

theorem ne_nil {text : List Char} (h : IsLexeme kind text) : text ≠ [] := by
  obtain ⟨c, rest, rfl, -⟩ := h.classes
  exact List.cons_ne_nil c rest

theorem isNumeral (h : IsLexeme kind (c :: rest)) (hc : c.isDigit = true) :
    kind = .number ∧ IsNumeral (c :: rest) := by
  obtain ⟨c', rest', heq, hclass⟩ := h.classes
  obtain ⟨rfl, rfl⟩ := List.cons.inj heq
  obtain ⟨-, hnumber⟩ | ⟨rfl, -⟩ | ⟨hword, -⟩ | ⟨⟨hdigit, -⟩, -⟩ := hclass
  · exact hnumber
  · exact absurd hc (by decide)
  · rw [isDigit_of_isWordStart hword] at hc
    contradiction
  · rw [hdigit] at hc
    contradiction

theorem quoted (h : IsLexeme kind ('"' :: rest)) :
    kind = .string ∧ ∃ body, rest = body ++ ['"'] ∧ '"' ∉ body := by
  obtain ⟨c', rest', heq, hclass⟩ := h.classes
  obtain ⟨rfl, rfl⟩ := List.cons.inj heq
  obtain ⟨hdigit, -⟩ | ⟨-, hstring⟩ | ⟨hword, -⟩ | ⟨⟨-, hquote, -⟩, -⟩ := hclass
  · exact absurd hdigit (by decide)
  · exact hstring
  · exact absurd hword (by decide)
  · exact absurd rfl hquote

theorem isWord (h : IsLexeme kind (c :: rest)) (hc : isWordStart c = true) :
    IsWord (c :: rest) ∧
      kind = (TokenKind.keyword? (String.ofList (c :: rest))).getD .identifier := by
  obtain ⟨c', rest', heq, hclass⟩ := h.classes
  obtain ⟨rfl, rfl⟩ := List.cons.inj heq
  obtain ⟨hdigit, -⟩ | ⟨rfl, -⟩ | ⟨-, hword⟩ | ⟨⟨-, -, hword⟩, -⟩ := hclass
  · rw [isDigit_of_isWordStart hc] at hdigit
    contradiction
  · exact absurd hc (by decide)
  · exact hword
  · rw [hword] at hc
    contradiction

theorem isOperator (h : IsLexeme kind (c :: rest)) (hdigit : c.isDigit = false) (hquote : c ≠ '"')
    (hword : isWordStart c = false) : kind.isOperator = true ∧ kind.text.toList = c :: rest := by
  obtain ⟨c', rest', heq, hclass⟩ := h.classes
  obtain ⟨rfl, rfl⟩ := List.cons.inj heq
  obtain ⟨hc, -⟩ | ⟨hc, -⟩ | ⟨hc, -⟩ | ⟨-, hoperator⟩ := hclass
  · rw [hdigit] at hc
    contradiction
  · exact absurd hc hquote
  · rw [hword] at hc
    contradiction
  · exact hoperator

/-- **One kind.** No text is a lexeme of two kinds. -/
theorem kind_unique {kind' : TokenKind} {text : List Char} (h : IsLexeme kind text)
    (h' : IsLexeme kind' text) : kind = kind' := by
  obtain ⟨c, rest, rfl, hclass⟩ := h.classes
  obtain ⟨hdigit, hkind, -⟩ | ⟨rfl, hkind, -⟩ | ⟨hword, -, hkind⟩ |
    ⟨⟨hdigit, hquote, hword⟩, -, htext⟩ := hclass
  · rw [hkind, (h'.isNumeral hdigit).1]
  · rw [hkind, h'.quoted.1]
  · rw [hkind, (h'.isWord hword).2]
  · have htext' := (h'.isOperator hdigit hquote hword).2
    exact TokenKind.text_inj (String.toList_inj.1 (htext.trans htext'.symm))

end IsLexeme

/-- **Longest match is a function** of the text. -/
theorem Longest.unique {text lexeme lexeme' : List Char} {kind kind' : TokenKind}
    (h : Longest text kind lexeme) (h' : Longest text kind' lexeme') :
    kind = kind' ∧ lexeme = lexeme' := by
  have hlength : lexeme.length = lexeme'.length :=
    Nat.le_antisymm (h'.length_le h.isLexeme h.isPrefix) (h.length_le h'.isLexeme h'.isPrefix)
  obtain rfl : lexeme = lexeme' :=
    (List.prefix_of_prefix_length_le h.isPrefix h'.isPrefix hlength.le).eq_of_length hlength
  exact ⟨h.isLexeme.kind_unique h'.isLexeme, rfl⟩

end Lox
