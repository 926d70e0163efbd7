import Lox.Proofs.Token.Grammar
import Lox.Proofs.Token.PrefixTree
import Mathlib.Data.List.TakeWhile

/-!
# Longest match

What is read at a character is the longest lexeme that stands there. Each class of characters has
its own reader, and each reader stops only where no longer lexeme of its class can go on.

* `valueOf` — the value that a lexeme gives its token;
* `BeginsGap` — the places where no lexeme is looked for: white space and comments;
* `Lexeme.Describes` — what is right to read at the front of a text;
* `Lexeme.describes_number`, `Lexeme.describes_word`, `Lexeme.describes_string`,
  `Lexeme.describes_operator` — the four readers;
* `Lexeme.describes_read` — what is read outside white space and comments;
* `Lexeme.read_of_longest`, `Lexeme.read_of_none`, `Lexeme.read_quote`, `Lexeme.read_space`,
  `Lexeme.read_comment` — what is read at a given place.
-/

namespace Lox

/-- **The value of a token,** by its lexeme. A string is what stands between the quotes. -/
def valueOf (kind : TokenKind) (lexeme : List Char) : Option Literal :=
  match kind with
  | .number => (Number.ofUnsigned? lexeme).map .number
  | .string => some (.string (String.ofList lexeme.tail.dropLast))
  | _ => none

theorem valueOf_eq_none {kind : TokenKind} (lexeme : List Char) (hnumber : kind ≠ .number)
    (hstring : kind ≠ .string) : valueOf kind lexeme = none := by
  cases kind <;> first | rfl | contradiction

/-- **Gaps.** White space and comments begin with a character that separates, or with two
slashes. -/
def BeginsGap : List Char → Prop
  | [] => False
  | c :: rest => isSpace c = true ∨ (c = '/' ∧ rest.head? = some '/')

/-! ### Prefixes -/

section Prefixes

variable {p : Char → Bool} {l text : List Char}

theorem prefix_takeWhile (h : l <+: text) (hall : ∀ c ∈ l, p c = true) :
    l <+: text.takeWhile p := by
  obtain ⟨more, rfl⟩ := h
  rw [List.takeWhile_append_of_pos hall]
  exact List.prefix_append l _

/-- **Taking up to the end** of a longest block. -/
theorem takeWhile_append_eq {tail : List Char} (hall : ∀ c ∈ l, p c = true)
    (htail : ∀ c ∈ tail.head?, p c = false) : (l ++ tail).takeWhile p = l := by
  rw [List.takeWhile_append_of_pos hall]
  cases tail with
  | nil => rw [List.takeWhile_nil, List.append_nil]
  | cons c tail => rw [List.takeWhile_cons, htail c rfl, if_neg Bool.false_ne_true, List.append_nil]

theorem head?_dropWhile_eq (c : Char) (hc : c ∈ (text.dropWhile p).head?) : p c = false := by
  have hnot := List.head?_dropWhile_not p text
  rw [Option.mem_def.1 hc] at hnot
  simpa using hnot

/-- **A lexeme at a character** begins with it. -/
theorem IsLexeme.cons_of_prefix {kind : TokenKind} {lexeme rest : List Char} {c : Char}
    (h : IsLexeme kind lexeme) (hleading : lexeme <+: c :: rest) :
    ∃ l, lexeme = c :: l ∧ l <+: rest :=
  (List.prefix_cons_iff.1 hleading).resolve_left h.ne_nil

end Prefixes

namespace Lexeme

/-- **What is right to read** at the front of a text: the longest lexeme; and an error where there
is none, which is of its own kind for a quote without a second one. -/
def Describes (text : List Char) : Lexeme → Prop
  | gap _ => False
  | token kind length value =>
    ∃ lexeme, Longest text kind lexeme ∧ length = lexeme.length ∧ value = valueOf kind lexeme
  | unterminated => ∃ rest, text = '"' :: rest ∧ '"' ∉ rest
  | unexpected => text.head? ≠ some '"' ∧ ∀ kind lexeme, IsLexeme kind lexeme → ¬ lexeme <+: text
  | unknown _ => False

variable {c : Char} {rest : List Char}

/-! ### Numbers -/

section Numbers

variable {digits tail text : List Char}

/-- **Numerals at the front of a text** whose digits end before `tail`. -/
theorem numeral_prefix {numeral : List Char} (hdigits : ∀ d ∈ digits, d.isDigit = true)
    (htail : ∀ d ∈ tail.head?, d.isDigit = false) (h : IsNumeral numeral)
    (hleading : numeral <+: digits ++ tail) :
    numeral <+: digits ∨ ∃ fraction, fraction ≠ [] ∧ (∀ d ∈ fraction, d.isDigit = true) ∧
      numeral = digits ++ '.' :: fraction ∧ '.' :: fraction <+: tail := by
  have htake : (digits ++ tail).takeWhile Char.isDigit = digits := takeWhile_append_eq hdigits htail
  cases h with
  | whole _ hwhole =>
    left
    have := prefix_takeWhile hleading hwhole
    rwa [htake] at this
  | @decimal whole fraction _ hwhole hsome hfraction =>
    right
    -- the digits in front of the point are all the digits that there are
    obtain rfl : whole = digits := by
      obtain ⟨more, hmore⟩ := hleading
      rw [← htake, ← hmore, List.append_assoc]
      exact (takeWhile_append_eq hwhole (by simp)).symm
    exact ⟨fraction, hsome, hfraction, rfl, (List.prefix_append_right_inj whole).1 hleading⟩

/-- **Lexemes in front of digits** are numerals. -/
theorem isNumeral_of_prefix {kind : TokenKind} {lexeme : List Char} (hne : digits ≠ [])
    (hdigits : ∀ d ∈ digits, d.isDigit = true) (h : IsLexeme kind lexeme)
    (hleading : lexeme <+: digits ++ tail) : IsNumeral lexeme := by
  obtain ⟨c, rest, rfl⟩ := List.exists_cons_of_ne_nil hne
  obtain ⟨l, rfl, -⟩ := h.cons_of_prefix hleading
  exact (h.isNumeral (hdigits c List.mem_cons_self)).2

/-- **Whole numbers.** No digit follows, not even behind a point. -/
theorem longest_whole (hne : digits ≠ []) (hdigits : ∀ d ∈ digits, d.isDigit = true)
    (htail : ∀ d ∈ tail.head?, d.isDigit = false)
    (hpoint : ∀ text, tail = '.' :: text → text.takeWhile Char.isDigit = []) :
    Longest (digits ++ tail) .number digits := by
  refine ⟨.number (.whole hne hdigits), List.prefix_append digits tail, fun h hleading => ?_⟩
  have hnumeral := isNumeral_of_prefix hne hdigits h hleading
  obtain hshort | ⟨fraction, hsome, hfraction, -, text, rfl⟩ :=
    numeral_prefix hdigits htail hnumeral hleading
  · exact hshort.length_le
  · have hnone : fraction <+: [] :=
      hpoint (fraction ++ text) rfl ▸ prefix_takeWhile (List.prefix_append ..) hfraction
    exact absurd (List.prefix_nil.1 hnone) hsome

/-- **Decimals.** Behind the point come all the digits that follow it. -/
theorem longest_decimal (hne : digits ≠ []) (hdigits : ∀ d ∈ digits, d.isDigit = true)
    (hsome : text.takeWhile Char.isDigit ≠ []) :
    Longest (digits ++ '.' :: text) .number (digits ++ '.' :: text.takeWhile Char.isDigit) := by
  have hall : ∀ d ∈ text.takeWhile Char.isDigit, d.isDigit = true := fun d hd =>
    List.mem_takeWhile_imp hd
  have hleading : digits ++ '.' :: text.takeWhile Char.isDigit <+: digits ++ '.' :: text := by
    rw [List.prefix_append_right_inj, List.cons_prefix_cons]
    exact ⟨rfl, List.takeWhile_prefix _⟩
  refine ⟨.number (.decimal hne hdigits hsome hall), hleading, fun h hleading => ?_⟩
  have hnumeral := isNumeral_of_prefix hne hdigits h hleading
  have hpoint : ∀ d ∈ ('.' :: text).head?, d.isDigit = false := by simp
  obtain hshort | ⟨fraction, -, hfraction, rfl, hmore⟩ :=
    numeral_prefix hdigits hpoint hnumeral hleading
  · exact hshort.length_le.trans (List.prefix_append digits _).length_le
  · have hle := (prefix_takeWhile (List.cons_prefix_cons.1 hmore).2 hfraction).length_le
    simp only [List.length_append, List.length_cons]
    exact Nat.add_le_add_left (Nat.succ_le_succ hle) _

end Numbers

theorem describes_number (hc : c.isDigit = true) : (number c rest).Describes (c :: rest) := by
  -- the digits in front, and what stands behind them
  let whole := c :: rest.takeWhile Char.isDigit
  let tail := rest.dropWhile Char.isDigit
  have hne : whole ≠ [] := List.cons_ne_nil _ _
  have hwhole : ∀ d ∈ whole, d.isDigit = true := by
    intro d hd
    obtain rfl | hd := List.mem_cons.1 hd
    · exact hc
    · exact List.mem_takeWhile_imp hd
  have htail : ∀ d ∈ tail.head?, d.isDigit = false := head?_dropWhile_eq
  have htext : c :: rest = whole ++ tail :=
    congrArg (c :: ·) List.takeWhile_append_dropWhile.symm
  -- a number goes on behind its digits only with a point and a digit
  refine ⟨_, ?_, rfl, rfl⟩
  rw [htext]
  split
  next text hdrop =>
    have hdrop : tail = '.' :: text := hdrop
    dsimp only
    split
    next hempty =>
      -- a point without a digit behind it is not part of the number
      refine longest_whole hne hwhole htail fun text' hpoint => ?_
      rw [hdrop] at hpoint
      rw [← (List.cons.inj hpoint).2]
      exact List.isEmpty_iff.1 hempty
    next hnonempty =>
      rw [hdrop]
      -- with a digit behind it, it is
      exact longest_decimal hne hwhole fun h => hnonempty (List.isEmpty_iff.2 h)
  next hnot => exact longest_whole hne hwhole htail fun text hpoint => absurd hpoint (hnot text)

/-! ### Words, strings and operators -/

theorem describes_word (hc : isWordStart c = true) : (word c rest).Describes (c :: rest) := by
  let letters := c :: rest.takeWhile isWordPart
  have hletters : IsWord letters := ⟨hc, fun d hd => List.mem_takeWhile_imp hd⟩
  have hleading : letters <+: c :: rest :=
    List.cons_prefix_cons.2 ⟨rfl, List.takeWhile_prefix _⟩
  refine ⟨letters, ⟨.of_isWord hletters, hleading, fun h hleading => ?_⟩, rfl, ?_⟩
  · obtain ⟨l, rfl, hl⟩ := h.cons_of_prefix hleading
    exact Nat.succ_le_succ (prefix_takeWhile hl (h.isWord hc).1.2).length_le
  · cases hkeyword : TokenKind.keyword? (String.ofList letters) with
    | none => rfl
    | some kind =>
      have hkind := (TokenKind.keyword?_eq_some_iff.1 hkeyword).1
      refine (valueOf_eq_none letters ?_ ?_).symm <;> rintro rfl <;> contradiction

theorem describes_string : (string rest).Describes ('"' :: rest) := by
  let body := rest.takeWhile (· != '"')
  let tail := rest.dropWhile (· != '"')
  have hrest : rest = body ++ tail := List.takeWhile_append_dropWhile.symm
  have hbody : ∀ {body : List Char}, '"' ∉ body → ∀ d ∈ body, (d != '"') = true :=
    fun hbody d hd => bne_iff_ne.2 fun heq => hbody (heq ▸ hd)
  have hquote : '"' ∉ body := fun hmem => by simpa using List.mem_takeWhile_imp hmem
  unfold string
  simp only
  split
  next hshort =>
    -- the text ends behind its quotes, not before
    obtain ⟨more, htail⟩ : ∃ more, tail = '"' :: more := by
      cases htail : tail with
      | nil =>
        rw [htail, List.append_nil] at hrest
        exact absurd hshort (congrArg List.length hrest ▸ Nat.lt_irrefl _)
      | cons d more =>
        have hd : (d != '"') = false := head?_dropWhile_eq d (congrArg List.head? htail)
        exact ⟨more, by rw [bne_eq_false_iff_eq.1 hd]⟩
    have hleading : '"' :: (body ++ ['"']) <+: '"' :: rest := by
      rw [hrest, htail, List.cons_prefix_cons, List.prefix_append_right_inj, List.cons_prefix_cons]
      exact ⟨rfl, rfl, List.nil_prefix⟩
    refine ⟨'"' :: (body ++ ['"']), ⟨.string hquote, hleading, fun h hleading => ?_⟩, ?_, ?_⟩
    · obtain ⟨l, rfl, ⟨more, hl⟩⟩ := h.cons_of_prefix hleading
      obtain ⟨-, other, rfl, hother⟩ := h.quoted
      -- the first quote behind the opening one ends both of them
      have heq : body = other := by
        change rest.takeWhile _ = other
        rw [← hl, List.append_assoc]
        exact takeWhile_append_eq (hbody hother) (by simp)
      rw [heq]
    · rw [List.length_cons, List.length_append, List.length_singleton]
    · simp only [valueOf, List.tail_cons, List.dropLast_concat]
      rfl
  next hlong =>
    refine ⟨rest, rfl, ?_⟩
    have hall : body = rest := (List.takeWhile_prefix _).eq_of_length
      (Nat.le_antisymm (List.takeWhile_prefix _).length_le (Nat.le_of_not_lt hlong))
    rwa [hall] at hquote

/-- **The words of the tree** are the spellings of the operators. -/
theorem holds_operatorTree {spelling : List Char} : operatorTree.Holds spelling ↔
    ∃ kind : TokenKind, kind.isOperator = true ∧ kind.text.toList = spelling := by
  rw [operatorTree, PrefixTree.holds_ofWords]
  simp only [List.mem_map, List.mem_filter]
  constructor
  · rintro ⟨⟨kind, ⟨-, hkind⟩, htext⟩, -⟩
    exact ⟨kind, hkind, htext⟩
  · rintro ⟨kind, hkind, rfl⟩
    exact ⟨⟨kind, ⟨kind.mem_all, hkind⟩, rfl⟩, (IsLexeme.operator hkind).ne_nil⟩

theorem describes_operator (hdigit : c.isDigit = false) (hquote : c ≠ '"')
    (hword : isWordStart c = false) : (operator (c :: rest)).Describes (c :: rest) := by
  -- what begins with such a character is an operator, and the tree holds them all
  have hheld : ∀ {kind lexeme}, IsLexeme kind lexeme → lexeme <+: c :: rest →
      operatorTree.Holds lexeme := by
    intro kind lexeme h hleading
    obtain ⟨l, rfl, -⟩ := h.cons_of_prefix hleading
    exact holds_operatorTree.2 ⟨kind, h.isOperator hdigit hquote hword⟩
  unfold operator
  cases hlongest : operatorTree.longest (c :: rest) with
  | none =>
    refine ⟨fun heq => hquote (Option.some.inj heq), fun kind lexeme h hleading => ?_⟩
    exact PrefixTree.longest_eq_none_iff.1 hlongest lexeme (hheld h hleading) hleading
  | some n =>
    obtain ⟨hle, hmatch, hlonger⟩ := PrefixTree.longest_eq_some_iff.1 hlongest
    obtain ⟨kind, hkind, htext⟩ := holds_operatorTree.1 hmatch
    have hspelling : TokenKind.ofText? (String.ofList ((c :: rest).take n)) = some kind := by
      rw [← htext, String.ofList_toList, TokenKind.ofText?_text]
    have hlength : ((c :: rest).take n).length = n := List.length_take_of_le hle
    simp only [hspelling]
    refine ⟨(c :: rest).take n,
      ⟨htext ▸ .operator hkind, List.take_prefix _ _, fun h hleading => ?_⟩, hlength.symm, ?_⟩
    · rw [hlength]
      exact hlonger _ (hheld h hleading) hleading
    · refine (valueOf_eq_none _ ?_ ?_).symm <;> rintro rfl <;> contradiction

/-! ### Reading -/

/-- **What is read outside white space and comments** is the longest lexeme there, or the error that
there is none. -/
theorem describes_read (h : ¬ BeginsGap (c :: rest)) : (read c rest).Describes (c :: rest) := by
  rw [BeginsGap, not_or] at h
  have hcomment : (c == '/' && rest.head? == some '/') = false := by
    rw [Bool.eq_false_iff, ne_eq, Bool.and_eq_true, beq_iff_eq, beq_iff_eq]
    exact h.2
  rw [read, if_neg h.1, hcomment, if_neg Bool.false_ne_true]
  by_cases hquote : c = '"'
  · subst hquote
    exact describes_string
  rw [if_neg (by simpa using hquote)]
  cases hdigit : c.isDigit with
  | true => exact describes_number hdigit
  | false =>
    cases hword : isWordStart c with
    | true => exact describes_word hword
    | false => exact describes_operator hdigit hquote hword

/-- **An opening quote** begins nothing when there is no other quote behind it. -/
theorem not_prefix_quote {kind : TokenKind} {lexeme : List Char} (hrest : '"' ∉ rest)
    (h : IsLexeme kind lexeme) : ¬ lexeme <+: '"' :: rest := by
  intro hleading
  obtain ⟨l, rfl, hl⟩ := h.cons_of_prefix hleading
  obtain ⟨-, body, rfl, -⟩ := h.quoted
  exact hrest (hl.subset (by simp))

/-- **The longest lexeme is read.** -/
theorem read_of_longest {kind : TokenKind} {lexeme : List Char} (hgap : ¬ BeginsGap (c :: rest))
    (h : Longest (c :: rest) kind lexeme) :
    read c rest = .token kind lexeme.length (valueOf kind lexeme) := by
  have hread := describes_read hgap
  cases hlexeme : read c rest with
  | gap => rw [hlexeme] at hread; exact hread.elim
  | unknown => rw [hlexeme] at hread; exact hread.elim
  | unexpected =>
    rw [hlexeme] at hread
    exact absurd h.isPrefix (hread.2 kind lexeme h.isLexeme)
  | unterminated =>
    rw [hlexeme] at hread
    obtain ⟨rest', hcons, hrest⟩ := hread
    exact absurd h.isPrefix (hcons ▸ not_prefix_quote hrest h.isLexeme)
  | token kind' length value =>
    rw [hlexeme] at hread
    obtain ⟨lexeme', hlongest, rfl, rfl⟩ := hread
    obtain ⟨rfl, rfl⟩ := hlongest.unique h
    rfl

/-- **Where no lexeme begins,** the character is unexpected. -/
theorem read_of_none (hgap : ¬ BeginsGap (c :: rest)) (hquote : c ≠ '"')
    (hnone : ∀ kind lexeme, IsLexeme kind lexeme → ¬ lexeme <+: c :: rest) :
    read c rest = .unexpected := by
  have hread := describes_read hgap
  cases hlexeme : read c rest with
  | gap => rw [hlexeme] at hread; exact hread.elim
  | unknown => rw [hlexeme] at hread; exact hread.elim
  | unexpected => rfl
  | unterminated =>
    rw [hlexeme] at hread
    obtain ⟨rest', hcons, -⟩ := hread
    exact absurd (List.cons.inj hcons).1 hquote
  | token kind length value =>
    rw [hlexeme] at hread
    obtain ⟨lexeme, hlongest, -⟩ := hread
    exact absurd hlongest.isPrefix (hnone kind lexeme hlongest.isLexeme)

/-- **A quote with no quote behind it** is a string that does not end. -/
theorem read_quote (hrest : '"' ∉ rest) : read '"' rest = .unterminated := by
  have hall : rest.takeWhile (· != '"') = rest :=
    List.takeWhile_eq_self_iff.2 fun d hd => bne_iff_ne.2 fun heq => hrest (heq ▸ hd)
  change string rest = _
  rw [string, hall]
  simp

theorem read_space (hc : isSpace c = true) : read c rest = .gap 1 := by
  rw [read, if_pos hc]

/-- **Comments** run up to the newline or the end. -/
theorem read_comment {body text : List Char} (hbody : '\n' ∉ body)
    (htext : ∀ d ∈ text.head?, d = '\n') :
    read '/' ('/' :: (body ++ text)) = .gap (body.length + 2) := by
  have hall : ∀ d ∈ '/' :: body, (d != '\n') = true := by
    intro d hd
    obtain rfl | hd := List.mem_cons.1 hd
    · decide
    · exact bne_iff_ne.2 fun heq => hbody (heq ▸ hd)
  have htake : ('/' :: (body ++ text)).takeWhile (· != '\n') = '/' :: body := by
    rw [← List.cons_append]
    exact takeWhile_append_eq hall fun d hd => bne_eq_false_iff_eq.2 (htext d hd)
  rw [read, htake]
  rfl

end Lexeme

end Lox
