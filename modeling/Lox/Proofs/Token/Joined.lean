import Lox.Proofs.Token.Tiling
import Mathlib.Data.List.Induction

/-!
# Joined lexemes

The lexemes of a source can be written again with one character of white space between any two of
them, whatever stood there before. The white space ends every lexeme and begins none, so that the
same tokens are read from the new text, each in its new place.

* `IsLexeme.isSpace_eq_false` — only strings hold white space;
* `IsLexeme.not_extended` — no lexeme goes on behind the end of another one with white space;
* `IsLexeme.longest_append`, `IsLexeme.not_beginsGap` — so a lexeme in front of white space, or at the
  end, is the longest one and begins no comment;
* `joined`, `joinedFront` — the text that is written, and what stands in it before a token;
* `ReadAgain` — the same tokens in their new places;
* `reached_joined` — what the reference scanner reads of the text;
* `tokenize_joined` — the tokens of the text, from those of the source.
-/

namespace Lox

/-! ### White space -/

/-- White space is of none of the classes of characters that lexemes are made of. -/
theorem classes_of_isSpace {c : Char} (h : isSpace c = true) :
    c.isDigit = false ∧ isWordPart c = false ∧ c ≠ '.' := by
  simp only [isSpace, Bool.or_eq_true, beq_iff_eq] at h
  obtain ((rfl | rfl) | rfl) | rfl := h <;> exact ⟨rfl, rfl, by simp⟩

namespace IsLexeme

variable {kind kind' : TokenKind} {lexeme behind : List Char}

/-- **Only strings hold white space.** -/
theorem isSpace_eq_false (h : IsLexeme kind lexeme) (hkind : kind ≠ .string) {c : Char}
    (hc : c ∈ lexeme) : isSpace c = false := by
  -- the fixed lexemes are looked through one by one
  have hfixed : ∀ kind ∈ TokenKind.all, kind.isKeyword = true ∨ kind.isOperator = true →
      kind.text.toList.any isSpace = false := by decide
  by_contra hspace
  -- white space is no digit, no part of a word and no point
  obtain ⟨hdigit, hpart, hpoint⟩ := classes_of_isSpace (Bool.not_eq_false _ ▸ hspace)
  cases h with
  | number h =>
    -- all characters of a number are digits, but for a point between them
    have hnot : ∀ {digits : List Char}, (∀ d ∈ digits, d.isDigit = true) → c ∉ digits := by
      intro digits hdigits hmem
      exact absurd ((hdigits c hmem).symm.trans hdigit) (by simp)
    obtain ⟨-, hdigits⟩ | ⟨-, hdigits, -, hfraction⟩ := h
    · exact hnot hdigits hc
    · obtain hc | hc := List.mem_append.1 hc
      · exact hnot hdigits hc
      · exact (List.mem_cons.1 hc).elim hpoint (hnot hfraction)
  | string => exact hkind rfl
  | keyword h =>
    exact List.any_eq_false.1 (hfixed kind kind.mem_all (.inl h)) c hc (Bool.of_not_eq_false hspace)
  | operator h =>
    exact List.any_eq_false.1 (hfixed kind kind.mem_all (.inr h)) c hc (Bool.of_not_eq_false hspace)
  | identifier h =>
    have hall : ∀ d ∈ lexeme, isWordPart d = true := by
      cases lexeme with
      | nil => exact h.elim
      | cons d rest =>
        exact List.forall_mem_cons.2 ⟨by rw [isWordPart, h.1]; rfl, h.2⟩
    exact absurd ((hall c hc).symm.trans hpart) (by simp)

/-- **No lexeme goes on** behind the end of another one with white space: a string ends with the
first quote behind the opening one, and the others hold no white space. -/
theorem not_extended {c : Char} {more : List Char} (h : IsLexeme kind lexeme)
    (hc : isSpace c = true) : ¬ IsLexeme kind' (lexeme ++ c :: more) := by
  intro h'
  by_cases hstring : kind' = .string
  · subst hstring
    obtain ⟨body', hbody', hlonger⟩ := h'.string_body
    obtain ⟨d, rest, rfl, -⟩ := h.classes
    rw [List.cons_append, List.cons.injEq] at hlonger
    obtain ⟨rfl, hlonger⟩ := hlonger
    obtain ⟨-, body, rfl, -⟩ := h.quoted
    -- the first quote behind the opening one ends both of them
    rw [List.append_assoc, List.singleton_append, eq_comm] at hlonger
    have hends := (List.append_cons_inj_of_notMem hbody' List.not_mem_nil).1 hlonger
    exact List.cons_ne_nil c more hends.2.2.symm
  · have hmem : c ∈ lexeme ++ c :: more := List.mem_append_right _ List.mem_cons_self
    rw [h'.isSpace_eq_false hstring hmem] at hc
    contradiction

/-- **A lexeme in front of white space,** or at the end, is the longest one there. -/
theorem longest_append (h : IsLexeme kind lexeme) (hbehind : ∀ c ∈ behind.head?, isSpace c = true) :
    Longest (lexeme ++ behind) kind lexeme where
  isLexeme := h
  isPrefix := List.prefix_append lexeme behind
  length_le := by
    intro kind' lexeme' h' hprefix
    by_contra hlonger
    obtain ⟨more, rfl⟩ := List.prefix_of_prefix_length_le (List.prefix_append lexeme behind) hprefix
      (Nat.le_of_not_le hlonger)
    rw [List.prefix_append_right_inj] at hprefix
    cases more with
    | nil => exact hlonger (by rw [List.append_nil])
    | cons c more =>
      obtain ⟨rest, rfl⟩ := hprefix
      exact h.not_extended (hbehind c rfl) h'

/-- **No comment or white space** begins where a lexeme does that stands in front of white space. -/
theorem not_beginsGap (h : IsLexeme kind lexeme) (hbehind : ∀ c ∈ behind.head?, isSpace c = true) :
    ¬ BeginsGap (lexeme ++ behind) := by
  have hslash : ∀ kind ∈ TokenKind.all, kind.isOperator = true →
      kind.text.toList.head? = some '/' → kind.text.toList = ['/'] := by decide
  obtain ⟨c, rest, rfl, hclass⟩ := h.classes
  rintro (hc | ⟨rfl, hnext⟩)
  · by_cases hstring : kind = .string
    · subst hstring
      obtain ⟨body, -, htext⟩ := h.string_body
      obtain ⟨rfl, -⟩ := List.cons.inj htext
      contradiction
    · rw [h.isSpace_eq_false hstring List.mem_cons_self] at hc
      contradiction
  · -- one slash is an operator by itself, and white space is no other one
    obtain ⟨hc', -⟩ | ⟨hc', -⟩ | ⟨hc', -⟩ | ⟨-, hkind, htext⟩ := hclass
    · contradiction
    · contradiction
    · contradiction
    · have halone := hslash kind kind.mem_all hkind (by rw [htext]; rfl)
      rw [htext] at halone
      obtain rfl := (List.cons.inj halone).2
      have := hbehind '/' hnext
      contradiction

end IsLexeme

/-! ### Joined lexemes -/

/-- **Joined lexemes,** with the separator between any two of them. -/
def joined (separator : Char) (tokens : List Token) : String :=
  (String.singleton separator).intercalate (tokens.map (·.lexeme))

/-- **What stands before a token** in such a text: the lexemes of the tokens before it, each with the
separator behind it. -/
def joinedFront (separator : Char) (tokens : List Token) : List Char :=
  tokens.flatMap fun t => t.lexeme.toList ++ [separator]

section Joined

variable {separator : Char}

theorem joinedFront_concat (tokens : List Token) (t : Token) :
    joinedFront separator (tokens ++ [t]) =
      joinedFront separator tokens ++ (t.lexeme.toList ++ [separator]) := by
  rw [joinedFront, List.flatMap_append, List.flatMap_singleton]
  rfl

/-- **Lexemes behind others.** Each of those in front has the separator behind it. -/
theorem toList_joined_append (front : List Token) {tokens : List Token} (hne : tokens ≠ []) :
    (joined separator (front ++ tokens)).toList =
      joinedFront separator front ++ (joined separator tokens).toList := by
  simp only [joined, String.toList_intercalate, String.toList_singleton]
  induction front with
  | nil => rfl
  | cons u front ih =>
    have hne' : ((front ++ tokens).map (·.lexeme)).map String.toList ≠ [] := by simp [hne]
    rw [List.cons_append, List.map_cons, List.map_cons, List.intercalate_cons_of_ne_nil hne', ih]
    simp only [joinedFront, List.flatMap_cons, List.append_assoc]

theorem joined_singleton (t : Token) : joined separator [t] = t.lexeme := String.intercalate_singleton

/-- **Where a lexeme has been put:** behind those before it, each with the separator behind it. -/
theorem joinedFront_prefix {tokens : List Token} {i : Nat} {t : Token} (ht : tokens[i]? = some t) :
    joinedFront separator (tokens.take i) ++ t.lexeme.toList <+: (joined separator tokens).toList := by
  obtain ⟨hi, rfl⟩ := List.getElem?_eq_some_iff.1 ht
  have hsplit : tokens = tokens.take i ++ tokens[i] :: tokens.drop (i + 1) := by
    rw [← List.drop_eq_getElem_cons hi, List.take_append_drop]
  rw [congrArg (fun tokens => (joined separator tokens).toList) hsplit,
    toList_joined_append _ (List.cons_ne_nil _ _), List.prefix_append_right_inj]
  cases tokens.drop (i + 1) with
  | nil => rw [joined_singleton]
  | cons u rest =>
    rw [← List.singleton_append, toList_joined_append [tokens[i]] (List.cons_ne_nil u rest),
      joinedFront, List.flatMap_singleton, List.append_assoc]
    exact List.prefix_append _ _

/-- **A token read again** behind this text: it is the same but for its place. -/
structure Token.Again (before : List Char) (t t' : Token) : Prop where
  kind_eq : t'.kind = t.kind
  lexeme_eq : t'.lexeme = t.lexeme
  value_eq : t'.value = t.value
  start_eq : t'.start = before.length
  line_eq : t'.line = 1 + before.count '\n'

/-- **Tokens as they are read:** of the kind and with the value of their lexemes. -/
def Token.IsRead (t : Token) : Prop :=
  IsLexeme t.kind t.lexeme.toList ∧ t.value = valueOf t.kind t.lexeme.toList

theorem Token.IsRead.again {t : Token} (ht : t.IsRead) (before : List Char) :
    t.Again before (.behind before t.kind t.lexeme.toList) where
  kind_eq := rfl
  lexeme_eq := String.ofList_toList
  value_eq := ht.2.symm
  start_eq := rfl
  line_eq := rfl

theorem Reached.isRead {source before text : List Char} {body : List Token}
    (h : Reached source body before text) : ∀ t ∈ body, t.IsRead := by
  induction h with
  | start => exact fun t ht => absurd ht List.not_mem_nil
  | space _ _ ih | comment _ _ _ ih => exact ih
  | lexeme _ _ hlexeme ih =>
    intro t ht
    obtain ht | ht := List.mem_append.1 ht
    · exact ih t ht
    · obtain rfl := List.mem_singleton.1 ht
      simp only [Token.IsRead, Token.behind, String.toList_ofList]
      exact ⟨hlexeme.isLexeme, trivial⟩

/-- **The same tokens again,** each behind the lexemes of those before it. -/
structure ReadAgain (separator : Char) (body body' : List Token) : Prop where
  length_eq : body'.length = body.length
  again : ∀ (i : Nat) (t t' : Token), body[i]? = some t → body'[i]? = some t' →
    t.Again (joinedFront separator (body.take i)) t'

theorem ReadAgain.concat {body body' : List Token} (h : ReadAgain separator body body')
    {t t' : Token} (ht : t.Again (joinedFront separator body) t') :
    ReadAgain separator (body ++ [t]) (body' ++ [t']) where
  length_eq := by rw [List.length_append, List.length_append, h.length_eq]; rfl
  again i u u' hu hu' := by
    obtain hi | rfl | hi := Nat.lt_trichotomy i body.length
    · have hi' : i < body'.length := h.length_eq ▸ hi
      rw [List.getElem?_append_left hi] at hu
      rw [List.getElem?_append_left hi'] at hu'
      rw [List.take_append_of_le_length hi.le]
      exact h.again i u u' hu hu'
    · -- this is the last one
      rw [List.getElem?_concat_length] at hu
      rw [← h.length_eq, List.getElem?_concat_length] at hu'
      obtain rfl := Option.some.inj hu
      obtain rfl := Option.some.inj hu'
      rwa [List.take_left]
    · rw [List.getElem?_eq_none (by rwa [List.length_append])] at hu
      contradiction

/-! ### Reading them again -/

/-- **Lexemes with the separator behind each** are read up to the last separator. -/
theorem reached_joinedFront (hseparator : isSpace separator = true) {body : List Token}
    (hbody : ∀ t ∈ body, t.IsRead) (text : List Char) :
    ∃ body', Reached (joinedFront separator body ++ text) body' (joinedFront separator body) text ∧
      ReadAgain separator body body' := by
  induction body using List.reverseRecOn generalizing text with
  | nil => exact ⟨[], .start, rfl, fun i t t' ht => by simp at ht⟩
  | append_singleton body t ih =>
    have ht : t.IsRead := hbody t (List.mem_append_right _ List.mem_cons_self)
    obtain ⟨body', hreached, hagain⟩ :=
      ih (fun u hu => hbody u (List.mem_append_left _ hu)) (t.lexeme.toList ++ separator :: text)
    have hbehind : ∀ c ∈ (separator :: text).head?, isSpace c = true := by
      rintro c ⟨⟩
      exact hseparator
    -- the lexeme is taken whole, and the separator behind it is skipped
    have hlexeme := (hreached.lexeme (ht.1.not_beginsGap hbehind)
      (ht.1.longest_append hbehind)).space hseparator
    refine ⟨_, ?_, hagain.concat (ht.again _)⟩
    rw [joinedFront_concat, List.append_assoc, List.append_assoc, ← List.append_assoc _ _ [separator]]
    exact hlexeme

/-- **Joined lexemes** are read up to the end. -/
theorem reached_joined (hseparator : isSpace separator = true) {body : List Token}
    (hbody : ∀ t ∈ body, t.IsRead) :
    ∃ body', Reached (joined separator body).toList body' (joined separator body).toList [] ∧
      ReadAgain separator body body' := by
  obtain rfl | ⟨front, t, rfl⟩ := body.eq_nil_or_concat'
  · exact ⟨[], .start, rfl, fun i t t' ht => by simp at ht⟩
  · have ht : t.IsRead := hbody t (List.mem_append_right _ List.mem_cons_self)
    obtain ⟨body', hreached, hagain⟩ := reached_joinedFront hseparator
      (fun u hu => hbody u (List.mem_append_left _ hu)) (t.lexeme.toList ++ [])
    -- nothing is behind the last lexeme
    have hend : ∀ c ∈ ([] : List Char).head?, isSpace c = true := nofun
    have hlexeme := hreached.lexeme (ht.1.not_beginsGap hend) (ht.1.longest_append hend)
    refine ⟨_, ?_, hagain.concat (ht.again _)⟩
    rw [toList_joined_append front (List.cons_ne_nil t []), joined_singleton]
    rwa [List.append_nil] at hlexeme

/-! ### Sources -/

/-- The end of a text, as it is read again. -/
theorem Token.again_eof (source before : List Char) :
    (Token.behind source .eof []).Again before (.behind before .eof []) :=
  ⟨rfl, rfl, rfl, rfl, rfl⟩

/-- **The lexemes of a source, joined by white space,** are read as the same tokens: of the same kinds,
with the same lexemes and values. Every token starts where its lexeme has been put, and its line is
one more than the number of newlines there, those in strings included. -/
theorem tokenize_joined {source : String} {tokens : Array Token}
    (h : tokenize source = .ok tokens) (hseparator : isSpace separator = true) :
    ∃ body eof body' eof',
      tokens.toList = body ++ [eof] ∧ (∀ t ∈ body, t.kind ≠ .eof) ∧ eof.kind = .eof ∧
      tokenize (joined separator body) = .ok (body' ++ [eof']).toArray ∧
      (∀ i t, body[i]? = some t → joinedFront separator (body.take i) ++ t.lexeme.toList <+:
        (joined separator body).toList) ∧
      ReadAgain separator body body' ∧ eof.Again (joined separator body).toList eof' := by
  obtain ⟨body, hreached, htokens⟩ := reached_of_tokenize h
  have hread := hreached.isRead
  obtain ⟨body', hreached', hagain⟩ := reached_joined hseparator hread
  exact ⟨body, _, body', _, htokens, fun t ht => (hread t ht).1.ne_eof, rfl,
    hreached'.tokenize_eq_ok, fun i t => joinedFront_prefix, hagain, Token.again_eof _ _⟩

end Joined

/-- A comment, a string over two lines that looks like one, and lexemes without white space between
them, each on a line of its own. -/
theorem tokenize_joined_lines :
    let source := "a>=1.5// b\n\"// c\n\";!=nil"
    isSpace '\n' = true ∧ ∃ tokens, tokenize source = .ok tokens ∧ ∃ body eof body' eof',
      tokens.toList = body ++ [eof] ∧ (∀ t ∈ body, t.kind ≠ .eof) ∧ eof.kind = .eof ∧
      tokenize (joined '\n' body) = .ok (body' ++ [eof']).toArray ∧
      (∀ i t, body[i]? = some t → joinedFront '\n' (body.take i) ++ t.lexeme.toList <+:
        (joined '\n' body).toList) ∧
      ReadAgain '\n' body body' ∧ eof.Again (joined '\n' body).toList eof' := by
  intro source
  have hok : (tokenize source).isOk = true := by decide +kernel
  cases h : tokenize source with
  | error e => rw [h] at hok; contradiction
  | ok tokens => exact ⟨by decide, tokens, rfl, tokenize_joined h (by decide)⟩

end Lox
