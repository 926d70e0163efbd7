import Lox.Proofs.Token.Places

/-!
# Sources one after the other

Two sources that are joined by a newline have the tokens of both. A newline ends every lexeme of the
first one, comments included, and a string in it has ended before; so nothing is read across the
seam, and the tokens of the second source only stand in a later place.

* `PrefixTree.Avoids`, `PrefixTree.longest_append` — a letter that no word has ends every match;
* `Lexeme.read_append` — what is read in front of a newline, whatever comes behind it;
* `scanFrom_append`, `scanFrom_later` — a walk up to the seam, and a walk that begins later;
* `tokenize_append` — the tokens of two sources joined by a newline.
-/

namespace Lox

/-! ### Operators -/

namespace PrefixTree

/-- **A letter that no word of a tree has.** -/
def Avoids (c : Char) : PrefixTree → Prop
  | leaf => True
  | node letter _ below beside => c ≠ letter ∧ below.Avoids c ∧ beside.Avoids c

instance decidableAvoids (c : Char) : (tree : PrefixTree) → Decidable (tree.Avoids c)
  | leaf => inferInstanceAs (Decidable True)
  | node letter _ below beside =>
    have := decidableAvoids c below
    have := decidableAvoids c beside
    inferInstanceAs (Decidable (c ≠ letter ∧ below.Avoids c ∧ beside.Avoids c))

/-- **No match reaches beyond such a letter.** -/
theorem longest_append {c : Char} {tree : PrefixTree} (h : tree.Avoids c) (text more : List Char) :
    tree.longest (text ++ c :: more) = tree.longest text := by
  induction tree generalizing text with
  | leaf => rfl
  | node letter ends below beside ihBelow ihBeside =>
    obtain ⟨hletter, hbelow, hbeside⟩ := h
    cases text with
    | nil =>
      -- the letter is not that of this node, and by induction it begins no word beside it
      have hnone : beside.longest (c :: more) = beside.longest [] := ihBeside hbeside []
      simp only [List.nil_append, longest, if_neg hletter, hnone]
      cases beside <;> rfl
    | cons d text =>
      have hnext : beside.longest (d :: (text ++ c :: more)) = beside.longest (d :: text) :=
        ihBeside hbeside (d :: text)
      rw [List.cons_append, longest, longest, ihBelow hbelow, hnext]

end PrefixTree

theorem operatorTree_avoids_newline : operatorTree.Avoids '\n' := by decide

/-! ### Lexemes -/

theorem takeWhile_append_stop {p : Char → Bool} {c : Char} (hc : p c = false)
    (text more : List Char) : (text ++ c :: more).takeWhile p = text.takeWhile p := by
  induction text with
  | nil => rw [List.nil_append, List.takeWhile_cons, hc]; rfl
  | cons d text ih => rw [List.cons_append, List.takeWhile_cons, List.takeWhile_cons, ih]

theorem dropWhile_append_stop {p : Char → Bool} {c : Char} (hc : p c = false)
    (text more : List Char) : (text ++ c :: more).dropWhile p = text.dropWhile p ++ c :: more := by
  induction text with
  | nil => rw [List.nil_append, List.dropWhile_cons, hc]; rfl
  | cons d text ih =>
    rw [List.cons_append, List.dropWhile_cons, List.dropWhile_cons, ih]
    split <;> rfl

namespace Lexeme

variable (c : Char) (rest more : List Char)

theorem number_append : number c (rest ++ '\n' :: more) = number c rest := by
  have hdigit : Char.isDigit '\n' = false := by decide
  unfold number
  rw [takeWhile_append_stop hdigit, dropWhile_append_stop hdigit]
  cases rest.dropWhile Char.isDigit with
  | nil => rfl
  | cons d text =>
    by_cases hpoint : d = '.'
    · subst hpoint
      simp only [List.cons_append, takeWhile_append_stop hdigit]
    · -- the text does not go on with a point, and is not looked at any further
      simp [hpoint]

theorem word_append : word c (rest ++ '\n' :: more) = word c rest := by
  unfold word
  rw [takeWhile_append_stop (by decide)]

/-- **A string that has ended** does not depend on what comes behind it. -/
theorem string_append : string (rest ++ '\n' :: more) = string rest ∨ string rest = .unterminated := by
  unfold string
  rw [List.takeWhile_append]
  by_cases hended : (rest.takeWhile (· != '"')).length = rest.length
  · right
    simp [hended]
  · left
    have hshort : (rest.takeWhile (· != '"')).length < rest.length :=
      lt_of_le_of_ne (List.takeWhile_sublist _).length_le hended
    rw [if_neg hended]
    simp only [if_pos hshort, List.length_append]
    rw [if_pos (by omega)]

theorem operator_append : operator (c :: (rest ++ '\n' :: more)) = operator (c :: rest) := by
  have hsame : operatorTree.longest (c :: (rest ++ '\n' :: more)) =
      operatorTree.longest (c :: rest) :=
    PrefixTree.longest_append operatorTree_avoids_newline (c :: rest) more
  unfold operator
  rw [hsame]
  cases hlongest : operatorTree.longest (c :: rest) with
  | none => rfl
  | some length =>
    -- the match lies in front of the newline
    have htake : (c :: (rest ++ '\n' :: more)).take length = (c :: rest).take length :=
      List.take_append_of_le_length (PrefixTree.longest_le hlongest).2
    simp only [htake]

/-- **What is read in front of a newline** does not depend on what comes behind it, unless a string
has not ended there. -/
theorem read_append : read c (rest ++ '\n' :: more) = read c rest ∨ read c rest = .unterminated := by
  have hhead : ((rest ++ '\n' :: more).head? == some '/') = (rest.head? == some '/') := by
    cases rest <;> rfl
  unfold read
  rw [hhead, takeWhile_append_stop (by decide), number_append, word_append, operator_append]
  split
  · exact .inl rfl
  split
  · exact .inl rfl
  split
  · exact string_append rest more
  · exact .inl rfl

/-- How far a lexeme reaches. -/
def length : Lexeme → Nat
  | gap length => length
  | token _ length _ => length
  | unterminated | unexpected | unknown _ => 0

theorem length_number_le : (number c rest).length ≤ rest.length + 1 := by
  have hwhole : (rest.takeWhile Char.isDigit).length + (rest.dropWhile Char.isDigit).length =
      rest.length := by
    rw [← List.length_append, List.takeWhile_append_dropWhile]
  unfold number
  simp only [length]
  split
  next text hdrop =>
    have hfraction := (List.takeWhile_sublist Char.isDigit (l := text)).length_le
    rw [hdrop, List.length_cons] at hwhole
    split <;> simp only [List.length_append, List.length_cons] <;> omega
  next =>
    simp only [List.length_cons]
    omega

/-- **A lexeme lies within the text.** -/
theorem length_read_le : (read c rest).length ≤ rest.length + 1 := by
  -- what is taken from the front of the rest is no longer than it
  have htake : ∀ p : Char → Bool, (rest.takeWhile p).length ≤ rest.length := fun p =>
    (List.takeWhile_sublist p).length_le
  -- white space, a comment, a string, a number, a word or an operator
  unfold read
  split
  · exact Nat.le_add_left ..
  split
  · exact Nat.succ_le_succ (htake _)
  split
  · unfold string
    simp only
    split
    next hshort =>
      change _ + 2 ≤ _
      omega
    · exact Nat.zero_le _
  split
  · exact length_number_le c rest
  split
  · exact Nat.succ_le_succ (htake _)
  · unfold operator
    split
    · exact Nat.zero_le _
    next n hlongest =>
      simp only
      split
      · exact (PrefixTree.longest_le hlongest).2
      · exact Nat.zero_le _

end Lexeme

/-! ### Walks -/

/-- **A walk up to a newline.** It has then read all that it reads of the text alone. -/
theorem scanFrom_append {source source' more : List Char} {tokens result : Array Token}
    {here : Position} {text : List Char} {skip : Nat}
    (h : scanFrom source tokens here text skip = .ok result) (hskip : skip ≤ text.length) :
    ∃ eof, result = result.pop.push eof ∧
      scanFrom source' tokens here (text ++ '\n' :: more) skip =
        scanFrom source' result.pop (here.after (text ++ ['\n'])) more 0 := by
  -- by the text ahead; `skip` counts the characters of the last lexeme that are left
  induction text generalizing tokens here skip with
  | nil =>
    obtain rfl : skip = 0 := Nat.le_zero.1 hskip
    rw [scanFrom] at h
    obtain rfl := Except.ok.inj h
    rw [Array.pop_push]
    exact ⟨_, rfl, rfl⟩
  | cons c rest ih =>
    cases skip with
    | succ skip => exact ih h (Nat.le_of_succ_le_succ hskip)
    | zero =>
      have hlength := Lexeme.length_read_le c rest
      rw [scanFrom] at h
      rw [List.cons_append, scanFrom]
      -- more text behind does not matter, unless the text alone ends inside a string
      obtain hread | hread := Lexeme.read_append c rest more
      · rw [hread]
        split at h
        next length hgap =>
          rw [hgap] at hlength
          change length ≤ _ at hlength
          exact ih h (by omega)
        next kind length value htoken =>
          rw [htoken] at hlength
          change length ≤ rest.length + 1 at hlength
          have htake : ((c :: rest) ++ '\n' :: more).take length = (c :: rest).take length :=
            List.take_append_of_le_length hlength
          rw [List.cons_append] at htake
          simp only [htake]
          exact ih h (by omega)
        all_goals contradiction
      · rw [hread] at h
        contradiction

/-- **A token in a later place.** -/
def Token.later (start line : Nat) (t : Token) : Token :=
  { t with start := t.start + start, line := t.line + line }

/-- A position farther on. -/
def Position.later (start line : Nat) (here : Position) : Position :=
  ⟨here.offset + start, here.line + line⟩

/-- The place of a later token. -/
theorem Token.later_at (start line : Nat) (here : Position) (kind : TokenKind) (lexeme : String)
    (value : Option Literal) :
    (⟨kind, lexeme, value, here.offset, here.line⟩ : Token).later start line =
      ⟨kind, lexeme, value, (here.later start line).offset, (here.later start line).line⟩ := by
  simp only [Token.later, Position.later, Int.natCast_add]

theorem Position.later_advance (start line : Nat) (here : Position) (c : Char) :
    (here.later start line).advance c = (here.advance c).later start line := by
  by_cases hc : c = '\n'
  · simp only [advance, later, if_pos hc, Nat.add_right_comm]
  · simp only [advance, later, if_neg hc, Nat.add_right_comm]

/-- **A walk that begins later** reads the same tokens, farther on. It does not matter what was read
before, or which source is quoted in errors. -/
theorem scanFrom_later {source : List Char} {tokens result : Array Token} {here : Position}
    {text : List Char} {skip : Nat} (h : scanFrom source tokens here text skip = .ok result) :
    ∃ added, result = tokens ++ added ∧ ∀ source' before start line,
      scanFrom source' before (here.later start line) text skip =
        .ok (before ++ added.map (Token.later start line)) := by
  -- what is read depends on the text ahead only
  induction text generalizing tokens here skip with
  | nil =>
    rw [scanFrom] at h
    obtain rfl := Except.ok.inj h
    refine ⟨#[⟨.eof, "", none, here.offset, here.line⟩], Array.push_eq_append, ?_⟩
    intro source' before start line
    rw [scanFrom, ← Token.later_at, Array.push_eq_append, Array.map_singleton]
  | cons c rest ih =>
    cases skip with
    | succ skip =>
      -- inside a lexeme the walk only counts
      obtain ⟨added, hresult, hadded⟩ := ih h
      refine ⟨added, hresult, fun source' before start line => ?_⟩
      rw [scanFrom, Position.later_advance]
      exact hadded source' before start line
    | zero =>
      rw [scanFrom] at h
      split at h
      next length hgap =>
        obtain ⟨added, hresult, hadded⟩ := ih h
        refine ⟨added, hresult, fun source' before start line => ?_⟩
        rw [scanFrom, hgap, Position.later_advance]
        exact hadded source' before start line
      next kind length value htoken =>
        obtain ⟨added, hresult, hadded⟩ := ih h
        -- the token stands in its place on either side, before all that is read behind it
        let t : Token :=
          ⟨kind, String.ofList ((c :: rest).take length), value, here.offset, here.line⟩
        refine ⟨#[t] ++ added, ?_, fun source' before start line => ?_⟩
        · rw [hresult, Array.push_eq_append, Array.append_assoc]
        · rw [scanFrom, htoken, Position.later_advance]
          simp only
          rw [hadded, ← Token.later_at, Array.push_eq_append, Array.append_assoc, Array.map_append,
            Array.map_singleton]
      -- everything else is an error
      all_goals contradiction

/-! ### Sources -/

/-- **Two sources joined by a newline** have the tokens of both. The token for the end of the first
is left out, and those of the second stand behind the newline. -/
theorem tokenize_append {a b : String} {first second : Array Token} (ha : tokenize a = .ok first)
    (hb : tokenize b = .ok second) :
    tokenize (a ++ "\n" ++ b) =
      .ok (first.pop ++ second.map (Token.later (a.length + 1) (1 + a.toList.count '\n'))) := by
  have hsource : (a ++ "\n" ++ b).toList = a.toList ++ '\n' :: b.toList := by
    rw [String.toList_append, String.toList_append, List.append_assoc]
    rfl
  obtain ⟨-, -, hseam⟩ := scanFrom_append ha (Nat.zero_le _)
  obtain ⟨added, hsecond, hadded⟩ := scanFrom_later hb
  have hthere : Position.start.after (a.toList ++ ['\n']) =
      Position.start.later (a.length + 1) (1 + a.toList.count '\n') := by
    rw [Position.after_eq, List.length_append, List.count_append, String.length_toList]
    simp only [Position.later, Position.start, List.length_singleton, List.count_singleton_self]
    congr 1
    omega
  rw [Array.empty_append] at hsecond
  rw [tokenize, hsource, hseam, hthere, hadded, hsecond]

end Lox
