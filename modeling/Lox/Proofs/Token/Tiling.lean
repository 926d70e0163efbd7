import Lox.Proofs.Token.Reference

/-!
# Tokens tile the source

Every character of a source belongs to one token, or to white space or a comment between two of
them. A token says where it stands, and its lexeme is what stands there; its line counts the
newlines before it, those of strings and comments included.

* `slice` — the text between two offsets;
* `Skipped` — texts of white space and comments;
* `Covered` — tokens that cover the source between two offsets, up to skipped text;
* `Token.Stands`, `Token.Closes` — a token in its place, and the one for the end;
* `Reached.tiling` — the places that the reference scanner reaches, and `tokenize_tiles`, the tokens
  of every source that is accepted.
-/

namespace Lox

/-! ### Slices -/

/-- **The text between two offsets.** -/
def slice (source : List Char) (start stop : Nat) : List Char :=
  (source.drop start).take (stop - start)

theorem slice_self (source : List Char) (start : Nat) : slice source start start = [] := by
  rw [slice, Nat.sub_self, List.take_zero]

theorem slice_append (source : List Char) {start middle stop : Nat} (hstart : start ≤ middle)
    (hstop : middle ≤ stop) :
    slice source start stop = slice source start middle ++ slice source middle stop := by
  have hlength : stop - start = (middle - start) + (stop - middle) := by omega
  rw [slice, hlength, List.take_add, List.drop_drop, Nat.add_sub_of_le hstart]
  rfl

/-- **What stands behind** the text before it. -/
theorem slice_middle (before middle behind : List Char) :
    slice (before ++ middle ++ behind) before.length (before ++ middle).length = middle := by
  rw [slice, List.append_assoc, List.drop_left, List.length_append, Nat.add_sub_cancel_left,
    List.take_left]

theorem drop_eq_slice_append (source : List Char) {start stop : Nat} (h : start ≤ stop) :
    source.drop start = slice source start stop ++ source.drop stop := by
  conv_lhs => rw [← List.take_append_drop (stop - start) (source.drop start)]
  rw [List.drop_drop, Nat.add_sub_of_le h]
  rfl

/-! ### Skipped text -/

/-- **Skipped text** in front of the text `behind`: white space, and comments that run up to a
newline or the end. -/
inductive Skipped (behind : List Char) : List Char → Prop
  | nil : Skipped behind []
  | space {c : Char} {text : List Char} (hc : isSpace c = true) (h : Skipped behind text) :
    Skipped behind (c :: text)
  | comment {comment text : List Char} (hcomment : '\n' ∉ comment)
    (hend : ∀ c ∈ (text ++ behind).head?, c = '\n') (h : Skipped behind text) :
    Skipped behind ('/' :: '/' :: (comment ++ text))

theorem Skipped.append {behind text more : List Char} (h : Skipped (more ++ behind) text)
    (hmore : Skipped behind more) : Skipped behind (text ++ more) := by
  induction h with
  | nil => exact hmore
  | space hc _ ih => exact .space hc ih
  | @comment comment text hcomment hend _ ih =>
    rw [← List.append_assoc] at hend
    rw [List.cons_append, List.cons_append, List.append_assoc]
    exact .comment hcomment hend ih

/-! ### Covered text -/

/-- Where a lexeme ends. -/
def Token.stop (t : Token) : Nat := t.start.toNat + t.length

theorem Token.stop_behind (before : List Char) (kind : TokenKind) (lexeme : List Char) :
    (Token.behind before kind lexeme).stop = (before ++ lexeme).length := by
  rw [stop, length, List.length_append, ← String.length_toList]
  simp only [behind, String.toList_ofList, Int.toNat_natCast]

/-- **Covered text.** Between `start` and `stop` the source consists of the lexemes of these tokens,
one after the other, and of skipped text before, between and behind them. -/
def Covered (source : List Char) (start : Nat) : List Token → Nat → Prop
  | [], stop => start ≤ stop ∧ Skipped (source.drop stop) (slice source start stop)
  | t :: tokens, stop =>
    (start ≤ t.start.toNat ∧
      Skipped (source.drop t.start.toNat) (slice source start t.start.toNat)) ∧
      Covered source t.stop tokens stop

namespace Covered

variable {source : List Char} {start middle stop : Nat} {tokens : List Token}

/-- **Skipping on.** -/
theorem skip (h : Covered source start tokens middle) (hle : middle ≤ stop)
    (hskipped : Skipped (source.drop stop) (slice source middle stop)) :
    Covered source start tokens stop := by
  induction tokens generalizing start with
  | nil =>
    obtain ⟨hstart, hbefore⟩ := h
    rw [drop_eq_slice_append source hle] at hbefore
    refine ⟨hstart.trans hle, ?_⟩
    rw [slice_append source hstart hle]
    exact hbefore.append hskipped
  | cons t tokens ih => exact ⟨h.1, ih h.2⟩

/-- **One more token.** -/
theorem push {t : Token} (h : Covered source start tokens t.start.toNat) :
    Covered source start (tokens ++ [t]) t.stop := by
  induction tokens generalizing start with
  | nil => exact ⟨h, Nat.le_refl _, by rw [slice_self]; exact .nil⟩
  | cons t' tokens ih => exact ⟨h.1, ih h.2⟩

end Covered

/-! ### Tokens in their place -/

/-- **A token in its place.** It is not empty, its lexeme is what stands where it starts, and its
line is one more than the number of newlines before it. The value of a string is its lexeme without
the quotes, and no quote is inside. -/
structure Token.Stands (source : List Char) (t : Token) : Prop where
  kind_ne : t.kind ≠ .eof
  lexeme_ne : t.lexeme ≠ ""
  start_nonneg : 0 ≤ t.start
  lexeme_eq : t.lexeme.toList = slice source t.start.toNat t.stop
  line_eq : t.line = 1 + (source.take t.start.toNat).count '\n'
  quoted : t.kind = .string → ∃ text, '"' ∉ text ∧ t.lexeme.toList = '"' :: (text ++ ['"']) ∧
    t.value = some (.string (String.ofList text))

namespace IsLexeme

variable {kind : TokenKind} {text : List Char}

theorem ne_eof (h : IsLexeme kind text) : kind ≠ .eof := by
  rintro rfl
  cases h <;> contradiction

theorem string_body (h : IsLexeme .string text) :
    ∃ body, '"' ∉ body ∧ text = '"' :: (body ++ ['"']) := by
  cases h with
  | @string body hbody => exact ⟨body, hbody, rfl⟩
  | keyword h => contradiction
  | operator h => contradiction

/-- **A lexeme in its place** becomes a token in its place. -/
theorem stands {lexeme before behind : List Char} (h : IsLexeme kind lexeme) :
    (Token.behind before kind lexeme).Stands (before ++ lexeme ++ behind) where
  kind_ne := h.ne_eof
  lexeme_ne := by
    intro hempty
    refine h.ne_nil ?_
    rw [← String.toList_ofList (l := lexeme)]
    exact String.toList_eq_nil_iff.2 hempty
  start_nonneg := Int.natCast_nonneg _
  lexeme_eq := by
    rw [Token.stop_behind]
    simp only [Token.behind, String.toList_ofList, Int.toNat_natCast]
    exact (slice_middle before lexeme behind).symm
  line_eq := by
    simp only [Token.behind, Int.toNat_natCast]
    rw [List.append_assoc, List.take_left]
  quoted := by
    intro hkind
    obtain rfl : kind = .string := hkind
    obtain ⟨body, hbody, rfl⟩ := h.string_body
    refine ⟨body, hbody, String.toList_ofList, ?_⟩
    simp only [Token.behind, valueOf, List.tail_cons, List.dropLast_concat]

end IsLexeme

/-- **The token for the end.** It is empty and stands behind the last character. -/
structure Token.Closes (source : List Char) (eof : Token) : Prop where
  kind_eq : eof.kind = .eof
  lexeme_eq : eof.lexeme = ""
  start_eq : eof.start = source.length
  line_eq : eof.line = 1 + source.count '\n'

/-! ### Sources -/

/-- **What the reference scanner has read** is covered by its tokens, each of them in its place. -/
theorem Reached.tiling {source before text : List Char} {body : List Token}
    (h : Reached source body before text) :
    Covered source 0 body before.length ∧ ∀ t ∈ body, t.Stands source := by
  induction h with
  | start => exact ⟨⟨Nat.le_refl _, .nil⟩, by simp⟩
  | @space body before text c h hc ih =>
    obtain ⟨hcovered, hstands⟩ := ih
    -- what was read is the front of the source, with the gap right behind it
    have hsource : before ++ [c] ++ text = source := by
      rw [List.append_assoc]
      exact h.append_eq
    refine ⟨hcovered.skip (List.prefix_append before [c]).length_le ?_, hstands⟩
    rw [← hsource, slice_middle, List.drop_left]
    exact .space hc .nil
  | @comment body before comment text h hcomment htext ih =>
    obtain ⟨hcovered, hstands⟩ := ih
    have hsource : before ++ '/' :: '/' :: comment ++ text = source := by
      rw [List.append_assoc]
      exact h.append_eq
    refine ⟨hcovered.skip (List.prefix_append before _).length_le ?_, hstands⟩
    rw [← hsource, slice_middle, List.drop_left, ← List.append_nil comment]
    exact .comment hcomment htext .nil
  | @lexeme body before lexeme text kind h hgap hlexeme ih =>
    obtain ⟨hcovered, hstands⟩ := ih
    have hsource : before ++ lexeme ++ text = source := by
      rw [List.append_assoc]
      exact h.append_eq
    refine ⟨?_, fun t ht => ?_⟩
    · -- the token begins where the one before it or the gap ended
      rw [← Token.stop_behind before kind lexeme]
      exact hcovered.push
    · obtain ht | ht := List.mem_append.1 ht
      · exact hstands t ht
      · obtain rfl := List.mem_singleton.1 ht
        rw [← hsource]
        exact hlexeme.isLexeme.stands

/-- **The tokens of a source tile it.** The last one, and it alone, marks the end and stands there;
the others are in their place, and between them, before the first and after the last there is
nothing but white space and comments. -/
theorem tokenize_tiles {source : String} {tokens : Array Token}
    (h : tokenize source = .ok tokens) : ∃ body eof, tokens.toList = body ++ [eof] ∧
      (∀ t ∈ body, t.Stands source.toList) ∧ Covered source.toList 0 body source.length ∧
      eof.Closes source.toList := by
  obtain ⟨body, hreached, htokens⟩ := reached_of_tokenize h
  obtain ⟨hcovered, hstands⟩ := hreached.tiling
  rw [String.length_toList] at hcovered
  exact ⟨body, _, htokens, hstands, hcovered, rfl, rfl, rfl, rfl⟩

/-- A comment, a string over two lines, and what comes behind it. -/
theorem tokenize_tiles_lines :
    let source := "// one\nprint \"a\nb\" ; // two\n\tx"
    ∃ tokens, tokenize source = .ok tokens ∧ ∃ body eof, tokens.toList = body ++ [eof] ∧
      (∀ t ∈ body, t.Stands source.toList) ∧ Covered source.toList 0 body source.length ∧
      eof.Closes source.toList := by
  intro source
  have hok : (tokenize source).isOk = true := by decide +kernel
  cases h : tokenize source with
  | error e => rw [h] at hok; contradiction
  | ok tokens => exact ⟨tokens, rfl, tokenize_tiles h⟩

end Lox
