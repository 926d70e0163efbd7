import Lox.Proofs.Grammar.Concatenation
import Lox.Proofs.Grammar.Rejection

/-!
# Parsing distributes over concatenation

A source that is read in some room is read alike in more room, so that two sources that were read in
different rooms are read in one that has room for both. There their tokens and their statements
follow each other, and only the place of the second has changed.

* `parse_other_room`, `parse_more_room`, `parse_unique` — one source in several rooms;
* `parse_distributes` — two sources joined by a newline, their tokens and their statements.
-/

namespace Lox

section Rooms

variable {room room' : Nat} {source : String} {program : List Stmt}

/-- A source whose tokens are known is read from them. -/
theorem parse_eq_ok_of_reading {tokens : Array Token} (htokens : tokenize source = .ok tokens)
    (h : (Reading.ofTokens room tokens).statements = .ok program) :
    parse room source = .ok program := by
  unfold parse
  rw [htokens]
  simp only [h]

/-- A source whose tokens are known is rejected with them. -/
theorem parse_eq_error_of_reading {tokens : Array Token} {e : SyntaxError}
    (htokens : tokenize source = .ok tokens)
    (h : (Reading.ofTokens room tokens).statements = .error e) :
    parse room source = .error (.syntactic e) := by
  unfold parse
  rw [htokens]
  simp only [h]

/-- **A source that is read in some room** is read alike in every other one, unless it is nested too
deeply for that one. -/
theorem parse_other_room (h : parse room source = .ok program) (room' : Nat) :
    parse room' source = .ok program ∨ room' < 8 * sizeOf program ∧
      ∃ e : SyntaxError, e.IsNesting ∧ parse room' source = .error (.syntactic e) := by
  obtain ⟨body, eof, htokens, heof, hfits⟩ := fits_of_parse h
  obtain hread | ⟨hlt, e, he, hread⟩ := reading_of_normal (normal_of_parse h) hfits heof room'
  · exact .inl (parse_eq_ok_of_reading htokens hread)
  · exact .inr ⟨hlt, e, he, parse_eq_error_of_reading htokens hread⟩

/-- **Two rooms** do not read different statements. -/
theorem parse_unique {program' : List Stmt} (h : parse room source = .ok program)
    (h' : parse room' source = .ok program') : program' = program := by
  obtain hsame | ⟨-, e, -, herror⟩ := parse_other_room h room'
  · exact Except.ok.inj (h'.symm.trans hsame)
  · rw [h'] at herror
    contradiction

/-- **More room** does no harm. -/
theorem parse_more_room (h : parse room source = .ok program) (hroom : room ≤ room') :
    parse room' source = .ok program := by
  obtain ⟨body, eof, htokens, -⟩ := fits_of_parse h
  obtain ⟨c, hread⟩ : ∃ c, Parse.program (Descent.inRoom room)
      (Cursor.start (body ++ [eof]).toArray) = .ok program c := by
    obtain ⟨tokens, c, htokens', hread⟩ := parse_eq_ok_iff.1 h
    obtain rfl := Except.ok.inj (htokens.symm.trans htokens')
    exact ⟨c, hread⟩
  -- in more room something is read, and two rooms do not read different statements
  obtain ⟨program', hread'⟩ := reading_succeeds_alike rfl hroom (reading_eq_ok_iff.2 ⟨c, hread⟩)
  have h' := parse_eq_ok_of_reading htokens hread'
  rwa [parse_unique h h'] at h'

end Rooms

/-- **Parsing distributes over concatenation.** Two sources that are joined by a newline have the
tokens of the first without its end and those of the second, farther on by the length of the first
and the newline, and later by its lines. If both can be read, the two of them together are read as
the statements of both, with the tokens in those of the second moved alike. -/
theorem parse_distributes (a b : String) :
    (∀ first second : Array Token, tokenize a = .ok first → tokenize b = .ok second →
      ∃ body eof, first = body.push eof ∧ eof.kind = .eof ∧ tokenize (a ++ "\n" ++ b) =
        .ok (body ++ second.map (Token.later (a.length + 1) (1 + a.toList.count '\n')))) ∧
    ∀ (roomA roomB : Nat) (first second : List Stmt), parse roomA a = .ok first →
      parse roomB b = .ok second → ∀ room, roomA ≤ room → roomB ≤ room →
        parse room (a ++ "\n" ++ b) = .ok (first ++
          Stmt.relocateAll (Token.later (a.length + 1) (1 + a.toList.count '\n')) second) := by
  refine ⟨fun first second ha hb => ?_, fun roomA roomB first second ha hb room hroomA hroomB => ?_⟩
  · obtain ⟨body, eof, hlist, heof, -⟩ := tokenize_shape ha
    obtain rfl : first = body.toArray.push eof := by
      rw [← Array.toList_inj, hlist, Array.toList_push]
    refine ⟨body.toArray, eof, rfl, heof, ?_⟩
    rw [tokenize_append ha hb, Array.pop_push]
  · exact parse_append (parse_more_room ha hroomA) (parse_more_room hb hroomB)

/-- A seam inside a comment, behind a chain of two `if` that could still take an `else`. -/
theorem parse_distributes_seam :
    ∃ (firstTokens secondTokens : Array Token) (first second : List Stmt),
      tokenize "if (a) if (b)\nprint 1; // seam" = .ok firstTokens ∧
      tokenize "print \"c\";" = .ok secondTokens ∧
      tokenize ("if (a) if (b)\nprint 1; // seam" ++ "\n" ++ "print \"c\";") =
        .ok (firstTokens.pop ++ secondTokens.map (Token.later 31 2)) ∧
      parse 60 "if (a) if (b)\nprint 1; // seam" = .ok first ∧
      parse 30 "print \"c\";" = .ok second ∧
      parse 60 ("if (a) if (b)\nprint 1; // seam" ++ "\n" ++ "print \"c\";") =
        .ok (first ++ Stmt.relocateAll (Token.later 31 2) second) := by
  obtain ⟨first, ha⟩ : ∃ first, parse 60 "if (a) if (b)\nprint 1; // seam" = .ok first :=
    exists_program (by decide +kernel)
  obtain ⟨second, hb⟩ : ∃ second, parse 30 "print \"c\";" = .ok second :=
    exists_program (by decide +kernel)
  obtain ⟨ta, -, hta, -⟩ := parse_eq_ok_iff.1 ha
  obtain ⟨tb, -, htb, -⟩ := parse_eq_ok_iff.1 hb
  obtain ⟨htokens, hparse⟩ := parse_distributes "if (a) if (b)\nprint 1; // seam" "print \"c\";"
  obtain ⟨body, eof, rfl, -, hjoined⟩ := htokens ta tb hta htb
  refine ⟨body.push eof, tb, first, second, hta, htb, ?_, ha, hb, ?_⟩
  · rw [Array.pop_push]
    exact hjoined
  · exact hparse 60 30 first second ha hb 60 (Nat.le_refl 60) (by decide)

end Lox
