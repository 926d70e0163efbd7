import Lox.Proofs.Grammar.Distribution

/-!
# Sources in braces

A source in braces is read as a block of its statements. The brace in front moves all tokens by one
character and keeps their lines; the one behind stands on a line of its own, so that it does not get
into a comment. All that can go wrong is that the block is nested too deeply for the room.

* `braced` — a source in braces, `tokenize_braced` its tokens;
* `program_later` — the declarations of a source whose tokens stand farther on;
* `parse_braced` — what a source in braces is read as.
-/

namespace Lox

/-- **A source in braces.** -/
def braced (source : String) : String := "\x7b" ++ source ++ "\n\x7d"

/-- The lines are those that they were. -/
def Relocation.behindBrace : Relocation := .later 1 0

/-- **The brace in front** is a token of its own. -/
theorem tokenize_brace {source : String} {tokens : Array Token}
    (h : tokenize source = .ok tokens) :
    tokenize ("\x7b" ++ source) =
      .ok (#[⟨.leftBrace, "\x7b", none, 0, 1⟩] ++ tokens.map Relocation.behindBrace.move) := by
  obtain ⟨added, hadded, hlater⟩ := scanFrom_later h
  rw [Array.empty_append] at hadded
  have hsource : ("\x7b" ++ source).toList = '\x7b' :: source.toList := String.toList_append
  have hread : Lexeme.read '\x7b' source.toList = .token .leftBrace 1 none := rfl
  rw [tokenize, hsource, scanFrom, hread, hadded]
  exact hlater _ _ 1 0

/-- **The tokens of a source in braces.** -/
theorem tokenize_braced {source : String} {body : List Token} {eof : Token}
    (h : tokenize source = .ok (body ++ [eof]).toArray) :
    ∃ opening closing eof', opening.kind = .leftBrace ∧ closing.kind = .rightBrace ∧
      eof'.kind = .eof ∧ tokenize (braced source) =
        .ok (opening :: body.map Relocation.behindBrace.move ++ [closing] ++ [eof']).toArray := by
  let opening : Token := ⟨.leftBrace, "\x7b", none, 0, 1⟩
  let closing : Token := ⟨.rightBrace, "\x7d", none, 0, 1⟩
  let eof' : Token := ⟨.eof, "", none, 1, 1⟩
  let r : Relocation :=
    .later (("\x7b" ++ source).length + 1) (1 + ("\x7b" ++ source).toList.count '\n')
  refine ⟨opening, r.move closing, r.move eof', rfl, rfl, rfl, ?_⟩
  have hbraced : braced source = "\x7b" ++ source ++ "\n" ++ "\x7d" := by
    rw [String.append_assoc]
    rfl
  -- the closing brace is a source of its own, joined to the rest by the newline
  have hclosing : tokenize "\x7d" = .ok #[closing, eof'] := rfl
  have hfront : #[opening] ++ (body ++ [eof]).toArray.map Relocation.behindBrace.move =
      (opening :: body.map Relocation.behindBrace.move).toArray.push
        (Relocation.behindBrace.move eof) := by
    simp
  have hback : (opening :: body.map Relocation.behindBrace.move).toArray ++
        #[closing, eof'].map r.move =
      (opening :: body.map Relocation.behindBrace.move ++ [r.move closing] ++
        [r.move eof']).toArray := by
    simp
  rw [hbraced, tokenize_append (tokenize_brace h) hclosing, hfront, Array.pop_push]
  exact congrArg Except.ok hback

/-! ### The statements -/

/-- **The declarations of a source that stands farther on** are those of the source, farther on. -/
theorem program_later {room : Nat} {r : Relocation} {body : List Token} {eof : Token}
    {program : List Stmt} {c : Cursor} (hbody : ∀ t ∈ body, t.kind ≠ .eof) (heof : eof.kind = .eof)
    (hhead : ∀ t, (body ++ [eof]).head? = some t → t.kind ≠ .elseWord)
    (h : Parse.program (Descent.inRoom room) (Cursor.start (body ++ [eof]).toArray) =
      .ok program c) :
    ∃ c', Parse.program (Descent.inRoom room)
        (Cursor.start (body.map r.move ++ [r.move eof]).toArray) =
      .ok (Stmt.relocateAll r.move program) c' := by
  -- in front of it stand the declarations of nothing
  have hnothing : Parse.program (Descent.inRoom room) (Cursor.start ([] ++ [eof]).toArray) =
      .ok [] ⟨#[eof], 1, 0, []⟩ := by
    rw [Parse.program_start]
    change iterate _ _ 1 _ _ = _
    rw [iterate, programTurn_of_eof rfl heof]
    rfl
  obtain ⟨c', hread⟩ := program_append (r := r) (fun t ht => absurd ht List.not_mem_nil) heof hbody
    heof hhead hnothing h
  rw [List.nil_append, List.nil_append, List.map_append] at hread
  exact ⟨c', hread⟩

variable {room : Nat} {source : String} {program : List Stmt}

/-- **The writing of a source that stands farther on.** -/
theorem exists_fits_later (r : Relocation) (h : parse room source = .ok program) :
    ∃ body eof, tokenize source = .ok (body ++ [eof]).toArray ∧
      List.Forall₂ Mark.Fits (Stmt.listMarks (Stmt.relocateAll r.move program)) (body.map r.move) ∧
      Stmt.AllNormal false (Stmt.relocateAll r.move program) := by
  obtain ⟨tokens, c, htokens, hread⟩ := parse_eq_ok_iff.1 h
  obtain ⟨body, eof, hlist, heof, hbody⟩ := tokenize_shape htokens
  obtain rfl : tokens = (body ++ [eof]).toArray := by rw [← hlist]
  -- no program begins with an `else`, which is all that reading it farther on depends on
  have hhead : ∀ t, (body ++ [eof]).head? = some t → t.kind ≠ .elseWord := by
    intro t ht
    refine head_ne_else h htokens ?_
    rw [List.getElem?_toArray, ← List.head?_eq_getElem?, ht]
  obtain ⟨c', hlater⟩ := program_later (r := r) (fun t ht => (hbody t ht).1) heof hhead hread
  -- moved tokens keep their kinds and values
  have hmoved : ∀ t ∈ body.map r.move, t.kind ≠ .eof ∧ t.Valued := by
    intro t ht
    obtain ⟨u, hu, rfl⟩ := List.mem_map.1 ht
    rw [Token.Valued, r.kind_eq, r.value_eq]
    exact hbody u hu
  have heof' : (r.move eof).kind = .eof := (r.kind_eq eof).trans heof
  obtain ⟨s₁, t, hpassed, ht, hkind, hnormal⟩ :=
    passed_program (lexed_of_shape rfl heof' fun t ht => (hmoved t ht).2) hlater
  exact ⟨body, eof, htokens, fits_of_passed (fun t ht => (hmoved t ht).1) hpassed ht hkind, hnormal⟩

/-- **A source in braces** is read as one block with its statements, in any room that is not too small
for it. -/
theorem parse_braced (h : parse room source = .ok program) (room' : Nat) :
    let block := Stmt.block (Stmt.relocateAll Relocation.behindBrace.move program)
    parse room' (braced source) = .ok [block] ∨
      room' < 8 * sizeOf [block] ∧
        ∃ e : SyntaxError, e.IsNesting ∧ parse room' (braced source) = .error (.syntactic e) := by
  intro block
  obtain ⟨body, eof, htokens, hfits, hnormal⟩ := exists_fits_later .behindBrace h
  obtain ⟨opening, closing, eof', hopening, hclosing, heof', hbraced⟩ := tokenize_braced htokens
  have hblock : List.Forall₂ Mark.Fits (Stmt.listMarks [block])
      (opening :: body.map Relocation.behindBrace.move ++ [closing]) := by
    rw [Stmt.listMarks, Stmt.listMarks, List.append_nil, Stmt.marks]
    exact .cons hopening (List.rel_append hfits (.cons hclosing .nil))
  have hblocks : Stmt.AllNormal false [block] := ⟨hnormal, trivial⟩
  obtain hread | ⟨hlt, e, he, hread⟩ := reading_of_normal hblocks hblock heof' room'
  · exact .inl (parse_eq_ok_of_reading hbraced hread)
  · exact .inr ⟨hlt, e, he, parse_eq_error_of_reading hbraced hread⟩

end Lox
