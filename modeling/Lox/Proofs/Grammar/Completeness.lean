import Lox.Grammar.Program
import Lox.Proofs.Grammar.Completeness.Statement

/-!
# Completeness of parsing

Every list of normal statements is read back from the tokens that it is written as. So the parser
accepts every sentence of the grammar, and a sentence has one tree only.

* `reading_complete` — the statement for whole programs.
-/

namespace Lox

/-- **What is read in some room** from the tokens of a normal program. -/
theorem reading_of_normal {program : List Stmt} {tokens : List Token} {eof : Token}
    (hnormal : Stmt.AllNormal false program)
    (hfits : List.Forall₂ Mark.Fits (Stmt.listMarks program) tokens) (heof : eof.kind = .eof)
    (room : Nat) :
    (Reading.ofTokens room (tokens ++ [eof]).toArray).statements = .ok program ∨
      room < 8 * sizeOf program ∧ ∃ e : SyntaxError, e.IsNesting ∧
        (Reading.ofTokens room (tokens ++ [eof]).toArray).statements = .error e := by
  let s : Spot := ⟨(tokens ++ [eof]).toArray, 0, 0⟩
  let s' : Spot := ⟨(tokens ++ [eof]).toArray, tokens.length, 0⟩
  have hpassed : Passed s (Stmt.listMarks program) s' := by
    refine ⟨rfl, rfl, ?_, tokens, ?_, hfits⟩
    · rw [hfits.length_eq, Nat.zero_add]
    · simp [s, s', Spot.rest]
  have hnext : s'.next? = some eof := by simp [s', Spot.next?]
  have hprogram : Reaches (room < 8 * sizeOf program) (Parse.program (Descent.inRoom room)) s
      program s'.advance := reaches_program hnormal hpassed hnext heof
  -- from the first token on, whatever has been recorded before
  have hreaches := hprogram []
  change Outcome _ _ (Parse.program (Descent.inRoom room)
    (Cursor.start (tokens ++ [eof]).toArray)) at hreaches
  unfold Reading.ofTokens
  cases hresult : Parse.program (Descent.inRoom room)
      (Cursor.start (tokens ++ [eof]).toArray) with
  | ok found c =>
    rw [hresult] at hreaches
    exact .inl (congrArg Except.ok hreaches.1)
  | error e c =>
    rw [hresult] at hreaches
    exact .inr ⟨hreaches.1, e, hreaches.2, rfl⟩

/-- **Parsing is complete.** A list of normal statements is read back from its tokens as soon as
there is room enough; with less room nothing happens but a complaint about the nesting; and no other
normal statements are written as the same tokens. -/
theorem reading_complete {program : List Stmt} {tokens : List Token} {eof : Token}
    (hnormal : Stmt.AllNormal false program)
    (hfits : List.Forall₂ Mark.Fits (Stmt.listMarks program) tokens) (heof : eof.kind = .eof) :
    (∃ need, ∀ room, need ≤ room →
      (Reading.ofTokens room (tokens ++ [eof]).toArray).statements = .ok program) ∧
    (∀ room, (Reading.ofTokens room (tokens ++ [eof]).toArray).statements = .ok program ∨
      ∃ e : SyntaxError, e.IsNesting ∧
        (Reading.ofTokens room (tokens ++ [eof]).toArray).statements = .error e) ∧
    ∀ other : List Stmt, Stmt.AllNormal false other →
      List.Forall₂ Mark.Fits (Stmt.listMarks other) tokens → other = program := by
  -- a complaint about the nesting tells that there was too little room
  have hroom : ∀ {program : List Stmt}, Stmt.AllNormal false program →
      List.Forall₂ Mark.Fits (Stmt.listMarks program) tokens → ∀ room, 8 * sizeOf program ≤ room →
      (Reading.ofTokens room (tokens ++ [eof]).toArray).statements = .ok program := by
    intro program hnormal hfits room hneed
    obtain h | ⟨hlt, -⟩ := reading_of_normal hnormal hfits heof room
    · exact h
    · omega
  refine ⟨⟨_, hroom hnormal hfits⟩, fun room => ?_, fun other hother hotherFits => ?_⟩
  · exact (reading_of_normal hnormal hfits heof room).imp_right fun h => h.2
  · -- in room enough for both, both are what is read
    have hfirst := hroom hnormal hfits (8 * sizeOf program + 8 * sizeOf other) (by omega)
    have hsecond := hroom hother hotherFits (8 * sizeOf program + 8 * sizeOf other) (by omega)
    rw [hfirst] at hsecond
    exact (Except.ok.inj hsecond).symm

/-- The statement `a = b + c;`. -/
theorem reading_complete_sum :
    let a : Token := ⟨.identifier, "a", none, 0, 1⟩
    let equal : Token := ⟨.equal, "=", none, 2, 1⟩
    let b : Token := ⟨.identifier, "b", none, 4, 1⟩
    let plus : Token := ⟨.plus, "+", none, 6, 1⟩
    let c : Token := ⟨.identifier, "c", none, 8, 1⟩
    let semicolon : Token := ⟨.semicolon, ";", none, 9, 1⟩
    let eof : Token := ⟨.eof, "", none, 10, 1⟩
    let program : List Stmt :=
      [.expression (.assign a (.binary (.variable b) plus (.variable c)))]
    Stmt.AllNormal false program ∧
    List.Forall₂ Mark.Fits (Stmt.listMarks program) [a, equal, b, plus, c, semicolon] ∧
    ∃ need, ∀ room, need ≤ room →
      (Reading.ofTokens room ([a, equal, b, plus, c, semicolon] ++ [eof]).toArray).statements =
        .ok program := by
  intro a equal b plus c semicolon eof program
  have hnormal : Stmt.AllNormal false program :=
    ⟨⟨rfl, rfl, rfl, .term, rfl, by decide, by decide⟩, trivial⟩
  have hfits : List.Forall₂ Mark.Fits (Stmt.listMarks program)
      [a, equal, b, plus, c, semicolon] :=
    .cons rfl (.cons rfl (.cons rfl (.cons rfl (.cons rfl (.cons rfl .nil)))))
  have heof : eof.kind = .eof := rfl
  exact ⟨hnormal, hfits, (reading_complete hnormal hfits heof).1⟩

end Lox
