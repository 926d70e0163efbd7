import Lox.Grammar.Program
import Lox.Proofs.Grammar.Soundness.Statement

/-!
# Soundness of parsing

A parse that succeeds undoes the writing of its result: the tokens of the source are exactly those
that the statements are written as, and the statements are in normal form.

* `passed_program`, `fits_of_parse` — what has been passed, and read, when it succeeds;
* `parse_sound` — the statement for whole sources.
-/

namespace Lox

/-- **The end is in one place only,** so that two ways to cut a text in front of it are one. -/
theorem eq_of_append_eof {ts body rest : List Token} {t eof : Token}
    (h : ts ++ t :: rest = body ++ [eof]) (ht : t.kind = .eof) (hbody : ∀ u ∈ body, u.kind ≠ .eof) :
    ts = body := by
  have hlength : ts.length = body.length := by
    by_contra hne
    have hsum := congrArg List.length h
    simp only [List.length_append, List.length_cons, List.length_nil] at hsum
    have hlt : ts.length < body.length := by omega
    -- the end would be one of the tokens in front of it
    have hget : (body ++ [eof])[ts.length]? = some t := by rw [← h]; simp
    rw [List.getElem?_append_left hlt] at hget
    exact hbody t (List.mem_of_getElem? hget) ht
  exact (List.append_inj h hlength).1

/-- **What a walk over all declarations has passed** when it succeeds: the writing of the statements,
up to the end. -/
theorem passed_program {room : Nat} {tokens : Array Token} {program : List Stmt} {c : Cursor}
    (htokens : (⟨tokens, 0, 0⟩ : Spot).Lexed)
    (h : Parse.program (Descent.inRoom room) (Cursor.start tokens) = .ok program c) :
    ∃ s₁ t, Passed ⟨tokens, 0, 0⟩ (Stmt.listMarks program) s₁ ∧ s₁.next? = some t ∧ t.kind = .eof ∧
      Stmt.AllNormal false program := by
  have hfinds := finds_program (descent_sound room) htokens []
  change Outcome _ _ (Parse.program (Descent.inRoom room) (Cursor.start tokens)) at hfinds
  rw [h] at hfinds
  exact hfinds

/-- The tokens of a source have their values. -/
theorem lexed_of_shape {tokens : Array Token} {body : List Token} {eof : Token}
    (hlist : tokens.toList = body ++ [eof]) (heof : eof.kind = .eof) (hbody : ∀ t ∈ body, t.Valued) :
    (⟨tokens, 0, 0⟩ : Spot).Lexed := by
  intro t ht
  rw [← Array.mem_toList_iff, hlist, List.mem_append, List.mem_singleton] at ht
  obtain ht | rfl := ht
  · exact hbody t ht
  · simp [Token.Valued, heof]

/-- **What a parse has passed** when it succeeds: that of the tokens of the source. -/
theorem passed_parse {room : Nat} {source : String} {program : List Stmt}
    (h : parse room source = .ok program) :
    ∃ tokens s₁ t, tokenize source = .ok tokens ∧
      Passed ⟨tokens, 0, 0⟩ (Stmt.listMarks program) s₁ ∧ s₁.next? = some t ∧ t.kind = .eof ∧
        Stmt.AllNormal false program := by
  unfold parse at h
  split at h
  · contradiction
  next tokens htokens =>
    obtain ⟨body, eof, hlist, heof, hbody⟩ := tokenize_shape htokens
    unfold Reading.ofTokens at h
    cases hresult : Parse.program (Descent.inRoom room) (Cursor.start tokens) with
    | error e c => rw [hresult] at h; contradiction
    | ok found c =>
      rw [hresult] at h
      obtain rfl : found = program := Except.ok.inj h
      obtain ⟨s₁, t, hpassed⟩ :=
        passed_program (lexed_of_shape hlist heof fun t ht => (hbody t ht).2) hresult
      exact ⟨tokens, s₁, t, htokens, hpassed⟩

/-- What a parse returns is in normal form. -/
theorem normal_of_parse {room : Nat} {source : String} {program : List Stmt}
    (h : parse room source = .ok program) : Stmt.AllNormal false program := by
  obtain ⟨-, -, -, -, -, -, -, hnormal⟩ := passed_parse h
  exact hnormal

/-- Whatever is passed up to the end of the tokens is written as all of them. -/
theorem fits_of_passed {ms : List Mark} {body : List Token} {eof t : Token} {s₁ : Spot}
    (hbody : ∀ u ∈ body, u.kind ≠ .eof) (h : Passed ⟨(body ++ [eof]).toArray, 0, 0⟩ ms s₁)
    (ht : s₁.next? = some t) (hkind : t.kind = .eof) : List.Forall₂ Mark.Fits ms body := by
  obtain ⟨ts, hrest, hfits⟩ := h.fits
  -- the tokens are cut in front of the end in two ways
  have hall : ts ++ t :: s₁.advance.rest = body ++ [eof] := by
    rw [← Spot.rest_of_next? ht, ← hrest]
    rfl
  obtain rfl := eq_of_append_eof hall hkind hbody
  exact hfits

/-- **What a parse has read** when it succeeds: the statements as they are written, and the end. -/
theorem fits_of_parse {room : Nat} {source : String} {program : List Stmt}
    (h : parse room source = .ok program) :
    ∃ body eof, tokenize source = .ok (body ++ [eof]).toArray ∧ eof.kind = .eof ∧
      List.Forall₂ Mark.Fits (Stmt.listMarks program) body := by
  obtain ⟨tokens, s₁, t, htokens, hpassed, ht, hkind, -⟩ := passed_parse h
  obtain ⟨body, eof, hlist, heof, hbody⟩ := tokenize_shape htokens
  obtain rfl : tokens = (body ++ [eof]).toArray := by rw [← hlist]
  exact ⟨body, eof, htokens, heof, fits_of_passed (fun u hu => (hbody u hu).1) hpassed ht hkind⟩

/-- **Parsing is sound.** Whatever a source is read as is written as exactly the tokens of that
source up to its end, and it is in normal form. -/
theorem parse_sound {room : Nat} {source : String} {program : List Stmt}
    (h : parse room source = .ok program) :
    ∃ body eof, tokenize source = .ok (body ++ [eof]).toArray ∧ eof.kind = .eof ∧
      List.Forall₂ Mark.Fits (Stmt.listMarks program) body ∧ Stmt.AllNormal false program := by
  obtain ⟨body, eof, htokens, heof, hfits⟩ := fits_of_parse h
  exact ⟨body, eof, htokens, heof, hfits, normal_of_parse h⟩

/-- A source in which operators of several levels, an assignment and a return meet. -/
theorem parse_sound_levels : ∃ program body eof,
    parse 60 "fun f(a) \x7b return -a * 2 + f(a = 1); \x7d if (f(3) < 1 or nil) print 4; else f(0);" =
      .ok program ∧
    tokenize "fun f(a) \x7b return -a * 2 + f(a = 1); \x7d if (f(3) < 1 or nil) print 4; else f(0);" =
      .ok (body ++ [eof]).toArray ∧ eof.kind = .eof ∧
    List.Forall₂ Mark.Fits (Stmt.listMarks program) body ∧ Stmt.AllNormal false program := by
  cases h : parse 60
      "fun f(a) \x7b return -a * 2 + f(a = 1); \x7d if (f(3) < 1 or nil) print 4; else f(0);" with
  | error e =>
    have haccepted : (parse 60
        "fun f(a) \x7b return -a * 2 + f(a = 1); \x7d if (f(3) < 1 or nil) print 4; else f(0);"
          ).toOption.isSome = true := by decide +kernel
    rw [h] at haccepted
    contradiction
  | ok program =>
    obtain ⟨body, eof, hsound⟩ := parse_sound h
    exact ⟨program, body, eof, rfl, hsound⟩

end Lox
