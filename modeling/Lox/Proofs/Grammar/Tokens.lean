import Lox.Proofs.Grammar.Parts
import Lox.Proofs.Token.Places

/-!
# Tokens inside programs

The tokens that a program keeps are tokens of the source that it was read from, however deep inside
they stand. So are their lines.

* `mem_tokens_of_nodeAt`, `line_le_of_nodeAt` — the tokens of a program that was read, and their lines.
-/

namespace Lox

/-- Every mark is written as some token. -/
theorem exists_fits {marks : List Mark} {body : List Token} (h : List.Forall₂ Mark.Fits marks body)
    {mark : Mark} (hmark : mark ∈ marks) : ∃ t ∈ body, mark.Fits t := by
  induction h with
  | nil => contradiction
  | cons hfits _ ih =>
    obtain rfl | hmark := List.mem_cons.1 hmark
    · exact ⟨_, List.mem_cons_self, hfits⟩
    · obtain ⟨t, ht, hfits'⟩ := ih hmark
      exact ⟨t, List.mem_cons_of_mem _ ht, hfits'⟩

/-- **A token that a node keeps** is a token of the source. -/
theorem mem_tokens_of_nodeAt {room : Nat} {source : String} {program : List Stmt}
    (h : parse room source = .ok program) {p : Place} {node : Node}
    (hnode : nodeAt [program] p = some node) {t : Token} (ht : .token t ∈ node.marks) :
    ∃ tokens, tokenize source = .ok tokens ∧ t ∈ tokens := by
  obtain ⟨body, eof, htokens, -, hfits⟩ := fits_of_parse h
  -- a token is written as nothing but itself
  obtain ⟨u, hu, rfl⟩ := exists_fits hfits (marks_subset_of_nodeAt hnode ht)
  exact ⟨_, htokens, by simp [hu]⟩

/-- **The line of a token that a node keeps** is one of the lines of the source. -/
theorem line_le_of_nodeAt {room : Nat} {source : String} {program : List Stmt}
    (h : parse room source = .ok program) {p : Place} {node : Node}
    (hnode : nodeAt [program] p = some node) {t : Token} (ht : .token t ∈ node.marks) :
    1 ≤ t.line ∧ t.line ≤ 1 + source.toList.count '\n' := by
  obtain ⟨tokens, htokens, hmem⟩ := mem_tokens_of_nodeAt h hnode ht
  exact tokenize_line_le htokens hmem

end Lox
