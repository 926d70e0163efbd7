import Lox.Grammar.Rule
import Lox.Proofs.Grammar.Normal

/-!
# The table of rules

What the rules of the kinds of tokens say about levels, and how they agree with the levels of normal
expressions.

* `Rule.level_of_binary` — operators between operands are logical or binary, with the same level;
* `Expr.assignment_le_binding` — the loosest normal expression is an assignment.
-/

namespace Lox

/-! ### Levels -/

theorem Precedence.le_iff {p q : Precedence} : p ≤ q ↔ p.level ≤ q.level := Iff.rfl

/-- Nothing holds together more tightly than a name. -/
theorem Precedence.le_primary (p : Precedence) : p ≤ .primary := by
  cases p <;> decide

/-! ### Kinds of a rule -/

/-- Nothing binds more tightly than a call. -/
theorem Rule.precedence_le_call (kind : TokenKind) : (Rule.of kind).precedence ≤ .call := by
  cases kind <;> decide

/-- **Operators between operands** have a level with one above it, and are logical or binary. -/
theorem Rule.level_of_binary {kind : TokenKind} (h : (Rule.of kind).behind = some .binary) :
    (Rule.of kind).precedence ≤ .factor ∧
      ((kind = .andWord ∨ kind = .orWord) ∧
          logicalLevel? kind = some (Rule.of kind).precedence ∨
        (kind ≠ .andWord ∧ kind ≠ .orWord) ∧
          binaryLevel? kind = some (Rule.of kind).precedence) := by
  cases kind <;> revert h <;> decide

/-- Above the level of an operator between operands there is another one. -/
theorem Rule.isSome_next? {kind : TokenKind} (h : (Rule.of kind).behind = some .binary) :
    (Rule.of kind).precedence.next?.isSome = true := by
  cases kind <;> revert h <;> decide

theorem Rule.kind_of_call {kind : TokenKind} (h : (Rule.of kind).behind = some .call) :
    kind = .leftParen := by
  cases kind <;> revert h <;> decide

theorem Rule.precedence_of_call {kind : TokenKind} (h : (Rule.of kind).behind = some .call) :
    (Rule.of kind).precedence = .call := by
  rw [Rule.kind_of_call h]
  rfl

theorem Rule.kind_of_grouping {kind : TokenKind} (h : (Rule.of kind).front = some .grouping) :
    kind = .leftParen := by
  cases kind <;> revert h <;> decide

theorem Rule.kind_of_unary {kind : TokenKind} (h : (Rule.of kind).front = some .unary) :
    kind = .bang ∨ kind = .minus := by
  cases kind <;> revert h <;> decide

theorem Rule.kind_of_variable {kind : TokenKind} (h : (Rule.of kind).front = some .variable) :
    kind = .identifier := by
  cases kind <;> revert h <;> decide

/-! ### Rules of the operators of normal expressions -/

theorem Rule.of_binaryLevel? {kind : TokenKind} {level : Precedence}
    (h : binaryLevel? kind = some level) :
    (Rule.of kind).behind = some .binary ∧ (Rule.of kind).precedence = level := by
  cases kind <;> simp_all [binaryLevel?, Rule.of]

theorem Rule.of_logicalLevel? {kind : TokenKind} {level : Precedence}
    (h : logicalLevel? kind = some level) :
    (Rule.of kind).behind = some .binary ∧ (Rule.of kind).precedence = level := by
  cases kind <;> simp_all [logicalLevel?, Rule.of]

/-- **The loosest normal expression** is an assignment. -/
theorem Expr.assignment_le_binding {e : Expr} (h : e.Normal) : .assignment ≤ e.binding := by
  cases e with
  | foreign description => exact h.elim
  | binary left operator right =>
    obtain ⟨-, -, level, hlevel, -⟩ := h
    rw [Expr.binding, hlevel, Option.getD_some]
    -- no level of the table is looser than an assignment
    revert hlevel
    cases operator.kind <;> cases level <;> decide
  | logical left operator right =>
    obtain ⟨-, -, level, hlevel, -⟩ := h
    rw [Expr.binding, hlevel, Option.getD_some]
    revert hlevel
    cases operator.kind <;> cases level <;> decide
  | _ => rw [Expr.binding]; decide

end Lox
