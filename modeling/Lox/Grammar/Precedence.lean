/-!
# Precedence

How tightly an operator binds, from not at all to the operands themselves.

* `Precedence.level` — the levels as numbers, in which they are compared;
* `Precedence.next?` — the level of what an operator accepts on its right.
-/

namespace Lox

/-- **Levels of precedence,** the loosest first. -/
inductive Precedence
  | none | assignment | or | and | equality | comparison | term | factor | unary | call | primary
  deriving DecidableEq, Repr, Inhabited

namespace Precedence

/-- Every level, the loosest first. -/
def all : List Precedence :=
  [none, assignment, or, and, equality, comparison, term, factor, unary, call, primary]

/-- **The level as a number.** -/
def level : Precedence → Nat
  | none => 1
  | assignment => 2
  | or => 3
  | and => 4
  | equality => 5
  | comparison => 6
  | term => 7
  | factor => 8
  | unary => 9
  | call => 10
  | primary => 11

instance : LE Precedence := ⟨fun p q => p.level ≤ q.level⟩

instance (p q : Precedence) : Decidable (p ≤ q) := inferInstanceAs (Decidable (p.level ≤ q.level))

/-- **The next tighter level,** if there is one. -/
def next? (p : Precedence) : Option Precedence := all.find? (·.level == p.level + 1)

/-- The next level is one more. -/
theorem next?_eq_some_iff {p q : Precedence} : p.next? = some q ↔ q.level = p.level + 1 := by
  cases p <;> cases q <;> decide

/-- The name of a level. -/
def name : Precedence → String
  | none => "NONE"
  | assignment => "ASSIGNMENT"
  | or => "OR"
  | and => "AND"
  | equality => "EQUALITY"
  | comparison => "COMPARISON"
  | term => "TERM"
  | factor => "FACTOR"
  | unary => "UNARY"
  | call => "CALL"
  | primary => "PRIMARY"

/-- The level with this name. -/
def ofName? (name : String) : Option Precedence := all.find? (·.name == name)

end Precedence

end Lox
