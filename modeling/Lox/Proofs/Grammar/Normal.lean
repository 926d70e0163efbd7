import Lox.Grammar.Cursor
import Lox.Grammar.Precedence

/-!
# Normal form

The trees that the grammar allows. Operands respect the levels of precedence, so that a tree needs no
parentheses beyond those that it has; an `else` belongs to the nearest conditional that is open; and
declarations, returns and constants are where they may be.

* `binaryLevel?`, `logicalLevel?` — the operators between two operands, with their levels;
* `Expr.binding` — how tightly an expression holds together;
* `Expr.Normal`, `Stmt.Normal` — normal form;
* `Expr.sizeOf_pos`, `Stmt.sizeOf_pos` — no tree is empty.
-/

namespace Lox

/-! ### Levels of operators -/

/-- **The ten binary operators** and their levels. -/
def binaryLevel? : TokenKind → Option Precedence
  | .equalEqual | .bangEqual => some .equality
  | .greater | .greaterEqual | .less | .lessEqual => some .comparison
  | .plus | .minus => some .term
  | .star | .slash => some .factor
  | _ => none

/-- **The two logical operators** and their levels. -/
def logicalLevel? : TokenKind → Option Precedence
  | .orWord => some .or
  | .andWord => some .and
  | _ => none

/-- **How tightly an expression holds together:** the level of its outermost construct. -/
def Expr.binding : Expr → Precedence
  | .assign .. => .assignment
  | .logical _ operator _ => (logicalLevel? operator.kind).getD .none
  | .binary _ operator _ => (binaryLevel? operator.kind).getD .none
  | .unary .. => .unary
  | .call .. => .call
  | .literal _ | .grouping _ | .variable _ | .foreign _ => .primary

/-- **Operands between which an operator of a level may stand.** Operators of one level group to the
left. -/
def Operands (left right : Expr) (level : Precedence) : Prop :=
  level ≤ left.binding ∧ level.level < right.binding.level

/-! ### Expressions -/

mutual

/-- **Normal expressions.** -/
def Expr.Normal : Expr → Prop
  | .literal _ => True
  | .grouping inner => inner.Normal
  | .variable name => name.kind = .identifier
  | .assign name value => name.kind = .identifier ∧ value.Normal
  | .unary operator right =>
    (operator.kind = .bang ∨ operator.kind = .minus) ∧ right.Normal ∧ .unary ≤ right.binding
  | .binary left operator right => left.Normal ∧ right.Normal ∧
      ∃ level, binaryLevel? operator.kind = some level ∧ Operands left right level
  | .logical left operator right => left.Normal ∧ right.Normal ∧
      ∃ level, logicalLevel? operator.kind = some level ∧ Operands left right level
  | .call callee paren arguments => callee.Normal ∧ .call ≤ callee.binding ∧
      paren.kind = .leftParen ∧ arguments.length ≤ maxArguments ∧ Expr.AllNormal arguments
  | .foreign _ => False

/-- All of several expressions are normal. -/
def Expr.AllNormal : List Expr → Prop
  | [] => True
  | e :: es => e.Normal ∧ Expr.AllNormal es

end

theorem Expr.allNormal_iff {es : List Expr} : Expr.AllNormal es ↔ ∀ e ∈ es, e.Normal := by
  induction es with
  | nil => simp [Expr.AllNormal]
  | cons e es ih => simp [Expr.AllNormal, ih]

/-- An expression that may be absent. -/
def Expr.OptionNormal (e : Option Expr) : Prop := ∀ e' ∈ e, e'.Normal

theorem Expr.optionNormal_none : Expr.OptionNormal none := fun _ h => nomatch h

theorem Expr.Normal.optionNormal {e : Expr} (h : e.Normal) : Expr.OptionNormal (some e) := by
  simpa [Expr.OptionNormal] using h

/-! ### Statements -/

/-- Declarations, which stand in blocks and at the top only. -/
def Stmt.isDeclaration : Stmt → Bool
  | .variable .. | .function .. => true
  | _ => false

/-- **Does a statement end in a conditional without a second branch?** An `else` behind it would
belong to that conditional. -/
def Stmt.endsOpen : Stmt → Bool
  | .conditional _ _ none => true
  | .conditional _ _ (some no) => no.endsOpen
  | .whileLoop _ body | .forLoop _ _ _ body => body.endsOpen
  | _ => false

/-- What a for loop may begin with. -/
def Stmt.beginsLoop : Stmt → Bool
  | .expression _ | .variable .. => true
  | _ => false

mutual

/-- **Normal statements,** inside a function or not. -/
def Stmt.Normal (inside : Bool) : Stmt → Prop
  | .expression value | .print value => value.Normal
  | .variable name initial const =>
    name.kind = .identifier ∧ Expr.OptionNormal initial ∧ (const = true → initial.isSome = true)
  | .block body => Stmt.AllNormal inside body
  | .conditional condition yes none =>
    condition.Normal ∧ yes.Normal inside ∧ yes.isDeclaration = false
  -- an open conditional in front of an `else` would take it for its own
  | .conditional condition yes (some no) =>
    condition.Normal ∧ yes.Normal inside ∧ yes.isDeclaration = false ∧ yes.endsOpen = false ∧
      no.Normal inside ∧ no.isDeclaration = false
  | .whileLoop condition body =>
    condition.Normal ∧ body.Normal inside ∧ body.isDeclaration = false
  | .forLoop none condition update body =>
    Expr.OptionNormal condition ∧ Expr.OptionNormal update ∧
      body.Normal inside ∧ body.isDeclaration = false
  | .forLoop (some start) condition update body =>
    start.beginsLoop = true ∧ start.Normal inside ∧
      Expr.OptionNormal condition ∧ Expr.OptionNormal update ∧
      body.Normal inside ∧ body.isDeclaration = false
  -- parameters and body are inside of the function, wherever the function is
  | .function name parameters body =>
    name.kind = .identifier ∧ (∀ p ∈ parameters, p.kind = .identifier) ∧
      parameters.length ≤ maxArguments ∧ Stmt.AllNormal true body
  | .returning keyword value =>
    inside = true ∧ keyword.kind = .returnWord ∧ Expr.OptionNormal value
  | .foreign _ => False

/-- All of several statements are normal. -/
def Stmt.AllNormal (inside : Bool) : List Stmt → Prop
  | [] => True
  | s :: ss => s.Normal inside ∧ Stmt.AllNormal inside ss

end

theorem Stmt.allNormal_iff {inside : Bool} {ss : List Stmt} :
    Stmt.AllNormal inside ss ↔ ∀ s ∈ ss, s.Normal inside := by
  induction ss with
  | nil => simp [Stmt.AllNormal]
  | cons s ss ih => simp [Stmt.AllNormal, ih]

theorem Stmt.allNormal_append {inside : Bool} {ss ss' : List Stmt} :
    Stmt.AllNormal inside (ss ++ ss') ↔ Stmt.AllNormal inside ss ∧ Stmt.AllNormal inside ss' := by
  simp [Stmt.allNormal_iff, or_imp, forall_and]

theorem Stmt.normal_forLoop {inside : Bool} {start : Option Stmt} {condition update : Option Expr}
    {body : Stmt} : (Stmt.forLoop start condition update body).Normal inside ↔
      (∀ st ∈ start, st.beginsLoop = true ∧ st.Normal inside) ∧ Expr.OptionNormal condition ∧
        Expr.OptionNormal update ∧ body.Normal inside ∧ body.isDeclaration = false := by
  cases start <;> simp [Stmt.Normal, and_assoc]

/-! ### Sizes -/

theorem Expr.sizeOf_pos (e : Expr) : 0 < sizeOf e := by
  cases e <;> simp only [Expr.literal.sizeOf_spec, Expr.grouping.sizeOf_spec,
    Expr.variable.sizeOf_spec, Expr.assign.sizeOf_spec, Expr.unary.sizeOf_spec,
    Expr.binary.sizeOf_spec, Expr.logical.sizeOf_spec, Expr.call.sizeOf_spec,
    Expr.foreign.sizeOf_spec] <;> omega

theorem Stmt.sizeOf_pos (st : Stmt) : 0 < sizeOf st := by
  cases st <;> simp only [Stmt.expression.sizeOf_spec, Stmt.print.sizeOf_spec,
    Stmt.variable.sizeOf_spec, Stmt.block.sizeOf_spec, Stmt.conditional.sizeOf_spec,
    Stmt.whileLoop.sizeOf_spec, Stmt.forLoop.sizeOf_spec, Stmt.function.sizeOf_spec,
    Stmt.returning.sizeOf_spec, Stmt.foreign.sizeOf_spec] <;> omega

end Lox
