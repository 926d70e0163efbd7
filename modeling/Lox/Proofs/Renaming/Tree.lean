import Lox.Tree
import Lox.RuntimeError
import Mathlib.Logic.Function.Basic

/-!
# Renamed trees

A renaming gives every name another one, and no two names the same. Only the tokens that name
something are renamed, those of variables, functions and parameters; operators, parentheses and
keywords stay as they are, and so does every place in the source.

* `Renaming` — renamings of names;
* `Expr.rename`, `Stmt.rename` — trees with their names renamed;
* `Stmt.functionNames` — the names that function declarations give;
* `Renaming.Fixes` — trees in which a renaming leaves these alone.
-/

namespace Lox

/-- **Renamings.** No two names become one, and the name of the clock stays. -/
structure Renaming where
  name : String → String
  injective : Function.Injective name
  clock : name "clock" = "clock"

/-- The causes that are about a name have the new one. -/
def Cause.rename (ρ : Renaming) : Cause → Cause
  | undefinedVariable name => undefinedVariable (ρ.name name)
  | constAssignment name => constAssignment (ρ.name name)
  | cause => cause

/-- **A renamed token.** -/
def Token.rename (ρ : Renaming) (t : Token) : Token := { t with lexeme := ρ.name t.lexeme }

/-! ### Trees -/

mutual

/-- **A renamed expression.** -/
def Expr.rename (ρ : Renaming) : Expr → Expr
  | .literal value => .literal value
  | .grouping inner => .grouping (inner.rename ρ)
  | .variable name => .variable (name.rename ρ)
  | .assign name value => .assign (name.rename ρ) (value.rename ρ)
  | .unary operator right => .unary operator (right.rename ρ)
  | .binary left operator right => .binary (left.rename ρ) operator (right.rename ρ)
  | .logical left operator right => .logical (left.rename ρ) operator (right.rename ρ)
  | .call callee paren arguments => .call (callee.rename ρ) paren (Expr.renameAll ρ arguments)
  | .foreign description => .foreign description

/-- Several expressions. -/
def Expr.renameAll (ρ : Renaming) : List Expr → List Expr
  | [] => []
  | e :: es => e.rename ρ :: Expr.renameAll ρ es

end

mutual

/-- **A renamed statement.** -/
def Stmt.rename (ρ : Renaming) : Stmt → Stmt
  | .expression value => .expression (value.rename ρ)
  | .print value => .print (value.rename ρ)
  | .variable name initial const => .variable (name.rename ρ) (initial.map (Expr.rename ρ)) const
  | .block body => .block (Stmt.renameAll ρ body)
  | .conditional condition yes none => .conditional (condition.rename ρ) (yes.rename ρ) none
  | .conditional condition yes (some no) =>
    .conditional (condition.rename ρ) (yes.rename ρ) (some (no.rename ρ))
  | .whileLoop condition body => .whileLoop (condition.rename ρ) (body.rename ρ)
  | .forLoop none condition update body =>
    .forLoop none (condition.map (Expr.rename ρ)) (update.map (Expr.rename ρ)) (body.rename ρ)
  | .forLoop (some start) condition update body =>
    .forLoop (some (start.rename ρ)) (condition.map (Expr.rename ρ)) (update.map (Expr.rename ρ))
      (body.rename ρ)
  | .function name parameters body =>
    .function (name.rename ρ) (parameters.map (Token.rename ρ)) (Stmt.renameAll ρ body)
  | .returning keyword value => .returning keyword (value.map (Expr.rename ρ))
  | .foreign description => .foreign description

/-- **A renamed program.** -/
def Stmt.renameAll (ρ : Renaming) : List Stmt → List Stmt
  | [] => []
  | s :: ss => s.rename ρ :: Stmt.renameAll ρ ss

end

theorem Stmt.rename_conditional (ρ : Renaming) (condition : Expr) (yes : Stmt) (no : Option Stmt) :
    (Stmt.conditional condition yes no).rename ρ =
      .conditional (condition.rename ρ) (yes.rename ρ) (no.map (Stmt.rename ρ)) := by
  cases no <;> rfl

theorem Stmt.rename_forLoop (ρ : Renaming) (start : Option Stmt) (condition update : Option Expr)
    (body : Stmt) :
    (Stmt.forLoop start condition update body).rename ρ =
      .forLoop (start.map (Stmt.rename ρ)) (condition.map (Expr.rename ρ))
        (update.map (Expr.rename ρ)) (body.rename ρ) := by
  cases start <;> rfl

/-! ### Names of functions -/

mutual

/-- **The names of functions,** inside other functions too. -/
def Stmt.functionNames : Stmt → List String
  | .block body => Stmt.functionNamesAll body
  | .conditional _ yes none => yes.functionNames
  | .conditional _ yes (some no) => yes.functionNames ++ no.functionNames
  | .whileLoop _ body | .forLoop none _ _ body => body.functionNames
  | .forLoop (some start) _ _ body => start.functionNames ++ body.functionNames
  | .function name _ body => name.lexeme :: Stmt.functionNamesAll body
  | .expression _ | .print _ | .variable .. | .returning .. | .foreign _ => []

/-- The names of functions in a program. -/
def Stmt.functionNamesAll : List Stmt → List String
  | [] => []
  | s :: ss => s.functionNames ++ Stmt.functionNamesAll ss

end

namespace Renaming

variable (ρ : Renaming)

/-- **Statements whose functions keep their names.** -/
def Fixes (s : Stmt) : Prop := ∀ name ∈ s.functionNames, ρ.name name = name

/-- **Programs whose functions keep their names.** -/
def FixesAll (ss : List Stmt) : Prop := ∀ name ∈ Stmt.functionNamesAll ss, ρ.name name = name

variable {ρ}

theorem fixesAll_cons {s : Stmt} {ss : List Stmt} :
    ρ.FixesAll (s :: ss) ↔ ρ.Fixes s ∧ ρ.FixesAll ss := by
  rw [FixesAll, Stmt.functionNamesAll]
  exact List.forall_mem_append

theorem fixes_block {body : List Stmt} : ρ.Fixes (.block body) ↔ ρ.FixesAll body := Iff.rfl

theorem fixes_conditional {condition : Expr} {yes : Stmt} {no : Option Stmt} :
    ρ.Fixes (.conditional condition yes no) ↔ ρ.Fixes yes ∧ ∀ s ∈ no, ρ.Fixes s := by
  cases no with
  | none => simp [Fixes, Stmt.functionNames]
  | some no =>
    rw [Fixes, Stmt.functionNames, List.forall_mem_append]
    simp [Fixes]

theorem fixes_whileLoop {condition : Expr} {body : Stmt} :
    ρ.Fixes (.whileLoop condition body) ↔ ρ.Fixes body := Iff.rfl

theorem fixes_forLoop {start : Option Stmt} {condition update : Option Expr} {body : Stmt} :
    ρ.Fixes (.forLoop start condition update body) ↔ (∀ s ∈ start, ρ.Fixes s) ∧ ρ.Fixes body := by
  cases start with
  | none => simp [Fixes, Stmt.functionNames]
  | some start =>
    rw [Fixes, Stmt.functionNames, List.forall_mem_append]
    simp [Fixes]

theorem fixes_function {name : Token} {parameters : List Token} {body : List Stmt} :
    ρ.Fixes (.function name parameters body) ↔
      ρ.name name.lexeme = name.lexeme ∧ ρ.FixesAll body := by
  rw [Fixes, Stmt.functionNames]
  exact List.forall_mem_cons

end Renaming

end Lox
