import Lox.Tree

/-!
# Descriptions of trees

Every node is described by its name and its fields in order, `<Name :field …>`. A list stands
between square brackets, and what is absent is written `None`.

* `Expr.describe`, `Stmt.describe` — the description of a tree.
-/

namespace Lox

/-- A node with its fields. -/
def describeNode (name : String) (fields : List (String × String)) : String :=
  let texts := fields.map fun (key, text) => ":" ++ key ++ " " ++ text
  "<" ++ name ++ " " ++ " ".intercalate texts ++ ">"

mutual

/-- **The description of an expression.** -/
def Expr.describe : Expr → String
  | .literal value => describeNode "Literal" [("value", value.describe)]
  | .grouping inner => describeNode "Grouping" [("expression", inner.describe)]
  | .variable name => describeNode "Variable" [("name", name.describe)]
  | .assign name value =>
    describeNode "Assign" [("name", name.describe), ("value", value.describe)]
  | .unary operator right =>
    describeNode "Unary" [("operator", operator.describe), ("right", right.describe)]
  | .binary left operator right =>
    describeNode "Binary"
      [("left", left.describe), ("operator", operator.describe), ("right", right.describe)]
  | .logical left operator right =>
    describeNode "Logical"
      [("left", left.describe), ("operator", operator.describe), ("right", right.describe)]
  | .call callee paren arguments =>
    describeNode "Call"
      [("callee", callee.describe), ("paren", paren.describe),
        ("arguments", Text.bracketed (Expr.describeList arguments))]
  | .foreign description => description

/-- The descriptions of several expressions. -/
def Expr.describeList : List Expr → List String
  | [] => []
  | e :: es => e.describe :: Expr.describeList es

end

/-- The description of an expression that may be absent. -/
def Expr.describeOption (e : Option Expr) : String := (e.map Expr.describe).getD "None"

mutual

/-- **The description of a statement.** -/
def Stmt.describe : Stmt → String
  | .expression value => describeNode "Expression" [("expression", value.describe)]
  | .print value => describeNode "Print" [("expression", value.describe)]
  | .variable name initial const =>
    describeNode "Var"
      [("name", name.describe), ("initializer", Expr.describeOption initial),
        ("const", (Literal.bool const).describe)]
  | .block body => describeNode "Block" [("statements", Text.bracketed (Stmt.describeList body))]
  | .conditional condition yes no =>
    describeNode "If"
      [("condition", condition.describe), ("then_branch", yes.describe),
        ("else_branch", Stmt.describeOption no)]
  | .whileLoop condition body =>
    describeNode "While" [("condition", condition.describe), ("body", body.describe)]
  | .forLoop start condition update body =>
    describeNode "For"
      [("initializer", Stmt.describeOption start), ("condition", Expr.describeOption condition),
        ("update", Expr.describeOption update), ("body", body.describe)]
  | .function name parameters body =>
    describeNode "Function"
      [("name", name.describe), ("params", Text.bracketed (parameters.map Token.describe)),
        ("body", Text.bracketed (Stmt.describeList body))]
  | .returning keyword value =>
    describeNode "Return" [("keyword", keyword.describe), ("value", Expr.describeOption value)]
  | .foreign description => description

/-- The descriptions of several statements. -/
def Stmt.describeList : List Stmt → List String
  | [] => []
  | s :: ss => s.describe :: Stmt.describeList ss

/-- The description of a statement that may be absent. -/
def Stmt.describeOption : Option Stmt → String
  | none => "None"
  | some s => s.describe

end

/-- The description of a node without fields. -/
def describeBareNode (name : String) : String := describeNode name []

end Lox
