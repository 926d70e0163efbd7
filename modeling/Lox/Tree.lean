import Lox.Token

/-!
# Syntax trees

The trees of expressions and statements. Every node keeps the tokens whose place or kind matters
later: names, operators, the parenthesis of a call, the keyword of a return.

* `Expr` — what has a value;
* `Stmt` — what has an effect, declarations included.

Either type has a case `foreign` for a node that belongs elsewhere, a statement in the place of an
expression or the reverse. No source text has such a tree; it can be described, but not run.
-/

namespace Lox

/-- **Expressions.** -/
inductive Expr
  | literal (value : Literal)
  | grouping (inner : Expr)
  | variable (name : Token)
  | assign (name : Token) (value : Expr)
  | unary (operator : Token) (right : Expr)
  | binary (left : Expr) (operator : Token) (right : Expr)
  | logical (left : Expr) (operator : Token) (right : Expr)
  | call (callee : Expr) (paren : Token) (arguments : List Expr)
  | foreign (description : String)
  deriving Inhabited

/-- **Statements.** -/
inductive Stmt
  | expression (value : Expr)
  | print (value : Expr)
  | variable (name : Token) (initial : Option Expr) (const : Bool)
  | block (body : List Stmt)
  | conditional (condition : Expr) (yes : Stmt) (no : Option Stmt)
  | whileLoop (condition : Expr) (body : Stmt)
  | forLoop (start : Option Stmt) (condition update : Option Expr) (body : Stmt)
  | function (name : Token) (parameters : List Token) (body : List Stmt)
  | returning (keyword : Token) (value : Option Expr)
  | foreign (description : String)
  deriving Inhabited

end Lox
