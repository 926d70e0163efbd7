import Lox.Proofs.Grammar.Normal
import Mathlib.Data.List.Forall2

/-!
# For loops as while loops

A for loop says the same as a block with a while loop in it, unless a closure is made in its body
that could tell the variables of one pass from those of another.

* `Stmt.asWhile` — the block that a for loop is written as;
* `Stmt.declaresFunction` — where closures are made;
* `Stmt.Desugared` — trees in which some for loops have been replaced;
* `Stmt.desugar` — replaces every for loop that can be.
-/

namespace Lox

mutual

/-- **Is a function declared anywhere** inside a statement? -/
def Stmt.declaresFunction : Stmt → Bool
  | .function .. => true
  | .block body => Stmt.anyDeclaresFunction body
  | .conditional _ yes none => yes.declaresFunction
  | .conditional _ yes (some no) => yes.declaresFunction || no.declaresFunction
  | .whileLoop _ body => body.declaresFunction
  | .forLoop none _ _ body => body.declaresFunction
  | .forLoop (some start) _ _ body => start.declaresFunction || body.declaresFunction
  | _ => false

/-- Is a function declared anywhere inside one of several statements? -/
def Stmt.anyDeclaresFunction : List Stmt → Bool
  | [] => false
  | s :: ss => s.declaresFunction || Stmt.anyDeclaresFunction ss

end

/-- A loop without function declarations has none in its body. -/
theorem Stmt.body_declaresFunction {start : Option Stmt} {condition update : Option Expr}
    {body : Stmt} (h : (Stmt.forLoop start condition update body).declaresFunction = false) :
    body.declaresFunction = false := by
  cases start with
  | none => exact h
  | some st => exact (Bool.or_eq_false_iff.1 h).2

/-- **A for loop, written as a block.** The body has a block of its own, in which the update follows
it. A condition that is missing holds. -/
def Stmt.asWhile (start : Option Stmt) (condition update : Option Expr) (body : Stmt) : Stmt :=
  .block (start.toList ++ [.whileLoop (condition.getD (.literal (.bool true)))
    (.block (body :: (update.map Stmt.expression).toList))])

/-- **Copies that nobody sees.** If the loop declares a variable, of which every pass has a copy,
no function is declared inside the body. -/
def Stmt.CopiesUnseen (start : Option Stmt) (body : Stmt) : Prop :=
  ∀ st ∈ start, st.isDeclaration = true → body.declaresFunction = false

instance (start : Option Stmt) (body : Stmt) : Decidable (Stmt.CopiesUnseen start body) :=
  inferInstanceAs (Decidable (∀ st ∈ start, _))

/-- **Trees in which some for loops are written as blocks,** anywhere in the tree and any number of
them, as long as nobody sees the copies that the loop makes of its variable. -/
inductive Stmt.Desugared : Stmt → Stmt → Prop
  | expression (value : Expr) : Desugared (.expression value) (.expression value)
  | print (value : Expr) : Desugared (.print value) (.print value)
  | variable (name : Token) (initial : Option Expr) (const : Bool) :
    Desugared (.variable name initial const) (.variable name initial const)
  | returning (keyword : Token) (value : Option Expr) :
    Desugared (.returning keyword value) (.returning keyword value)
  | foreign (description : String) : Desugared (.foreign description) (.foreign description)
  | block {body body' : List Stmt} (h : List.Forall₂ Desugared body body') :
    Desugared (.block body) (.block body')
  | conditional (condition : Expr) {yes yes' : Stmt} (h : Desugared yes yes') :
    Desugared (.conditional condition yes none) (.conditional condition yes' none)
  | alternative (condition : Expr) {yes yes' no no' : Stmt} (hyes : Desugared yes yes')
    (hno : Desugared no no') :
    Desugared (.conditional condition yes (some no)) (.conditional condition yes' (some no'))
  | whileLoop (condition : Expr) {body body' : Stmt} (h : Desugared body body') :
    Desugared (.whileLoop condition body) (.whileLoop condition body')
  | forLoop (start : Option Stmt) (condition update : Option Expr) {body body' : Stmt}
    (h : Desugared body body') :
    Desugared (.forLoop start condition update body) (.forLoop start condition update body')
  | function (name : Token) (parameters : List Token) {body body' : List Stmt}
    (h : List.Forall₂ Desugared body body') :
    Desugared (.function name parameters body) (.function name parameters body')
  | asWhile (start : Option Stmt) (condition update : Option Expr) {body body' : Stmt}
    (hunseen : Stmt.CopiesUnseen start body) (h : Desugared body body') :
    Desugared (.forLoop start condition update body) (.asWhile start condition update body')

/-- **Programs in which some for loops are written as blocks.** -/
def Desugars : List Stmt → List Stmt → Prop := List.Forall₂ Stmt.Desugared

mutual

/-- A tree in which nothing is replaced. -/
theorem Stmt.Desugared.refl : ∀ st : Stmt, st.Desugared st
  | .expression value => .expression value
  | .print value => .print value
  | .variable name initial const => .variable name initial const
  | .block body => .block (Desugars.refl body)
  | .conditional condition yes none => .conditional condition (Stmt.Desugared.refl yes)
  | .conditional condition yes (some no) =>
    .alternative condition (Stmt.Desugared.refl yes) (Stmt.Desugared.refl no)
  | .whileLoop condition body => .whileLoop condition (Stmt.Desugared.refl body)
  | .forLoop start condition update body => .forLoop start condition update (Stmt.Desugared.refl body)
  | .function name parameters body => .function name parameters (Desugars.refl body)
  | .returning keyword value => .returning keyword value
  | .foreign description => .foreign description

theorem Desugars.refl : ∀ program : List Stmt, Desugars program program
  | [] => .nil
  | st :: program => .cons (Stmt.Desugared.refl st) (Desugars.refl program)

end

mutual

/-- **Writes every for loop as a block** in which nobody sees the copies. -/
def Stmt.desugar : Stmt → Stmt
  | .block body => .block (desugarAll body)
  | .conditional condition yes none => .conditional condition yes.desugar none
  | .conditional condition yes (some no) => .conditional condition yes.desugar (some no.desugar)
  | .whileLoop condition body => .whileLoop condition body.desugar
  | .forLoop start condition update body =>
    if Stmt.CopiesUnseen start body then .asWhile start condition update body.desugar
    else .forLoop start condition update body.desugar
  | .function name parameters body => .function name parameters (desugarAll body)
  | st => st

/-- Does the same in every statement of a program. -/
def desugarAll : List Stmt → List Stmt
  | [] => []
  | st :: program => st.desugar :: desugarAll program

end

mutual

theorem Stmt.desugared_desugar : ∀ st : Stmt, st.Desugared st.desugar
  | .expression value => .expression value
  | .print value => .print value
  | .variable name initial const => .variable name initial const
  | .block body => .block (desugars_desugarAll body)
  | .conditional condition yes none => .conditional condition (Stmt.desugared_desugar yes)
  | .conditional condition yes (some no) =>
    .alternative condition (Stmt.desugared_desugar yes) (Stmt.desugared_desugar no)
  | .whileLoop condition body => .whileLoop condition (Stmt.desugared_desugar body)
  | .forLoop start condition update body => by
    rw [Stmt.desugar]
    split
    · next hunseen => exact .asWhile start condition update hunseen (Stmt.desugared_desugar body)
    · exact .forLoop start condition update (Stmt.desugared_desugar body)
  | .function name parameters body => .function name parameters (desugars_desugarAll body)
  | .returning keyword value => .returning keyword value
  | .foreign description => .foreign description

/-- **Every program can be desugared.** -/
theorem desugars_desugarAll : ∀ program : List Stmt, Desugars program (desugarAll program)
  | [] => .nil
  | st :: program => .cons (Stmt.desugared_desugar st) (desugars_desugarAll program)

end

end Lox
