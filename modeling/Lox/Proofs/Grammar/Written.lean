import Lox.Grammar.Cursor

/-!
# The written form of trees

A tree determines the tokens that it is read from, up to what it does not keep: of a name, an
operator, the parenthesis of a call or the keyword of a return it keeps the token itself, of a
literal the value, and of everything else nothing but the fact that a token of this kind stands
there.

* `Mark` — what a tree says about one token, and `Mark.Fits`, when a token agrees with it;
* `Expr.marks`, `Stmt.marks`, `Stmt.listMarks` — the written form, in the order of the grammar.
-/

namespace Lox

/-- **Marks.** What a tree says about one token. -/
inductive Mark
  | token (t : Token)
  | word (kind : TokenKind)
  | literal (value : Literal)

namespace Mark

/-- The kind of the token that a literal is written as. -/
def kindOf : Literal → TokenKind
  | .nil => .nilWord
  | .bool true => .trueWord
  | .bool false => .falseWord
  | .number _ => .number
  | .string _ => .string

/-- **When a token agrees with a mark.** A token of a number or a string has the value itself. -/
def Fits : Mark → Token → Prop
  | token t, u => u = t
  | word kind, u => u.kind = kind
  | literal value, u => u.kind = kindOf value ∧
      (u.kind = .number ∨ u.kind = .string → u.value = some value)

end Mark

/-- Items with a comma between any two of them. -/
def between {α : Type} (marks : α → List Mark) : List α → List Mark
  | [] => []
  | a :: as => marks a ++ as.flatMap fun b => .word .comma :: marks b

mutual

/-- **The written form of an expression.** -/
def Expr.marks : Expr → List Mark
  | .literal value => [.literal value]
  | .grouping inner => .word .leftParen :: inner.marks ++ [.word .rightParen]
  | .variable name => [.token name]
  | .assign name value => .token name :: .word .equal :: value.marks
  | .unary operator right => .token operator :: right.marks
  | .binary left operator right => left.marks ++ .token operator :: right.marks
  | .logical left operator right => left.marks ++ .token operator :: right.marks
  | .call callee paren arguments =>
    callee.marks ++ .token paren :: Expr.listMarks arguments ++ [.word .rightParen]
  | .foreign _ => []

/-- The written form of arguments. -/
def Expr.listMarks : List Expr → List Mark
  | [] => []
  | e :: es => e.marks ++ Expr.moreMarks es

/-- The written form of the arguments behind the first one. -/
def Expr.moreMarks : List Expr → List Mark
  | [] => []
  | e :: es => .word .comma :: e.marks ++ Expr.moreMarks es

end

theorem Expr.moreMarks_eq (es : List Expr) :
    Expr.moreMarks es = es.flatMap fun e => .word .comma :: e.marks := by
  induction es with
  | nil => rfl
  | cons e es ih => rw [Expr.moreMarks, List.flatMap_cons, ih]

/-- Arguments are written with commas between them. -/
theorem Expr.listMarks_eq (es : List Expr) : Expr.listMarks es = between Expr.marks es := by
  cases es with
  | nil => rfl
  | cons e es => rw [Expr.listMarks, between, Expr.moreMarks_eq]

/-- An expression that may be absent. -/
def Expr.optionMarks : Option Expr → List Mark
  | none => []
  | some e => e.marks

mutual

/-- **The written form of a statement.** -/
def Stmt.marks : Stmt → List Mark
  | .expression value => value.marks ++ [.word .semicolon]
  | .print value => .word .printWord :: value.marks ++ [.word .semicolon]
  | .variable name initial const =>
    .word (if const then .constWord else .varWord) :: .token name ::
      (initial.elim [] fun e => .word .equal :: e.marks) ++ [.word .semicolon]
  | .block body => .word .leftBrace :: Stmt.listMarks body ++ [.word .rightBrace]
  | .conditional condition yes none =>
    .word .ifWord :: .word .leftParen :: condition.marks ++ .word .rightParen :: yes.marks
  | .conditional condition yes (some no) =>
    .word .ifWord :: .word .leftParen :: condition.marks ++ .word .rightParen :: yes.marks ++
      .word .elseWord :: no.marks
  | .whileLoop condition body =>
    .word .whileWord :: .word .leftParen :: condition.marks ++ .word .rightParen :: body.marks
  | .forLoop none condition update body =>
    .word .forWord :: .word .leftParen :: .word .semicolon ::
      Expr.optionMarks condition ++ .word .semicolon ::
      Expr.optionMarks update ++ .word .rightParen :: body.marks
  | .forLoop (some start) condition update body =>
    .word .forWord :: .word .leftParen :: start.marks ++
      Expr.optionMarks condition ++ .word .semicolon ::
      Expr.optionMarks update ++ .word .rightParen :: body.marks
  | .function name parameters body =>
    .word .funWord :: .token name :: .word .leftParen ::
      between (fun p => [.token p]) parameters ++ .word .rightParen ::
      .word .leftBrace :: Stmt.listMarks body ++ [.word .rightBrace]
  | .returning keyword value =>
    .token keyword :: Expr.optionMarks value ++ [.word .semicolon]
  | .foreign _ => []

/-- **The written form of a program:** that of its statements, one after the other. -/
def Stmt.listMarks : List Stmt → List Mark
  | [] => []
  | s :: ss => s.marks ++ Stmt.listMarks ss

end

theorem Stmt.listMarks_append (ss ss' : List Stmt) :
    Stmt.listMarks (ss ++ ss') = Stmt.listMarks ss ++ Stmt.listMarks ss' := by
  induction ss with
  | nil => rfl
  | cons s ss ih => rw [List.cons_append, Stmt.listMarks, ih, Stmt.listMarks, List.append_assoc]

/-- What a for loop begins with, the semicolon behind it included. -/
def startMarks (start : Option Stmt) : List Mark := start.elim [.word .semicolon] Stmt.marks

theorem Stmt.marks_forLoop (start : Option Stmt) (condition update : Option Expr) (body : Stmt) :
    (Stmt.forLoop start condition update body).marks =
      .word .forWord :: .word .leftParen :: startMarks start ++
        Expr.optionMarks condition ++ .word .semicolon ::
        Expr.optionMarks update ++ .word .rightParen :: body.marks := by
  cases start <;> simp [Stmt.marks, startMarks]

end Lox
