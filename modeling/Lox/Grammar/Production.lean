import Lox.Grammar.Cursor
import Lox.Grammar.Rule

/-!
# Productions

The grammar, as walks over tokens. Three productions recurse: an expression of a given precedence, a
statement, and a declaration. Every other production is given these three and calls nothing but what
stands before it, so that the recursion is tied once, in `Descent.inRoom`.

Nesting is bounded. A production takes one unit of room, or two when its visit is recorded, and a
walk that has used up its room complains of too much nesting.

* `Parse.precedenceStep` — expressions: what a token begins, then operators as long as they bind
  tightly enough;
* `Parse.statementStep`, `Parse.declarationStep` — statements and declarations, by their first
  token;
* `Descent.inRoom` — the three of them tied together;
* `Parse.program` — all declarations up to the end of the tokens.
-/

namespace Lox

/-- **The recursive productions,** as walks that fail with syntax errors unless something else is said
about their errors. -/
structure Productions (ε : Type := SyntaxError) where
  precedence : Precedence → Walk ε Expr
  statement : Walk ε Stmt
  declaration : Walk ε Stmt

/-- **Descents.** The recursive productions by what it costs to reach them from here. -/
abbrev Descent (ε : Type := SyntaxError) := Nat → Productions ε

/-- The descent from a place that is `cost` units further down. -/
def Descent.below {ε : Type} (d : Descent ε) (cost : Nat) : Descent ε :=
  fun further => d (further + cost)

namespace Parse

variable {ε : Type} [Failure ε]

/-! ### Expressions -/

/-- An expression of any precedence, assignments included. -/
def expression (d : Descent ε) : Walk ε Expr :=
  traced .expression ((d 2).precedence .assignment)

/-- **Items between commas,** at least one and at most `maxArguments`. -/
def commaSeparated {α : Type} (tooMany : Complaint) (item : Walk ε α) : Walk ε (List α) := do
  let first ← item
  repeated .outOfRange (fun (items : List α) => do
    if ← accept .comma then
      -- the limit is checked behind the comma, before another item is read
      if items.length = maxArguments then reject tooMany
      return .again ((← item) :: items)
    return .done items.reverse) [first]

/-- The arguments of a call, behind the parenthesis. -/
def argumentList (d : Descent ε) : Walk ε (List Expr) :=
  traced .argumentList do
    let arguments ←
      if ← check .rightParen then pure []
      else commaSeparated .tooManyArguments (expression (d.below 2))
    let _ ← expect .rightParen (.expected ") after arguments")
    return arguments

/-- The token passed last, as an operator behind `left`. -/
def binary (d : Descent ε) (left : Expr) : Walk ε Expr :=
  traced .binary do
    let operator ← previous
    match (Rule.of operator.kind).precedence.next? with
    | none => fail .unknownPrecedence
    | some level =>
      -- one level tighter on the right, so that operators of one level group to the left
      let right ← (d 2).precedence level
      match operator.kind with
      | .andWord | .orWord => return .logical left operator right
      | _ => return .binary left operator right

/-- The token passed last, as an operator before its operand. -/
def unary (d : Descent ε) : Walk ε Expr :=
  traced .unary do
    let operator ← previous
    return .unary operator (← (d 2).precedence .unary)

/-- The token passed last, as a literal. -/
def literal : Walk ε Expr :=
  traced .literal do
    let token ← previous
    match token.kind with
    | .trueWord => return .literal (.bool true)
    | .falseWord => return .literal (.bool false)
    | .nilWord => return .literal .nil
    | .number | .string => return .literal (token.value.getD .nil)
    | kind => fail (.unknownLiteral kind)

/-- An expression in parentheses, behind the first one. -/
def grouping (d : Descent ε) : Walk ε Expr :=
  traced .grouping do
    let inner ← expression (d.below 2)
    let _ ← expect .rightParen (.expected ") after expression")
    return .grouping inner

/-- The token passed last, as a variable; where an assignment is possible, as its target. -/
def variableName (d : Descent ε) (canAssign : Bool) : Walk ε Expr :=
  traced .variable do
    let name ← previous
    if canAssign then
      if ← accept .equal then
        return .assign name (← expression (d.below 2))
    return .variable name

/-- A call of `callee`, behind the parenthesis. -/
def call (d : Descent ε) (callee : Expr) : Walk ε Expr :=
  traced .call do
    let paren ← previous
    return .call callee paren (← argumentList (d.below 2))

/-- The expression that the token passed last begins. -/
def beginning (d : Descent ε) (canAssign : Bool) : PrefixRule → Walk ε Expr
  | .grouping => grouping d
  | .unary => unary d
  | .literal => literal
  | .variable => variableName d canAssign

/-- The expression that the token passed last makes of the operand on its left. -/
def continuation (d : Descent ε) (left : Expr) : InfixRule → Walk ε Expr
  | .binary => binary d left
  | .call => call d left

/-- **One turn of an operator loop:** takes the next token if it binds at least as tightly as
`level`. -/
def operatorTurn (d : Descent ε) (level : Precedence) (left : Expr) : Walk ε (Turn Expr Expr) := do
  let next ← peek 0
  let rule := Rule.of next.kind
  if level ≤ rule.precedence then
    advance
    match rule.behind with
    | none => fail (.noInfixRule next.kind)
    | some rule => return .again (← continuation d left rule)
  else return .done left

/-- **Expressions of at least one level of precedence.** Only at the loosest levels can the
expression be the target of an assignment, and a target that is no variable is refused there. -/
def precedenceStep (d : Descent ε) (level : Precedence) : Walk ε Expr :=
  traced .precedence do
    let canAssign := level ≤ Precedence.assignment
    advance
    let first ← previous
    match (Rule.of first.kind).front with
    | none =>
      -- the complaint is about the token that begins nothing
      retreat
      reject (.expected "expression")
    | some rule =>
      let left ← beginning (d.below 2) canAssign rule
      let result ← repeated .badIndex (operatorTurn (d.below 2) level) left
      -- a variable has taken its assignment by now, so that the target here is something else
      if canAssign then
        if ← check .equal then reject .invalidAssignmentTarget
      return result

/-! ### Statements -/

/-- An expression as a statement. -/
def expressionStatement (d : Descent ε) : Walk ε Stmt :=
  traced .expressionStatement do
    let value ← expression (d.below 2)
    let _ ← expect .semicolon (.expected "; after expression")
    return .expression value

/-- The rest of a print statement. -/
def printStatement (d : Descent ε) : Walk ε Stmt :=
  traced .printStatement do
    let value ← expression (d.below 2)
    let _ ← expect .semicolon (.expected "; after value")
    return .print value

/-- The rest of a conditional. The second branch goes to the nearest one. -/
def ifStatement (d : Descent ε) : Walk ε Stmt :=
  traced .ifStatement do
    let _ ← expect .leftParen (.expected "( after if")
    let condition ← expression (d.below 2)
    let _ ← expect .rightParen (.expected ") after if condition")
    let yes ← (d 2).statement
    -- a conditional inside the first branch has taken its own second branch already
    if ← accept .elseWord then
      return .conditional condition yes (some (← (d 2).statement))
    return .conditional condition yes none

/-- The rest of a while loop. -/
def whileStatement (d : Descent ε) : Walk ε Stmt :=
  traced .whileStatement do
    let _ ← expect .leftParen (.expected "( after while")
    let condition ← expression (d.below 2)
    let _ ← expect .rightParen (.expected ") after condition")
    return .whileLoop condition (← (d 2).statement)

/-- The rest of a declaration of a variable. A constant has an initial value. -/
def variableDeclaration (d : Descent ε) (const : Bool) : Walk ε Stmt :=
  traced .variableDeclaration do
    let name ← expect .identifier (.expected "variable name")
    let initial ←
      if ← accept .equal then some <$> expression (d.below 2)
      else if const then reject (.expected "= after const name")
      else pure none
    let _ ← expect .semicolon (.expected "; after variable declaration")
    return .variable name initial const

/-- What a for loop does first, up to the first semicolon. -/
def forStart (d : Descent ε) : Walk ε (Option Stmt) := do
  if ← accept .semicolon then return none
  if ← accept .varWord then return some (← variableDeclaration d false)
  if ← accept .constWord then return some (← variableDeclaration d true)
  return some (← expressionStatement d)

/-- An expression that is absent when a token of this kind is next. -/
def expressionUnless (d : Descent ε) (kind : TokenKind) : Walk ε (Option Expr) := do
  if ← check kind then return none
  return some (← expression d)

/-- The rest of a for loop. -/
def forStatement (d : Descent ε) : Walk ε Stmt :=
  traced .forStatement do
    let _ ← expect .leftParen (.expected "( after for")
    let start ← forStart (d.below 2)
    let condition ← expressionUnless (d.below 2) .semicolon
    let _ ← expect .semicolon (.expected "; after loop condition")
    let update ← expressionUnless (d.below 2) .rightParen
    let _ ← expect .rightParen (.expected ") after for clauses")
    return .forLoop start condition update (← (d 2).statement)

/-- The rest of a return, which stands inside a function. -/
def returnStatement (d : Descent ε) : Walk ε Stmt :=
  traced .returnStatement do
    let keyword ← previous
    if (← get).functionDepth = 0 then fail (.topLevelReturn keyword)
    let value ← expressionUnless (d.below 2) .semicolon
    let _ ← expect .semicolon (.expected "; after return value")
    return .returning keyword value

/-! ### Declarations and blocks -/

/-- **The rest of a block,** declarations up to the closing brace. -/
def block (d : Descent ε) : Walk ε (List Stmt) := do
  let body ← repeated .outOfRange (fun (body : List Stmt) => do
    if ← check .rightBrace then return .done body.reverse
    if ← check .eof then return .done body.reverse
    return .again ((← (d 1).declaration) :: body)) []
  let _ ← expect .rightBrace (.expected "\x7d after block")
  return body

/-- The rest of the declaration of a function. -/
def functionDeclaration (d : Descent ε) : Walk ε Stmt :=
  traced .functionDeclaration do
    let name ← expect .identifier (.expected "function name")
    let _ ← expect .leftParen (.expected "( after function name")
    let parameters ←
      if ← check .rightParen then pure []
      else commaSeparated .tooManyParameters (expect .identifier (.expected "parameter name"))
    let _ ← expect .rightParen (.expected ") after parameters")
    let _ ← expect .leftBrace (.expected "\x7b before function body")
    return .function name parameters (← insideFunction (block (d.below 2)))

/-- **Statements,** by their first token. -/
def statementStep (d : Descent ε) : Walk ε Stmt := do
  if ← accept .printWord then printStatement (d.below 1)
  else if ← accept .ifWord then ifStatement (d.below 1)
  else if ← accept .whileWord then whileStatement (d.below 1)
  else if ← accept .forWord then forStatement (d.below 1)
  else if ← accept .returnWord then returnStatement (d.below 1)
  else if ← accept .leftBrace then return .block (← block (d.below 1))
  else expressionStatement (d.below 1)

/-- **Declarations,** by their first token; all but three kinds are statements. -/
def declarationStep (d : Descent ε) : Walk ε Stmt := do
  if ← accept .varWord then variableDeclaration (d.below 1) false
  else if ← accept .constWord then variableDeclaration (d.below 1) true
  else if ← accept .funWord then functionDeclaration (d.below 1)
  else (d 1).statement

end Parse

/-! ### Tying the recursion -/

/-- Without room every production complains. -/
def Productions.full {ε : Type} [Failure ε] : Productions ε where
  precedence _ := Parse.reject .tooMuchNesting
  statement := Parse.reject .tooMuchNesting
  declaration := Parse.reject .tooMuchNesting

/-- The productions one step further up. -/
def Productions.step {ε : Type} [Failure ε] (d : Descent ε) : Productions ε where
  precedence := Parse.precedenceStep d
  statement := Parse.statementStep d
  declaration := Parse.declarationStep d

/-- **The descent with so much room.** -/
def Descent.inRoom {ε : Type} [Failure ε] (room : Nat) : Descent ε := recurse .full .step room

/-- **Programs:** declarations up to the end of the tokens. -/
def Parse.program {ε : Type} [Failure ε] (d : Descent ε) : Walk ε (List Stmt) :=
  repeated .outOfRange (fun (program : List Stmt) => do
    if ← accept .eof then return .done program.reverse
    return .again ((← (d 0).declaration) :: program)) []

end Lox
