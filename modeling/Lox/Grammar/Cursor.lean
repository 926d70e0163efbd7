import Lox.Recursion
import Lox.Tree

/-!
# Cursors

A cursor walks over the tokens of a source. It counts the functions that it is inside of and records
which productions it enters and leaves. A walk that fails leaves the cursor where it stands. What its
error says is a syntax error at first, and may be told of every production that it leaves.

* `SyntaxError` — why a walk fails, and `SyntaxError.message`, what is said about it;
* `Failure` — errors of walks, among them the syntax errors themselves;
* `Walk` — walks, and `Parse`, those that fail with nothing but a syntax error;
* `Parse.peek`, `Parse.check`, `Parse.accept`, `Parse.expect`, `Parse.reject` — the single moves;
* `Parse.traced` — a production, with its entry and its exit in the record.
-/

namespace Lox

/-- **Productions** whose entry and exit are recorded. -/
inductive Production
  | argumentList | precedence | expression
  | expressionStatement | printStatement | ifStatement | whileStatement | forStatement
  | returnStatement | variableDeclaration | functionDeclaration
  | binary | unary | literal | grouping | variable | call
  deriving DecidableEq, Repr

/-- The name of a production in a trace. -/
def Production.name : Production → String
  | argumentList => "Parser.argument_list"
  | precedence => "Parser.parse_precedence"
  | expression => "Parser.expression"
  | expressionStatement => "Parser.expression_statement"
  | printStatement => "Parser.print_statement"
  | ifStatement => "Parser.if_statement"
  | whileStatement => "Parser.while_statement"
  | forStatement => "Parser.for_statement"
  | returnStatement => "Parser.return_statement"
  | variableDeclaration => "Parser.variable_declaration"
  | functionDeclaration => "Parser.function_declaration"
  | binary => "Parser.binary"
  | unary => "Parser.unary"
  | literal => "Parser.literal"
  | grouping => "Parser.grouping"
  | .variable => "Parser.variable"
  | call => "Parser.call"

/-- **Visits** of productions. -/
inductive Visit
  | entering (production : Production)
  | exiting (production : Production)
  deriving DecidableEq, Repr

/-- The most arguments of a call, and the most parameters of a function. -/
def maxArguments : Nat := 255

/-- **Complaints** about a token. -/
inductive Complaint
  | expected (what : String)
  | invalidAssignmentTarget
  | tooManyArguments
  | tooManyParameters
  | tooMuchNesting
  | remark (text : String)

/-- The text of a complaint. -/
def Complaint.message : Complaint → String
  | expected what => "expect " ++ what
  | invalidAssignmentTarget => "invalid assignment target"
  | tooManyArguments => "cannot have more than " ++ toString maxArguments ++ " arguments"
  | tooManyParameters => "can't have more than " ++ toString maxArguments ++ " parameters"
  | tooMuchNesting => "too much nesting"
  | remark text => text

/-- **Syntax errors.** A source text only ever leads to the first two; the others need a walk that
starts in the middle of a construct or behind the last token. -/
inductive SyntaxError
  | complaint (token : Token) (about : Complaint)
  | topLevelReturn (keyword : Token)
  | badIndex
  | outOfRange
  | noInfixRule (kind : TokenKind)
  | unknownLiteral (kind : TokenKind)
  | unknownPrecedence

/-- How a message refers to a token. -/
def Token.mention (t : Token) : String :=
  if t.kind = .eof then "end" else Text.quoted t.lexeme

/-- **The text of a syntax error.** -/
def SyntaxError.message : SyntaxError → String
  | complaint token about =>
    "[line " ++ toString token.line ++ "] error at " ++ token.mention ++ ": " ++ about.message
  | topLevelReturn keyword =>
    "[line " ++ toString keyword.line ++ "] cannot return from top-level code"
  | badIndex => "bad index"
  | outOfRange => "list index out of range"
  | noInfixRule kind => "no infix rule for " ++ kind.describe
  | unknownLiteral kind => "unknown literal " ++ kind.describe
  | unknownPrecedence => "unknown precedence"

/-- **Cursors.** `index` may lie behind the last token; `visits` has the latest visit first. -/
structure Cursor where
  tokens : Array Token
  index : Nat
  functionDepth : Nat
  visits : List Visit

/-- A cursor before the first of `tokens`, outside all functions. -/
def Cursor.start (tokens : Array Token) : Cursor := ⟨tokens, 0, 0, []⟩

/-- The number of tokens from the cursor on. -/
def Cursor.remaining (c : Cursor) : Nat := c.tokens.size - c.index

/-- **Errors of walks.** `leaving` is what becomes of an error that leaves a production. -/
class Failure (ε : Type) where
  of : SyntaxError → ε
  leaving : Production → ε → ε

/-- A syntax error stays as it is. -/
@[default_instance] instance : Failure SyntaxError where
  of e := e
  leaving _ e := e

/-- **Walks** over tokens, with a result or an error, and the cursor afterwards in either case. -/
abbrev Walk (ε : Type) := EStateM ε Cursor

/-- **Walks that fail with a syntax error.** -/
abbrev Parse := Walk SyntaxError

namespace Parse

variable {ε : Type} [Failure ε] {α β γ : Type}

/-! ### Moves -/

/-- **Fails** outside of all productions. -/
def fail (e : SyntaxError) : Walk ε α := throw (Failure.of e)

/-- **The token at a distance** from the cursor. -/
def peek (distance : Int) : Walk ε Token := do
  let c ← get
  let index := (c.index : Int) + distance
  if index < 0 then fail .badIndex
  match c.tokens[index.toNat]? with
  | some token => return token
  | none => fail .badIndex

/-- The token that was passed last. -/
def previous : Walk ε Token := peek (-1)

/-- **Is a token of this kind next?** -/
def check (kind : TokenKind) : Walk ε Bool := do
  let c ← get
  match c.tokens[c.index]? with
  | some token => return token.kind == kind
  | none => fail .outOfRange

/-- Passes one token, whatever it is. -/
def advance : Walk ε Unit := modify fun c => { c with index := c.index + 1 }

/-- Goes back by one token. -/
def retreat : Walk ε Unit := modify fun c => { c with index := c.index - 1 }

/-- **Passes a token of this kind,** if one is next. -/
def accept (kind : TokenKind) : Walk ε Bool := do
  if ← check kind then
    advance
    return true
  return false

/-- The error that complains about the next token. -/
def complaint (about : Complaint) : Walk ε SyntaxError := return .complaint (← peek 0) about

/-- **Fails** with a complaint about the next token. -/
def reject (about : Complaint) : Walk ε α := do fail (← complaint about)

/-- **Passes a token of this kind** or fails with the complaint. -/
def expect (kind : TokenKind) (about : Complaint) : Walk ε Token := do
  if ← accept kind then previous
  else reject about

/-- Adds to the record of visits. -/
def record (visit : Visit) : Walk ε Unit := modify fun c => { c with visits := visit :: c.visits }

/-- Tells the errors that leave a walk of the production. -/
def naming (production : Production) (body : Walk ε α) : Walk ε α := fun c =>
  match body c with
  | .ok a c => .ok a c
  | .error e c => .error (Failure.leaving production e) c

/-- **A production** whose visit is recorded. A walk that fails inside never leaves it. -/
def traced (production : Production) (body : Walk ε α) : Walk ε α := do
  record (.entering production)
  let result ← naming production body
  record (.exiting production)
  return result

/-- **A walk inside one more function.** The count is restored however the walk ends. -/
def insideFunction (body : Walk ε α) : Walk ε α := fun c =>
  match body { c with functionDepth := c.functionDepth + 1 } with
  | .ok a c => .ok a { c with functionDepth := c.functionDepth - 1 }
  | .error e c => .error e { c with functionDepth := c.functionDepth - 1 }

/-- **Repeats a turn** until it is done. Every turn but the last passes a token, so that the number
of tokens left bounds the turns; `atEnd` is how a turn fails that starts behind the last token. -/
def repeated (atEnd : SyntaxError) (turn : β → Walk ε (Turn β γ)) (b : β) : Walk ε γ := do
  let c ← get
  iterate (Failure.of atEnd) turn c.remaining b

/-- A syntax error is told nothing. -/
@[simp] theorem naming_parse (production : Production) (body : Parse α) :
    naming production body = body := by
  funext c
  unfold naming
  cases body c <;> rfl

theorem traced_parse (production : Production) (body : Parse α) :
    traced production body = (do
      record (.entering production)
      let result ← body
      record (.exiting production)
      return result) := by
  rw [traced, naming_parse]

end Parse

end Lox
