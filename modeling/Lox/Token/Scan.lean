import Lox.Token
import Lox.Token.PrefixTree

/-!
# Scanning

From a source text to its tokens. At every position outside white space and comments the longest
lexeme is taken: a number, a word, a string, or an operator.

* `Lexeme.read` — what begins at a character, with its length;
* `scanFrom` — the walk over the characters, which keeps the offset and the line;
* `tokenize` — the tokens of a source, closed by a token for its end, or the first error.
-/

namespace Lox

/-- **Scan errors.** `context` is the source around the offending character. -/
inductive ScanError
  | unterminatedString (line : Nat) (context : String)
  | unexpectedCharacter (line offset : Nat) (context : String)
  | unknownToken (text : String)

/-- **The text of a scan error.** -/
def ScanError.message : ScanError → String
  | unterminatedString line context =>
    "[line " ++ toString line ++ "] unterminated string: " ++ context
  | unexpectedCharacter line offset context =>
    "[line " ++ toString line ++ "] unexpected character at " ++ toString offset ++ ": " ++ context
  | unknownToken text => "token " ++ text ++ " not found in TokenType"

/-! ### Character classes

The classes are those of ASCII: a digit or letter of another script starts no lexeme. -/

/-- The first character of a word. -/
def isWordStart (c : Char) : Bool := c.isAlpha || c == '_'

/-- A later character of a word. -/
def isWordPart (c : Char) : Bool := isWordStart c || c.isDigit

/-- White space, which separates lexemes and belongs to none. -/
def isSpace (c : Char) : Bool := c == ' ' || c == '\t' || c == '\r' || c == '\n'

/-- **The operators** as a tree, for the longest match. -/
def operatorTree : PrefixTree :=
  PrefixTree.ofWords ((TokenKind.all.filter (·.isOperator)).map (·.text.toList))

/-! ### Lexemes -/

/-- **What begins at a character.** A `gap` is white space or a comment; the length of either case
counts the character itself. -/
inductive Lexeme
  | gap (length : Nat)
  | token (kind : TokenKind) (length : Nat) (value : Option Literal)
  | unterminated
  | unexpected
  | unknown (text : String)

namespace Lexeme

/-- **Numbers.** Digits, and a fraction if a digit follows the point. -/
def number (c : Char) (rest : List Char) : Lexeme :=
  let whole := c :: rest.takeWhile Char.isDigit
  let digits := match rest.dropWhile Char.isDigit with
    | '.' :: rest =>
      let fraction := rest.takeWhile Char.isDigit
      -- a point without a digit behind it is not part of the number
      if fraction.isEmpty then whole else whole ++ '.' :: fraction
    | _ => whole
  .token .number digits.length ((Number.ofUnsigned? digits).map .number)

/-- **Words.** A keyword when the whole word spells one. -/
def word (c : Char) (rest : List Char) : Lexeme :=
  let letters := c :: rest.takeWhile isWordPart
  let kind := (TokenKind.keyword? (String.ofList letters)).getD .identifier
  .token kind letters.length none

/-- **Strings.** All up to the next quote, newlines included; there are no escapes. -/
def string (rest : List Char) : Lexeme :=
  let body := rest.takeWhile (· != '"')
  if body.length < rest.length then
    .token .string (body.length + 2) (some (.string (String.ofList body)))
  else .unterminated

/-- **Operators.** The longest one that stands here. -/
def operator (text : List Char) : Lexeme :=
  match operatorTree.longest text with
  | none => .unexpected
  | some length =>
    let spelling := String.ofList (text.take length)
    match TokenKind.ofText? spelling with
    | some kind => .token kind length none
    | none => .unknown spelling

/-- **The lexeme at a character.** A comment ends before the newline. -/
def read (c : Char) (rest : List Char) : Lexeme :=
  if isSpace c then .gap 1
  else if c == '/' && rest.head? == some '/' then
    .gap (rest.takeWhile (· != '\n')).length.succ
  else if c == '"' then string rest
  else if c.isDigit then number c rest
  else if isWordStart c then word c rest
  else operator (c :: rest)

end Lexeme

/-! ### The walk -/

/-- **Positions.** The characters before this one, and the line that it is on. -/
structure Position where
  offset : Nat
  line : Nat

/-- The position behind the character `c`. -/
def Position.advance (here : Position) (c : Char) : Position :=
  { offset := here.offset + 1
    line := if c = '\n' then here.line + 1 else here.line }

/-- The start of a source. -/
def Position.start : Position := ⟨0, 1⟩

/-- The source around an offset: five characters before it and five from it on. -/
def contextAt (source : List Char) (offset : Nat) : String :=
  String.ofList ((source.drop (offset - 5)).take (offset + 5 - (offset - 5)))

/-- **The walk over a source.** `scanFrom source tokens here text skip` has collected `tokens` and
stands `here`, before `text`, whose first `skip` characters belong to the lexeme read last. -/
def scanFrom (source : List Char) (tokens : Array Token) (here : Position) :
    List Char → Nat → Except ScanError (Array Token)
  | [], _ => .ok (tokens.push ⟨.eof, "", none, here.offset, here.line⟩)
  | c :: rest, skip + 1 => scanFrom source tokens (here.advance c) rest skip
  | c :: rest, 0 =>
    match Lexeme.read c rest with
    | .gap length => scanFrom source tokens (here.advance c) rest (length - 1)
    | .token kind length value =>
      -- the rest of the lexeme is skipped character by character, which keeps count of the lines
      let lexeme := String.ofList ((c :: rest).take length)
      scanFrom source (tokens.push ⟨kind, lexeme, value, here.offset, here.line⟩)
        (here.advance c) rest (length - 1)
    | .unterminated => .error (.unterminatedString here.line (contextAt source here.offset))
    | .unexpected =>
      .error (.unexpectedCharacter here.line here.offset (contextAt source here.offset))
    | .unknown text => .error (.unknownToken text)

/-- **Tokenizing.** The tokens of a source, the last of which marks its end. -/
def tokenize (source : String) : Except ScanError (Array Token) :=
  scanFrom source.toList #[] .start source.toList 0

end Lox
