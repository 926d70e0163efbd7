/-!
# Kinds of tokens

The vocabulary of the language. A kind of fixed spelling is an operator or a keyword; the other four
stand for numbers, strings, identifiers and the end of the source.

* `TokenKind.name` — the name of a kind in messages and traces;
* `TokenKind.text` — the spelling of an operator or keyword, and a placeholder for the other kinds;
* `TokenKind.ofText?` — the kind with a given spelling;
* `TokenKind.keyword?` — the keyword with a given spelling.
-/

namespace Lox

/-- **Kinds of tokens.** -/
inductive TokenKind
  | leftParen | rightParen | leftBrace | rightBrace
  | comma | minus | plus | semicolon | slash | star
  | bang | bangEqual | equal | equalEqual | greater | greaterEqual | less | lessEqual
  | andWord | orWord
  | ifWord | elseWord | forWord | whileWord | returnWord
  | number | string | trueWord | falseWord | nilWord
  | varWord | constWord | funWord
  | printWord
  | identifier | eof
  deriving DecidableEq, Repr, Inhabited

namespace TokenKind

/-- Every kind, in the order of the vocabulary. -/
def all : List TokenKind :=
  [leftParen, rightParen, leftBrace, rightBrace,
    comma, minus, plus, semicolon, slash, star,
    bang, bangEqual, equal, equalEqual, greater, greaterEqual, less, lessEqual,
    andWord, orWord,
    ifWord, elseWord, forWord, whileWord, returnWord,
    number, string, trueWord, falseWord, nilWord,
    varWord, constWord, funWord,
    printWord,
    identifier, eof]

/-- **The name of a kind.** -/
def name : TokenKind → String
  | leftParen => "LEFT_PAREN"
  | rightParen => "RIGHT_PAREN"
  | leftBrace => "LEFT_BRACE"
  | rightBrace => "RIGHT_BRACE"
  | comma => "COMMA"
  | minus => "MINUS"
  | plus => "PLUS"
  | semicolon => "SEMICOLON"
  | slash => "SLASH"
  | star => "STAR"
  | bang => "BANG"
  | bangEqual => "BANG_EQUAL"
  | equal => "EQUAL"
  | equalEqual => "EQUAL_EQUAL"
  | greater => "GREATER"
  | greaterEqual => "GREATER_EQUAL"
  | less => "LESS"
  | lessEqual => "LESS_EQUAL"
  | andWord => "AND"
  | orWord => "OR"
  | ifWord => "IF"
  | elseWord => "ELSE"
  | forWord => "FOR"
  | whileWord => "WHILE"
  | returnWord => "RETURN"
  | number => "NUMBER"
  | string => "STRING"
  | trueWord => "TRUE"
  | falseWord => "FALSE"
  | nilWord => "NIL"
  | varWord => "VAR"
  | constWord => "CONST"
  | funWord => "FUN"
  | printWord => "PRINT"
  | identifier => "IDENTIFIER"
  | eof => "EOF"

/-- **The spelling of a kind.** No two kinds share one. -/
def text : TokenKind → String
  | leftParen => "("
  | rightParen => ")"
  | leftBrace => "\x7b"
  | rightBrace => "\x7d"
  | comma => ","
  | minus => "-"
  | plus => "+"
  | semicolon => ";"
  | slash => "/"
  | star => "*"
  | bang => "!"
  | bangEqual => "!="
  | equal => "="
  | equalEqual => "=="
  | greater => ">"
  | greaterEqual => ">="
  | less => "<"
  | lessEqual => "<="
  | andWord => "and"
  | orWord => "or"
  | ifWord => "if"
  | elseWord => "else"
  | forWord => "for"
  | whileWord => "while"
  | returnWord => "return"
  | number => "number"
  | string => "string"
  | trueWord => "true"
  | falseWord => "false"
  | nilWord => "nil"
  | varWord => "var"
  | constWord => "const"
  | funWord => "fun"
  | printWord => "print"
  | identifier => "identifier"
  | eof => "eof"

/-- **Keywords.** The kinds that are spelled like identifiers. -/
def isKeyword : TokenKind → Bool
  | andWord | orWord | ifWord | elseWord | forWord | whileWord | returnWord
  | trueWord | falseWord | nilWord | varWord | constWord | funWord | printWord => true
  | _ => false

/-- **Operators.** The kinds of fixed spelling that are no keywords, punctuation included. -/
def isOperator : TokenKind → Bool
  | number | string | identifier | eof => false
  | kind => !kind.isKeyword

/-- The kind with this spelling. -/
def ofText? (text : String) : Option TokenKind := all.find? (·.text == text)

/-- No two kinds share a spelling. -/
@[simp] theorem ofText?_text (kind : TokenKind) : ofText? kind.text = some kind := by
  cases kind <;> decide

/-- The kind with this name. -/
def ofName? (name : String) : Option TokenKind := all.find? (·.name == name)

/-- No two kinds share a name. -/
@[simp] theorem ofName?_name (kind : TokenKind) : ofName? kind.name = some kind := by
  cases kind <;> decide

/-- The keyword with this spelling. -/
def keyword? (text : String) : Option TokenKind :=
  all.find? fun kind => kind.isKeyword && kind.text == text

/-- How a kind is written in messages. -/
def describe (kind : TokenKind) : String := "TokenType." ++ kind.name

end TokenKind

end Lox
