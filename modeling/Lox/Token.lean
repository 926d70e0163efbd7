import Lox.Literal
import Lox.Token.Kind

/-!
# Tokens

A token is a lexeme of the source with its kind, its value, and the place where it starts.

* `Token` — the record;
* `Token.describe` — a token inside a trace.
-/

namespace Lox

/-- **Tokens.** `start` counts the characters before the lexeme and `line` the lines up to its first
character; only numbers and strings have a `value`. A token that was not read from a source may
claim any place, so that both are integers. -/
structure Token where
  kind : TokenKind
  lexeme : String
  value : Option Literal
  start : Int
  line : Int
  deriving DecidableEq, Inhabited

namespace Token

/-- The length of the lexeme. -/
def length (t : Token) : Nat := t.lexeme.length

/-- **A token inside a trace.** -/
def describe (t : Token) : String :=
  "<Token :" ++ t.kind.describe ++ " :literal " ++ Text.quoted t.lexeme ++
    " :line " ++ toString t.line ++ ">"

end Token

end Lox
