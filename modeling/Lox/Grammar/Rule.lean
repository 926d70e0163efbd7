import Lox.Grammar.Precedence
import Lox.Token.Kind

/-!
# Rules

What a token means at the front of an expression and behind a complete operand.

* `Rule.of` — the rule of every kind of token.
-/

namespace Lox

/-- What an expression that begins with a token is. -/
inductive PrefixRule
  | grouping | unary | literal | variable
  deriving DecidableEq, Repr

/-- How a token goes on behind an operand. -/
inductive InfixRule
  | binary | call
  deriving DecidableEq, Repr

/-- The name of a rule. -/
def PrefixRule.name : PrefixRule → String
  | grouping => "grouping"
  | unary => "unary"
  | literal => "literal"
  | .variable => "variable"

/-- The name of a rule. -/
def InfixRule.name : InfixRule → String
  | binary => "binary"
  | call => "call"

/-- **Rules.** `precedence` is how tightly the token binds to the operand on its left. -/
structure Rule where
  front : Option PrefixRule
  behind : Option InfixRule
  precedence : Precedence

/-- **The rule of a kind of token.** A kind without a rule ends every expression. -/
def Rule.of : TokenKind → Rule
  | .leftParen => ⟨some .grouping, some .call, .call⟩
  | .minus => ⟨some .unary, some .binary, .term⟩
  | .plus => ⟨none, some .binary, .term⟩
  | .slash | .star => ⟨none, some .binary, .factor⟩
  | .bang => ⟨some .unary, none, .none⟩
  | .bangEqual | .equalEqual => ⟨none, some .binary, .equality⟩
  | .greater | .greaterEqual | .less | .lessEqual => ⟨none, some .binary, .comparison⟩
  | .andWord => ⟨none, some .binary, .and⟩
  | .orWord => ⟨none, some .binary, .or⟩
  | .number | .string | .trueWord | .falseWord | .nilWord => ⟨some .literal, none, .none⟩
  | .identifier => ⟨some .variable, none, .none⟩
  | _ => ⟨none, none, .none⟩

end Lox
