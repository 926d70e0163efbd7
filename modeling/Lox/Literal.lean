import Lox.Number.Text
import Lox.Text.Quoted

/-!
# Literals

The values that a source text can write down: nothing, the truth values, numbers and strings.

* `Literal.isTruthy` — which of them a condition accepts;
* `Literal.equals` — equality, never across kinds;
* `Literal.display` — the text that `print` writes;
* `Literal.describe` — the text inside a trace.
-/

namespace Lox

/-- **Literals.** A number is a double, a string any sequence of characters. -/
inductive Literal
  | nil
  | bool (value : Bool)
  | number (value : Float)
  | string (value : String)
  deriving DecidableEq, Inhabited

namespace Literal

/-- **Truthiness.** Nothing, false and both zeros are refused; the empty string is accepted. -/
def isTruthy : Literal → Bool
  | nil => false
  | bool b => b
  | number x => x != 0
  | string _ => true

/-- **Equality.** Numbers compare as numbers, so that the zeros are equal and a value that is not a
number differs from itself. -/
def equals : Literal → Literal → Bool
  | nil, nil => true
  | bool a, bool b => a == b
  | number x, number y => x == y
  | string s, string t => s == t
  | _, _ => false

/-- **The printed text.** Strings are printed as they are. -/
def display : Literal → String
  | nil => "nil"
  | bool true => "true"
  | bool false => "false"
  | number x => Number.display x
  | string s => s

/-- **The text inside a trace.** Numbers are exact and strings quoted. -/
def describe : Literal → String
  | nil => "None"
  | bool true => "True"
  | bool false => "False"
  | number x => Number.exact x
  | string s => Text.quoted s

end Literal

end Lox
