import Lox.Text.Printable

/-!
# Quoted texts

How a text is written between quotes. The quote is the apostrophe, unless the text holds an
apostrophe and no double quote. The backslash and the quote in use are escaped, as is every
character that is not printable: by a letter for the newline, the carriage return and the tab, by
its code in two, four or eight hexadecimal digits otherwise.

* `quoteFor` — the quote that a text is written with;
* `escape` — one character between quotes;
* `quoted` — the whole text.
-/

namespace Lox.Text

/-- `width` hexadecimal digits of `code`, most significant first, in lower case. -/
def hexDigits (width code : Nat) : List Char :=
  let digits := Nat.toDigits 16 code
  List.replicate (width - digits.length) '0' ++ digits

/-- **The choice of quote.** A double quote only where it spares an escape. -/
def quoteFor (text : List Char) : Char :=
  if text.contains '\'' && !text.contains '"' then '"' else '\''

/-- **One character between quotes.** -/
def escape (quote c : Char) : List Char :=
  if c == quote || c == '\\' then ['\\', c]
  else if c == '\n' then ['\\', 'n']
  else if c == '\r' then ['\\', 'r']
  else if c == '\t' then ['\\', 't']
  else if isPrintable c then [c]
  else if c.toNat < 0x100 then '\\' :: 'x' :: hexDigits 2 c.toNat
  else if c.toNat < 0x10000 then '\\' :: 'u' :: hexDigits 4 c.toNat
  else '\\' :: 'U' :: hexDigits 8 c.toNat

/-- **A quoted text.** -/
def quoted (text : String) : String :=
  let chars := text.toList
  let quote := quoteFor chars
  String.ofList (quote :: chars.flatMap (escape quote) ++ [quote])

/-- Items between square brackets, separated by a comma and a space. -/
def bracketed (items : List String) : String := "[" ++ ", ".intercalate items ++ "]"

end Lox.Text
