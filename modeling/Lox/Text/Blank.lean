/-!
# Blank characters

The characters that leave a line blank. They are the white space and separator characters of Unicode
together with the four information separators, which is more than `Char.isWhitespace` accepts.

* `isBlankChar` — the test on one character;
* `isBlank` — a text is blank when it holds nothing else.
-/

namespace Lox.Text

/-- **Blank characters.** Tab to carriage return, the information separators, the space, and the
separators of Unicode. -/
def isBlankChar (c : Char) : Bool :=
  let code := c.toNat
  (0x09 ≤ code && code ≤ 0x0d) || (0x1c ≤ code && code ≤ 0x20) || code == 0x85 || code == 0xa0 ||
    code == 0x1680 || (0x2000 ≤ code && code ≤ 0x200a) || code == 0x2028 || code == 0x2029 ||
    code == 0x202f || code == 0x205f || code == 0x3000

/-- **Blank texts.** The empty text is blank. -/
def isBlank (text : String) : Bool := text.toList.all isBlankChar

end Lox.Text
