/-!
# Decimal digits

The decimal digits of all scripts. Every script that has them lists its ten digits in a row, from
zero on. The classification is the general category Nd of the Unicode character database, version
14.

* `decimalZeros` — the zeros, in increasing order;
* `isDecimal` — the test, which accepts the digits of ASCII (`isDecimal_of_isDigit`).
-/

namespace Lox.Text

/-- **The zeros** of all scripts. The five mathematical alphabets each have one of their own. -/
def decimalZeros : List Nat := [
    0x30, 0x660, 0x6f0, 0x7c0, 0x966, 0x9e6, 0xa66, 0xae6, 0xb66, 0xbe6, 0xc66, 0xce6, 0xd66, 0xde6,
    0xe50, 0xed0, 0xf20, 0x1040, 0x1090, 0x17e0, 0x1810, 0x1946, 0x19d0, 0x1a80, 0x1a90, 0x1b50,
    0x1bb0, 0x1c40, 0x1c50, 0xa620, 0xa8d0, 0xa900, 0xa9d0, 0xa9f0, 0xaa50, 0xabf0, 0xff10, 0x104a0,
    0x10d30, 0x11066, 0x110f0, 0x11136, 0x111d0, 0x112f0, 0x11450, 0x114d0, 0x11650, 0x116c0,
    0x11730, 0x118e0, 0x11950, 0x11c50, 0x11d50, 0x11da0, 0x16a60, 0x16ac0, 0x16b50, 0x1d7ce,
    0x1d7d8, 0x1d7e2, 0x1d7ec, 0x1d7f6, 0x1e140, 0x1e2f0, 0x1e950, 0x1fbf0]

/-- **Decimal digits.** A digit is one of the ten characters from a zero on. -/
def isDecimal (c : Char) : Bool :=
  decimalZeros.any fun first => first ≤ c.toNat && c.toNat < first + 10

/-- The digits of ASCII are decimal digits. -/
theorem isDecimal_of_isDigit {c : Char} (h : c.isDigit) : isDecimal c := by
  have h : 48 ≤ c.toNat ∧ c.toNat ≤ 57 := by
    simpa [Char.isDigit, UInt32.le_iff_toNat_le] using h
  exact List.any_eq_true.2 ⟨0x30, .head _, by simp; omega⟩

end Lox.Text
