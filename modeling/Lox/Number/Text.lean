import Lox.Number.Shortest

/-!
# Numbers as texts

Numbers are IEEE 754 doubles. They have two written forms and one reading.

* `Number.exact` — every number, so that it is read back as itself: the shortest digits, positional
  when the decimal exponent is between -4 and 15 and scientific otherwise;
* `Number.display` — for a reader: a number with an integral value is written as that integer with
  all its digits, every other number in its exact form;
* `Number.ofText?` — reads either form, and digits with an optional fraction.
-/

namespace Lox.Number

/-- **What a number is.** A finite one is `± mantissa * 2 ^ exponent`. -/
inductive Anatomy
  | notANumber
  | infinite (negative : Bool)
  | finite (negative : Bool) (mantissa : Nat) (exponent : Int)

/-- The anatomy of the double with these 64 bits: sign, eleven bits of exponent, 52 of fraction. -/
def Anatomy.ofBits (bits : Nat) : Anatomy :=
  let negative := bits / Nat.pow 2 63 % 2 == 1
  let biased : Nat := bits / Nat.pow 2 52 % Nat.pow 2 11
  let fraction := bits % Nat.pow 2 52
  if biased = Nat.pow 2 11 - 1 then if fraction = 0 then .infinite negative else .notANumber
  else if biased = 0 then .finite negative fraction (-1074)
  else .finite negative (Nat.pow 2 52 + fraction) ((biased : Int) - 1075)

/-- The anatomy of a number. -/
def anatomy (x : Float) : Anatomy := Anatomy.ofBits x.toBits.toNat

/-- **Positional form.** Digits on both sides of the point, at least one of each. -/
def positional (d : Decimal) : List Char :=
  if d.point ≤ 0 then '0' :: '.' :: List.replicate (-d.point).toNat '0' ++ d.digits
  else
    let whole := d.point.toNat
    let fraction := d.digits.drop whole
    d.digits.take whole ++ List.replicate (whole - d.digits.length) '0' ++
      '.' :: (if fraction.isEmpty then ['0'] else fraction)

/-- **Scientific form.** One digit before the point, no point without digits behind it, and an
exponent with a sign and at least two digits. -/
def scientific (d : Decimal) : List Char :=
  let exponent := d.point - 1
  let size := Nat.toDigits 10 exponent.natAbs
  let padded := List.replicate (2 - size.length) '0' ++ size
  let fraction := d.digits.drop 1
  d.digits.take 1 ++ (if fraction.isEmpty then [] else '.' :: fraction) ++
    'e' :: (if exponent < 0 then '-' else '+') :: padded

/-- **The form of a decimal.** Positional when its exponent is between -4 and 15. -/
def writeDecimal (d : Decimal) : List Char :=
  if -3 ≤ d.point ∧ d.point ≤ 16 then positional d else scientific d

/-- A minus sign in front of what is negative. -/
def signed (negative : Bool) (text : String) : String := if negative then "-" ++ text else text

/-- The exact form, from the anatomy of the number. -/
def Anatomy.exact : Anatomy → String
  | .notANumber => "nan"
  | .infinite negative => signed negative "inf"
  | .finite negative 0 _ => signed negative "0.0"
  | .finite negative mantissa exponent =>
    signed negative (String.ofList (writeDecimal (shortest mantissa exponent)))

/-- The value of the number without its sign, if it is an integer. -/
def Anatomy.integral? : Anatomy → Option Nat
  | .finite _ mantissa exponent =>
    let divisor := Nat.pow 2 (-exponent).toNat
    if mantissa % divisor = 0 then some (mantissa * Nat.pow 2 exponent.toNat / divisor) else none
  | _ => none

/-- Does the number carry a minus sign? -/
def Anatomy.isNegative : Anatomy → Bool
  | .notANumber => false
  | .infinite negative => negative
  | .finite negative _ _ => negative

/-- **The exact form** of a number. -/
def exact (x : Float) : String := (anatomy x).exact

/-- **The form for a reader.** Zero has no sign here. -/
def display (x : Float) : String :=
  let a := anatomy x
  match a.integral? with
  | some n => signed (a.isNegative && n != 0) (toString n)
  | none => a.exact

/-! ### Reading -/

/-- Digits, and what follows them. -/
def splitDigits (text : List Char) : List Char × List Char := text.span Char.isDigit

/-- The value of decimal digits. -/
def natOfDigits (digits : List Char) : Nat :=
  digits.foldl (fun n d => 10 * n + (d.toNat - '0'.toNat)) 0

/-- Reads an integer with or without a sign. -/
def integer? : List Char → Option Int
  | '-' :: digits => (natural? digits).map fun n => -(n : Int)
  | '+' :: digits => (natural? digits).map fun n => (n : Int)
  | digits => (natural? digits).map fun n => (n : Int)
where
  /-- Reads digits, at least one. -/
  natural? (digits : List Char) : Option Nat :=
    if digits.isEmpty || !digits.all Char.isDigit then none else some (natOfDigits digits)

/-- The exponent that `e+07` writes; nothing writes the exponent zero. -/
def exponent? : List Char → Option Int
  | [] => some 0
  | mark :: rest => if mark == 'e' || mark == 'E' then integer? rest else none

/-- The double nearest to `mantissa * 10 ^ exponent`. -/
def ofScaled (mantissa : Nat) (exponent : Int) : Float :=
  Float.ofScientific mantissa (exponent < 0) exponent.natAbs

/-- Reads digits, an optional fraction and an optional exponent. -/
def ofUnsigned? (text : List Char) : Option Float :=
  let (whole, rest) := splitDigits text
  let (fraction, rest) := match rest with
    | '.' :: rest => splitDigits rest
    | rest => ([], rest)
  if whole.isEmpty && fraction.isEmpty then none
  else (exponent? rest).map fun e =>
    ofScaled (natOfDigits (whole ++ fraction)) (e - fraction.length)

/-- The positive infinity. -/
def infinity : Float := 1.0 / 0.0

/-- What is no number. -/
def notANumber : Float := 0.0 / 0.0

/-- Reads a number without a sign, which need not be finite. -/
def ofMagnitude? (text : List Char) : Option Float :=
  if text == "nan".toList then some notANumber
  else if text == "inf".toList then some infinity
  else ofUnsigned? text

/-- **Reading a number.** Both written forms are read, also with a plus sign; the result is the
double nearest to the text. -/
def ofText? (text : String) : Option Float :=
  match text.toList with
  | '-' :: rest => (ofMagnitude? rest).map (- ·)
  | '+' :: rest => ofMagnitude? rest
  | chars => ofMagnitude? chars

end Lox.Number
