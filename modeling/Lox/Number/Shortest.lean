/-!
# Shortest decimals

The shortest decimal that a binary floating-point number of 53 bits is read back from. A number is
`mantissa * 2 ^ exponent`; all reals nearer to it than to its two neighbours form its *rounding
interval*, whose ends belong to it when the mantissa is even. Among the decimals inside the interval
the shortest one is chosen, and of several that are equally short the nearest.

* `RoundingInterval.of` — the interval of a number, over one common denominator;
* `RoundingInterval.onGrid` — the integer of the interval that is nearest to the number, if any;
* `shortest` — the first of the grids with 1, 2, … 17 digits that meets the interval.
-/

namespace Lox.Number

/-- **Rounding intervals.** The bounds and the number itself as numerators over `denominator`. -/
structure RoundingInterval where
  low : Nat
  value : Nat
  high : Nat
  denominator : Nat
  /-- Do the bounds themselves round to the number? -/
  closed : Bool

/-- The interval of `mantissa * 2 ^ exponent`, in quarters of the distance to the next number. Below
a power of two the neighbours stand twice as close, except at the end of the exponent range. -/
def RoundingInterval.of (mantissa : Nat) (exponent : Int) : RoundingInterval :=
  let lower := if mantissa = Nat.pow 2 52 ∧ exponent ≠ -1074 then 1 else 2
  let up := Nat.pow 2 (exponent - 2).toNat
  { low := (4 * mantissa - lower) * up
    value := 4 * mantissa * up
    high := (4 * mantissa + 2) * up
    denominator := Nat.pow 2 (2 - exponent).toNat
    closed := mantissa % 2 == 0 }

/-- The interval multiplied by `10 ^ places`. -/
def RoundingInterval.shift (r : RoundingInterval) (places : Int) : RoundingInterval :=
  let up := Nat.pow 10 places.toNat
  { low := r.low * up
    value := r.value * up
    high := r.high * up
    denominator := r.denominator * Nat.pow 10 (-places).toNat
    closed := r.closed }

/-- Does the integer `n` lie in the interval? -/
def RoundingInterval.holds (r : RoundingInterval) (n : Nat) : Bool :=
  let scaled := n * r.denominator
  if r.closed then r.low ≤ scaled && scaled ≤ r.high else r.low < scaled && scaled < r.high

/-- **The nearest integer of the interval.** Only the two neighbours of the number can be in it, and
a tie between them goes to the even one. -/
def RoundingInterval.onGrid (r : RoundingInterval) : Option Nat :=
  let below := r.value / r.denominator
  -- the number lies between `below` and the next integer, and the interval around the number
  match r.holds below, r.holds (below + 1) with
  | true, false => some below
  | false, true => some (below + 1)
  | false, false => none
  | true, true =>
    match compare (2 * r.value) ((2 * below + 1) * r.denominator) with
    | .lt => some below
    | .gt => some (below + 1)
    | .eq => some (if below % 2 = 0 then below else below + 1)

/-- How many decimal digits `n` has; zero has none. -/
def digitCount (n : Nat) : Nat := if n = 0 then 0 else (Nat.toDigits 10 n).length

/-- The `p` with `10 ^ (p - 1) ≤ value < 10 ^ p`, for a value that is not zero. -/
def RoundingInterval.magnitude (r : RoundingInterval) : Int :=
  let whole := r.value / r.denominator
  if whole = 0 then 1 - (digitCount ((r.denominator + r.value - 1) / r.value - 1) : Int)
  else digitCount whole

/-- **Decimals.** The value is `0.d₁d₂…` times `10 ^ point`. -/
structure Decimal where
  digits : List Char
  point : Int

/-- The decimal `n * 10 ^ exponent`, without zeros at its end. -/
def Decimal.ofScaled (n : Nat) (exponent : Int) : Decimal :=
  let digits := Nat.toDigits 10 n
  { digits := (digits.reverse.dropWhile (· == '0')).reverse
    point := exponent + digits.length }

/-- The decimal with `count` digits that the number is read back from, if there is one. -/
def RoundingInterval.decimal? (r : RoundingInterval) (count : Nat) : Option Decimal :=
  let places := (count : Int) - r.magnitude
  (r.shift places).onGrid.map (Decimal.ofScaled · (-places))

/-- **The shortest decimal** of `mantissa * 2 ^ exponent`. Seventeen digits always suffice. -/
def shortest (mantissa : Nat) (exponent : Int) : Decimal :=
  let interval := RoundingInterval.of mantissa exponent
  ((List.range 17).findSome? fun n => interval.decimal? (n + 1)).getD ⟨['0'], 1⟩

end Lox.Number
