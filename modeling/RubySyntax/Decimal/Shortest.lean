/-
  RubySyntax.Decimal.Shortest
  ───────────────────────────
  **THE FEWEST DIGITS THAT READ BACK.**

  A finite double is `m · 2 ^ q` with whole `m` and `q`.  The real numbers that round to it form
  an interval around it, which has its ends when `m` is even.  Of the decimal grids with one,
  two, … seventeen digits the first with a point in that interval gives the digits; of two
  points in it the nearer one is taken, and of two equally near the larger.  `Style` then lays
  the digits out.
-/

namespace RubySyntax.Decimal

/-! ## §1. Fractions. -/

/-- A positive double without its sign: `mantissa · 2 ^ exponent`. -/
structure Magnitude where
  mantissa : Nat
  exponent : Int
  /-- Whether the next smaller double is only half as far as the next larger one. -/
  narrow : Bool
deriving DecidableEq, Repr

/-- Three fractions over one denominator. -/
structure Interval where
  low : Nat
  value : Nat
  high : Nat
  denominator : Nat
  /-- Whether the ends belong to it. -/
  closed : Bool
deriving DecidableEq, Repr

/-- The numbers that round to a double. -/
def Magnitude.interval (x : Magnitude) : Interval :=
  let quarters := 4 * x.mantissa
  let low := if x.narrow then quarters - 1 else quarters - 2
  let high := quarters + 2
  let closed := x.mantissa % 2 == 0
  let shift := x.exponent - 2
  if shift < 0 then ⟨low, quarters, high, Nat.pow 2 shift.natAbs, closed⟩
  else
    let scale := Nat.pow 2 shift.natAbs
    ⟨low * scale, quarters * scale, high * scale, 1, closed⟩

/-! ## §2. Digits. -/

/-- The number of decimal digits of a number. -/
def digitCount (n : Nat) : Nat := (Nat.toDigits 10 n).length

/-- The least `e` with `num / den < 10 ^ e`, for a positive fraction. -/
def decimalExponent (num den : Nat) : Int :=
  if den ≤ num then digitCount (num / den) else 1 - (digitCount ((den - 1) / num) : Int)

/-- Whether a point of the decimal grid of step `10 ^ step` lies in the interval. -/
def Interval.holds (i : Interval) (point : Nat) (step : Int) : Bool :=
  let scale := Nat.pow 10 step.natAbs
  let at_ := if step < 0 then point * i.denominator else point * scale * i.denominator
  let low := if step < 0 then i.low * scale else i.low
  let high := if step < 0 then i.high * scale else i.high
  if i.closed then low ≤ at_ && at_ ≤ high else low < at_ && at_ < high

/-- The point of the grid of step `10 ^ step` that is in the interval and nearest to the value. -/
def Interval.nearest? (i : Interval) (step : Int) : Option Nat :=
  let scale := Nat.pow 10 step.natAbs
  let num := if step < 0 then i.value * scale else i.value
  let den := if step < 0 then i.denominator else i.denominator * scale
  let below := num / den
  let nearerAbove := den ≤ 2 * (num % den)
  let (first, second) := if nearerAbove then (below + 1, below) else (below, below + 1)
  if i.holds first step then some first
  else if i.holds second step then some second
  else none

/-- Decimal digits, and the place of the point in them: the value is `0.digits · 10 ^ point`. -/
structure Digits where
  digits : List Char
  point : Int
deriving DecidableEq, Repr

/-- The digits of a number times a power of ten, without zeros at the end. -/
def Digits.ofNat (n : Nat) (step : Int) : Digits :=
  let digits := Nat.toDigits 10 n
  ⟨(digits.reverse.dropWhile (· == '0')).reverse, digits.length + step⟩

/-- The greatest number of digits that a double needs. -/
def mostDigits : Nat := 17

/-- The fewest digits that read back as a double. -/
def Magnitude.shortest (x : Magnitude) : Digits :=
  let i := x.interval
  let e := decimalExponent i.value i.denominator
  let found := (List.range mostDigits).findSome? fun k =>
    let step := e - (k + 1 : Nat)
    (i.nearest? step).map (Digits.ofNat · step)
  found.getD (Digits.ofNat (i.value / i.denominator) 0)

/-! ## §3. Layout. -/

/-- How decimal numbers are laid out. -/
structure Style where
  /-- The least place of the point for which no exponent is written. -/
  lowest : Int
  /-- The greatest place of the point for which no exponent is written. -/
  highest : Int
  /-- What stands before an exponent. -/
  mark : List Char
  /-- The text of an infinite number. -/
  infinite : List Char
  /-- The text of what is no number. -/
  noNumber : List Char

/-- Digits with a point and at least one digit on each side of it. -/
def Digits.positional (d : Digits) : List Char :=
  if d.point ≤ 0 then ['0', '.'] ++ List.replicate d.point.natAbs '0' ++ d.digits
  else
    let whole := d.point.natAbs
    let zeros := List.replicate (whole - d.digits.length) '0'
    let fraction := d.digits.drop whole
    d.digits.take whole ++ zeros ++ '.' :: (if fraction.isEmpty then ['0'] else fraction)

/-- Digits with one of them before the point, and an exponent. -/
def Digits.scientific (d : Digits) (mark : List Char) : List Char :=
  let fraction := d.digits.drop 1
  d.digits.take 1 ++ (if fraction.isEmpty then [] else '.' :: fraction) ++ mark ++
    (toString (d.point - 1)).toList

/-- Digits in a style. -/
def Digits.layout (d : Digits) (style : Style) : List Char :=
  if style.lowest ≤ d.point && d.point ≤ style.highest then d.positional
  else d.scientific style.mark

/-! ## §4. Doubles. -/

/-- The magnitude of the bits of a finite double that is not zero. -/
def magnitudeOfBits (fraction biased : Nat) : Magnitude :=
  if biased == 0 then ⟨fraction, -1074, false⟩
  else ⟨Nat.pow 2 52 + fraction, biased - 1075, fraction == 0 && biased > 1⟩

/-- The text of a double. -/
def render (style : Style) (x : Float) : String :=
  let bits := x.toBits.toNat
  let fraction := bits % Nat.pow 2 52
  let biased := bits / Nat.pow 2 52 % Nat.pow 2 11
  let sign := if bits / Nat.pow 2 63 == 1 then ['-'] else []
  String.ofList <|
    if biased == 2047 then if fraction == 0 then sign ++ style.infinite else style.noNumber
    else if biased == 0 && fraction == 0 then sign ++ ['0', '.', '0']
    else sign ++ (magnitudeOfBits fraction biased).shortest.layout style

end RubySyntax.Decimal
