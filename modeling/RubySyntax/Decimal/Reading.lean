/-
  RubySyntax.Decimal.Reading
  ──────────────────────────
  **READING DECIMAL NUMBERS AS DOUBLES.**

  A decimal number is a sign, digits with a point anywhere among them, and an exponent; the sign
  and the exponent may be missing, one digit may not.  The words for infinity and for what is no
  number are read in either case.  The double is the nearest one to the exact value.
-/
import RubySyntax.Text.Letters

namespace RubySyntax.Decimal

open RubySyntax.Text

/-- The value of a run of digits, the first being the most significant. -/
def digitsValue (digits : List Char) : Nat :=
  digits.foldl (fun n c => n * 10 + (c.toNat - '0'.toNat)) 0

/-- An infinite double. -/
def infinity : Float := Float.ofBits 0x7FF0000000000000

/-- The double that is no number. -/
def notANumber : Float := Float.ofBits 0x7FF8000000000000

/-- Beyond this power of ten a number is infinite as a double. -/
def greatestPower : Int := 310

/-- Below this power of ten a number is zero as a double. -/
def leastPower : Int := -330

/-- The double nearest to digits times a power of ten. -/
def ofDigits (digits : List Char) (power : Int) : Float :=
  let significant := digits.dropWhile (· == '0')
  let size := significant.length + power
  if significant.isEmpty || size < leastPower then Float.ofBits 0
  else if size > greatestPower then infinity
  else Float.ofScientific (digitsValue significant) (power < 0) power.natAbs

/-- The sign at the beginning, if any, and the rest: whether it is a minus. -/
def splitSign : List Char → Bool × List Char
  | '-' :: rest => (true, rest)
  | '+' :: rest => (false, rest)
  | cs => (false, cs)

/-- An exponent that is the whole text, or none for an empty one. -/
def exponent? : List Char → Option Int
  | [] => some 0
  | mark :: rest =>
    if mark == 'e' || mark == 'E' then
      let (negative, digits) := splitSign rest
      if digits.isEmpty || !digits.all isDigit then none
      else
        let value : Int := digitsValue digits
        some (if negative then -value else value)
    else none

/-- A number without a sign. -/
def unsigned? (cs : List Char) : Option Float :=
  let whole := cs.takeWhile isDigit
  let rest := cs.drop whole.length
  let (fraction, rest) := match rest with
    | '.' :: after => (after.takeWhile isDigit, after.dropWhile isDigit)
    | _ => ([], rest)
  if whole.isEmpty && fraction.isEmpty then none
  else (exponent? rest).map fun e => ofDigits (whole ++ fraction) (e - fraction.length)

/-- The double of a text, if it is a decimal number. -/
def read? (text : String) : Option Float :=
  let (negative, cs) := splitSign text.toList
  let word := String.ofList (cs.map lowerCase)
  let size :=
    if word == "inf" || word == "infinity" then some infinity
    else if word == "nan" then some notANumber
    else unsigned? cs
  size.map fun x => if negative then -x else x

end RubySyntax.Decimal
