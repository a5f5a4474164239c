import LogBench.Power
import LogBench.Text.Numeral

/-!
Numerals read as floating-point numbers: a sign, digits with a point among them, and an exponent;
or the words for infinity and for what is no number.
-/
namespace LogBench.Decimal

def infinity : Float := Float.ofBits 0x7FF0000000000000

def notANumber : Float := Float.ofBits 0x7FF8000000000000

/-- The number nearest to `digits * 10 ^ exponent`. What lies far outside the range of doubles is
infinite or zero at once. -/
def toFloat (digits : Nat) (exponent : Int) : Float :=
  let magnitude := (Nat.toDigits 10 digits).length + exponent
  if digits = 0 ∨ magnitude < -330 then 0.0
  else if 310 < magnitude then infinity
  else Float.ofScientific digits (exponent < 0) exponent.natAbs

/-- A sign and what follows it; no sign is a plus. -/
def takeSign : List Char → Bool × List Char
  | '-' :: rest => (true, rest)
  | '+' :: rest => (false, rest)
  | text => (false, text)

def wholeValue (digits : List Char) : Nat :=
  (Numeral.digitsValue? 10 0 digits).getD 0

/-- An exponent up to the end of the text; no text at all is the exponent zero. -/
def readExponent? : List Char → Option Int
  | [] => some 0
  | mark :: rest =>
    let (negative, digits) := takeSign rest
    if (mark = 'e' ∨ mark = 'E') ∧ digits ≠ [] ∧ digits.all Char.isDigit then
      let value : Int := wholeValue digits
      some (if negative then -value else value)
    else none

def readUnsigned? (text : List Char) : Option Float :=
  let whole := text.takeWhile Char.isDigit
  let rest := text.dropWhile Char.isDigit
  let (places, tail) :=
    match rest with
    | '.' :: rest => (rest.takeWhile Char.isDigit, rest.dropWhile Char.isDigit)
    | _ => ([], rest)
  if whole.isEmpty && places.isEmpty then none
  else (readExponent? tail).map fun exponent =>
    toFloat (wholeValue (whole ++ places)) (exponent - places.length)

/-- Reads a numeral; the words are read in either case. -/
def read? (text : List Char) : Option Float :=
  let (negative, rest) := takeSign text
  let word := String.ofList (rest.map Char.toLower)
  let magnitude? :=
    if word = "inf" ∨ word = "infinity" then some infinity
    else if word = "nan" then some notANumber
    else readUnsigned? rest
  magnitude?.map fun x => if negative then -x else x

end LogBench.Decimal
