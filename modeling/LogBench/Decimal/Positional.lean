import LogBench.Decimal.Binary64
import LogBench.Decimal.Shortest

/-! Binary numbers written in positional decimals: as short as can be, or to a number of places. -/
namespace LogBench.Decimal

/-- The numeral of `digits * 10 ^ exponent`, with a point only where there are digits behind it. -/
def positional (digits : Nat) (exponent : Int) : String :=
  let numeral := Nat.toDigits 10 digits
  let places := (-exponent).toNat
  if places = 0 then String.ofList (numeral ++ List.replicate exponent.toNat '0')
  else
    let padded := List.replicate (places + 1 - numeral.length) '0' ++ numeral
    let whole := padded.length - places
    String.ofList (padded.take whole ++ '.' :: padded.drop whole)

def signed (negative : Bool) (text : String) : String :=
  if negative then "-" ++ text else text

/-- The quotient rounded to a whole number, a half to the even neighbour. -/
def roundQuotient (n d : Nat) : Nat :=
  let q := n / d
  let twice := 2 * (n % d)
  if twice < d then q else if d < twice then q + 1 else q + q % 2

/-- Writes a number; `finite` gives the text of a finite one without its sign. -/
def write (finite : Nat → Int → String) : Binary64 → String
  | .nan => "NaN"
  | .infinite negative => signed negative "inf"
  | .finite negative mantissa exponent => signed negative (finite mantissa exponent)

def shortestText (x : Float) : String :=
  let finite (mantissa : Nat) (exponent : Int) : String :=
    if mantissa = 0 then "0"
    else
      let (digits, power) := shortest mantissa exponent
      positional digits power
  write finite (.ofFloat x)

def fixedText (places : Nat) (x : Float) : String :=
  let finite (mantissa : Nat) (exponent : Int) : String :=
    let n := mantissa * 2 ^ exponent.toNat * 10 ^ places
    positional (roundQuotient n (2 ^ (-exponent).toNat)) (-places)
  write finite (.ofFloat x)

end LogBench.Decimal
