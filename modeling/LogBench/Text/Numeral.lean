/-! Numerals: writing numbers in decimal and hexadecimal, and reading them within a bound. -/
namespace LogBench.Numeral

def decimal (n : Nat) : List Char :=
  Nat.toDigits 10 n

/-- Lower-case hexadecimal digits, as few as the number needs. -/
def hex (n : Nat) : String :=
  String.ofList (Nat.toDigits 16 n)

def hexPadded (width n : Nat) : String :=
  let digits := Nat.toDigits 16 n
  String.ofList (List.replicate (width - digits.length) '0' ++ digits)

def hexPaddedUpper (width n : Nat) : String :=
  (hexPadded width n).map Char.toUpper

/-- The value of a digit in a base of at most sixteen; letters of either case. -/
def digitValue? (base : Nat) (c : Char) : Option Nat :=
  let value? :=
    if '0' ≤ c ∧ c ≤ '9' then some (c.toNat - '0'.toNat)
    else if 'a' ≤ c ∧ c ≤ 'f' then some (c.toNat - 'a'.toNat + 10)
    else if 'A' ≤ c ∧ c ≤ 'F' then some (c.toNat - 'A'.toNat + 10)
    else none
  value?.filter (· < base)

/-- The number that digits spell after the number `high`. -/
def digitsValue? (base high : Nat) : List Char → Option Nat
  | [] => some high
  | c :: rest => do
    let d ← digitValue? base c
    digitsValue? base (high * base + d) rest

/-- An unsigned numeral: at most one plus sign, then digits and nothing else. -/
def read? (base : Nat) (text : List Char) : Option Nat :=
  let digits := if text.head? = some '+' then text.tail else text
  if digits.isEmpty then none else digitsValue? base 0 digits

def readBelow? (base bound : Nat) (text : List Char) : Option Nat :=
  (read? base text).filter (· < bound)

end LogBench.Numeral
