import LogBench.Power

/-! The numbers that 64-bit binary floating point stands for. -/
namespace LogBench.Decimal

/-- A finite number is `mantissa * 2 ^ exponent` with its sign; zero too has a sign. -/
inductive Binary64 where
  | nan
  | infinite (negative : Bool)
  | finite (negative : Bool) (mantissa : Nat) (exponent : Int)
  deriving DecidableEq, Repr

namespace Binary64

/-- Reads sign, exponent and fraction; all but the smallest numbers have a hidden leading bit. -/
def ofBits (bits : Nat) : Binary64 :=
  let negative : Bool := bits / 2 ^ 63 % 2 = 1
  let exponent : Nat := bits / 2 ^ 52 % 2 ^ 11
  let fraction := bits % 2 ^ 52
  if exponent = 2047 then if fraction = 0 then .infinite negative else .nan
  else if exponent = 0 then .finite negative fraction (-1074)
  else .finite negative (2 ^ 52 + fraction) ((exponent : Int) - 1075)

def ofFloat (x : Float) : Binary64 := ofBits x.toBits.toNat

end Binary64

end LogBench.Decimal
