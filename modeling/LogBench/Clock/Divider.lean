import LogBench.Clock.Ratio
import LogBench.Power

/-! Clock dividers, and the 32-bit word that configures one. -/
namespace LogBench.Clock

/-- Divides by one more than the adder; or, if fractional, lets `subtractor` out of every
`adder + subtractor` clocks through. -/
structure Divider where
  adder : UInt16 := 0
  subtractor : UInt16 := 0
  fractional : Bool := false
  deriving DecidableEq, Repr

namespace Divider

def maxSubtractor : Nat := 0x7FFF

def halfWord? (n : Nat) : Option UInt16 :=
  if n < 2 ^ 16 then some (UInt16.ofNat n) else none

/-- The clocks that a ratio takes beyond one for each output; there are none for a ratio below one. -/
def surplus? (r : Ratio) : Option Nat :=
  if r.denominator ≤ r.numerator then some (r.numerator - r.denominator) else none

/-- The fractional divider for a ratio of at least one, where its settings fit the word. -/
def ofRatio? (r : Ratio) : Option Divider := do
  let adder ← halfWord? (← surplus? r)
  let subtractor ← halfWord? r.denominator
  if r.denominator = 0 ∨ maxSubtractor < subtractor.toNat then none
  else some ⟨adder, subtractor, true⟩

/-- The adder in the low half, the low fifteen bits of the subtractor above it, and the mode in the
top bit. -/
def toWord (d : Divider) : UInt32 :=
  UInt32.ofNat <|
    d.adder.toNat + 2 ^ 16 * (d.subtractor.toNat % 2 ^ 15) + 2 ^ 31 * d.fractional.toNat

def ofWord (word : UInt32) : Divider where
  adder := UInt16.ofNat (word.toNat % 2 ^ 16)
  subtractor := UInt16.ofNat (word.toNat / 2 ^ 16 % 2 ^ 15)
  fractional := word.toNat / 2 ^ 31 = 1

/-- The average number of clocks to an output, where there is any output. -/
def period? (d : Divider) : Option Float :=
  let adder := Float.ofNat d.adder.toNat
  let subtractor := Float.ofNat d.subtractor.toNat
  if d.fractional then
    if d.subtractor = 0 then none else some ((adder + subtractor) / subtractor)
  else some (adder + 1.0)

end Divider

end LogBench.Clock
