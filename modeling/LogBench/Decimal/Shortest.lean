import LogBench.Power

/-!
The shortest decimal that rounds to a binary number. The decimals `d * 10 ^ k` are tried on one
grid after another, coarsest first; on each grid only the two neighbours of the number can do.
-/
namespace LogBench.Decimal

/-- The reals that round to `value * 2 ^ scale`, between `low` and `high` times the same power of
two. The ends belong to them only if `closed`. -/
structure Rounding where
  low : Nat
  value : Nat
  high : Nat
  scale : Int
  closed : Bool
  deriving DecidableEq, Repr

namespace Rounding

/-- The interval reaches halfway to the neighbours, and the neighbour below a power of two is only
half as far away. An even mantissa wins the ties at both ends. -/
def ofMantissa (mantissa : Nat) (exponent : Int) : Rounding :=
  let below := if mantissa = 2 ^ 52 ∧ -1074 < exponent then 1 else 2
  ⟨4 * mantissa - below, 4 * mantissa, 4 * mantissa + 2, exponent - 2, mantissa % 2 = 0⟩

/-- `d * 10 ^ k` in a unit that makes it comparable to `binary`, and both whole. -/
def decimal (r : Rounding) (k : Int) (d : Nat) : Nat :=
  d * 10 ^ k.toNat * 2 ^ (-r.scale).toNat

/-- `n * 2 ^ scale` in the same unit. -/
def binary (r : Rounding) (k : Int) (n : Nat) : Nat :=
  n * 2 ^ r.scale.toNat * 10 ^ (-k).toNat

def contains (r : Rounding) (k : Int) (d : Nat) : Bool :=
  let point := r.decimal k d
  let low := r.binary k r.low
  let high := r.binary k r.high
  if r.closed then low ≤ point && point ≤ high else low < point && point < high

/-- The closer of the number's neighbours on the grid of `10 ^ k` among those that round to it. Of
two equally close ones it is the upper. -/
def onGrid? (r : Rounding) (k : Int) : Option Nat :=
  let value := r.binary k r.value
  let d := value / r.decimal k 1
  match r.contains k d, r.contains k (d + 1) with
  | true, true => some (if value - r.decimal k d < r.decimal k (d + 1) - value then d else d + 1)
  | true, false => some d
  | false, true => some (d + 1)
  | false, false => none

/-- The first hit on `n` grids from that of `10 ^ k` downwards, with the exponent of its grid. -/
def search (r : Rounding) : Nat → Int → Option (Nat × Int)
  | 0, _ => none
  | n + 1, k =>
    match r.onGrid? k with
    | some d => some (d, k)
    | none => r.search n (k - 1)

end Rounding

/-- The fewest digits that round to `mantissa * 2 ^ exponent`, and the power of ten of the last one.
No double has a digit above the power 308 or needs one below the power -324. -/
def shortest (mantissa : Nat) (exponent : Int) : Nat × Int :=
  ((Rounding.ofMantissa mantissa exponent).search 634 309).getD (0, 0)

end LogBench.Decimal
