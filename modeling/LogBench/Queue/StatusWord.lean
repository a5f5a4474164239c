import LogBench.Power
import LogBench.Queue.Occupancy

/-!
The 32-bit word in which a queue reports its status: four flags in the lowest bits, then two
counts of fourteen bits, which saturate.
-/
namespace LogBench.Queue

structure StatusWord where
  empty : Bool := false
  full : Bool := false
  underflowed : Bool := false
  overflowed : Bool := false
  entries : Nat := 0
  spaces : Nat := 0
  deriving DecidableEq, Repr

namespace StatusWord

def maxCount : Nat := 0x3FFF

def toWord (s : StatusWord) : UInt32 :=
  UInt32.ofNat <|
    s.empty.toNat + 2 * s.full.toNat + 4 * s.underflowed.toNat + 8 * s.overflowed.toNat +
      2 ^ 4 * min s.entries maxCount + 2 ^ 18 * min s.spaces maxCount

def ofWord (word : UInt32) : StatusWord where
  empty := word.toNat % 2 = 1
  full := word.toNat / 2 % 2 = 1
  underflowed := word.toNat / 4 % 2 = 1
  overflowed := word.toNat / 8 % 2 = 1
  entries := word.toNat / 2 ^ 4 % 2 ^ 14
  spaces := word.toNat / 2 ^ 18

end StatusWord

namespace Occupancy

def fields (o : Occupancy) : StatusWord where
  empty := o.isEmpty
  full := o.isFull
  underflowed := o.underflowed
  overflowed := o.overflowed
  entries := o.entries
  spaces := o.spaces

def flag (set : Bool) (mask : UInt32) : UInt32 := if set then mask else 0

/-- The status word of a queue, put together bit by bit. -/
def word (o : Occupancy) : UInt32 :=
  flag o.isEmpty 1 ||| flag o.isFull 2 ||| flag o.underflowed 4 ||| flag o.overflowed 8 |||
    UInt32.ofNat (min o.entries StatusWord.maxCount) <<< 4 |||
    UInt32.ofNat (min o.spaces StatusWord.maxCount) <<< 18

end Occupancy

end LogBench.Queue
