import LogBench.Power
import LogBench.ShiftRegister.Taps
import LogBench.Text.Numeral

/-!
Shift registers with linear feedback. A shift moves the value up by one bit, and folds the
polynomial in when a bit leaves the register at the top.
-/
namespace LogBench

inductive RegisterError where
  | badWidth (width : Nat)
  | badTaps (taps : UInt64) (width : Nat)
  /-- No tap set of the longest period is known for the width. -/
  | unknownWidth (width : Nat)
  deriving DecidableEq, Repr

def RegisterError.message : RegisterError → String
  | badWidth width => s!"lfsr width {width} outside 2..=63"
  | badTaps taps width =>
    "tap polynomial 0x" ++ Numeral.hex taps.toNat ++ s!" does not fit {width} bits"
  | unknownWidth width => s!"no maximal-length taps known for {width} bits"

/-- The polynomial has its top bit at the width, and the value lies below that bit. -/
structure ShiftRegister where
  width : Nat
  poly : UInt64
  value : UInt64
  deriving DecidableEq, Repr

namespace ShiftRegister

def minWidth : Nat := 2

def maxWidth : Nat := 63

def mask (width : Nat) : UInt64 :=
  1 <<< UInt64.ofNat width - 1

/-- A register from its taps below the width, and a value that is cut down to the width. -/
def ofTaps? (width : Nat) (taps value : UInt64) : Except RegisterError ShiftRegister :=
  if width < minWidth ∨ maxWidth < width then .error (.badWidth width)
  else if taps &&& ~~~(mask width) ≠ 0 then .error (.badTaps taps width)
  else .ok ⟨width, taps ||| 1 <<< UInt64.ofNat width, value &&& mask width⟩

def maximal? (width : Nat) : Except RegisterError ShiftRegister :=
  match (TapSet.ofWidth? width).bind TapSet.poly? with
  | some taps => ofTaps? width taps 1
  | none => .error (.unknownWidth width)

def masked (r : ShiftRegister) (m : UInt64) : UInt64 := r.value &&& m

def set (r : ShiftRegister) (value : UInt64) : ShiftRegister :=
  { r with value := value &&& mask r.width }

def next (width : Nat) (poly value : UInt64) : UInt64 :=
  let moved := value <<< 1
  if moved >>> UInt64.ofNat width ≠ 0 then moved ^^^ poly else moved

def shift (r : ShiftRegister) : ShiftRegister :=
  { r with value := next r.width r.poly r.value }

def shiftMany (r : ShiftRegister) : Nat → ShiftRegister
  | 0 => r
  | n + 1 => r.shift.shiftMany n

/-- The first of the next `fuel` shifts that arrives at one, where `count` shifts have led to
`value`. -/
def findReturn (width : Nat) (poly : UInt64) : (fuel count : Nat) → (value : UInt64) → Option Nat
  | 0, _, _ => none
  | fuel + 1, count, value =>
    let value := next width poly value
    if value = 1 then some (count + 1) else findReturn width poly fuel (count + 1) value

/-- How many shifts lead from one back to one, within as many shifts as there are values. -/
def period? (r : ShiftRegister) : Option Nat :=
  findReturn r.width r.poly (2 ^ r.width) 0 1

/-- Whether a round of shifts passes through every value but zero. -/
def isMaximal (r : ShiftRegister) : Bool :=
  r.period? = some (2 ^ r.width - 1)

def bit (r : ShiftRegister) (i : Nat) : Bool :=
  r.value.toNat.testBit i

def reversed (r : ShiftRegister) : UInt64 :=
  UInt64.ofNat <| (List.range r.width).foldl (fun n i => 2 * n + (r.bit i).toNat) 0

/-- The bits of the value, the highest first. -/
def text (r : ShiftRegister) : String :=
  String.ofList ((List.range r.width).reverse.map fun i => if r.bit i then '1' else '0')

end ShiftRegister

end LogBench
