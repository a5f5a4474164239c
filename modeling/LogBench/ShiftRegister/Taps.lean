/-! Tap positions of shift registers, and the tap sets known to give the longest period. -/
namespace LogBench.ShiftRegister

/-- The word with one bit set for each position; positions past the word are left out. -/
def tapWord (taps : List Nat) : UInt64 :=
  (taps.filter (· < 64)).foldl (fun poly tap => poly ||| 1 <<< UInt64.ofNat tap) 0

/-- The inner taps of a register of `width` bits, besides the taps at zero and at the width: one of
them, or three. -/
structure TapSet where
  width : Nat
  single : Option Nat
  triple : Option (Nat × Nat × Nat)
  deriving DecidableEq, Repr

namespace TapSet

/-- The tap sets of the longest period, one for each width from 2 to 37. -/
def maximal : List TapSet := [
  ⟨2, some 1, none⟩,
  ⟨3, some 2, none⟩,
  ⟨4, some 3, none⟩,
  ⟨5, some 3, some (4, 3, 2)⟩,
  ⟨6, some 5, some (5, 3, 2)⟩,
  ⟨7, some 6, some (6, 5, 4)⟩,
  ⟨8, none, some (6, 5, 4)⟩,
  ⟨9, some 5, some (8, 6, 5)⟩,
  ⟨10, some 7, some (9, 7, 6)⟩,
  ⟨11, some 9, some (10, 9, 7)⟩,
  ⟨12, none, some (11, 8, 6)⟩,
  ⟨13, none, some (12, 10, 9)⟩,
  ⟨14, none, some (13, 11, 9)⟩,
  ⟨15, some 14, some (14, 13, 11)⟩,
  ⟨16, none, some (14, 13, 11)⟩,
  ⟨17, some 14, some (16, 15, 14)⟩,
  ⟨18, some 11, some (17, 16, 13)⟩,
  ⟨19, none, some (18, 17, 14)⟩,
  ⟨20, some 17, some (19, 16, 14)⟩,
  ⟨21, some 19, some (20, 19, 16)⟩,
  ⟨22, some 21, some (19, 18, 17)⟩,
  ⟨23, some 18, some (22, 20, 18)⟩,
  ⟨24, none, some (23, 21, 20)⟩,
  ⟨25, some 22, some (24, 23, 22)⟩,
  ⟨26, none, some (25, 24, 20)⟩,
  ⟨27, none, some (26, 25, 22)⟩,
  ⟨28, some 25, some (27, 24, 22)⟩,
  ⟨29, some 27, some (28, 27, 25)⟩,
  ⟨30, none, some (29, 26, 24)⟩,
  ⟨31, some 28, some (30, 29, 28)⟩,
  ⟨32, none, some (30, 26, 25)⟩,
  ⟨33, some 20, some (32, 29, 27)⟩,
  ⟨34, none, some (31, 30, 26)⟩,
  ⟨35, some 33, some (34, 28, 27)⟩,
  ⟨36, some 25, some (35, 29, 28)⟩,
  ⟨37, none, some (36, 33, 31)⟩]

def ofWidth? (width : Nat) : Option TapSet :=
  maximal.find? (·.width = width)

def singlePoly? (t : TapSet) : Option UInt64 :=
  t.single.map fun a => tapWord [a, 0]

def triplePoly? (t : TapSet) : Option UInt64 :=
  t.triple.map fun (a, b, c) => tapWord [a, b, c, 0]

/-- The form with one inner tap where there is one, else the form with three. -/
def poly? (t : TapSet) : Option UInt64 :=
  t.singlePoly? <|> t.triplePoly?

end TapSet

end LogBench.ShiftRegister
