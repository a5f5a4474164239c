import LogBench.Power

/-! Entries: records as they travel over a bus of 64-bit words. -/
namespace LogBench

structure Entry (n : Nat) where
  address : UInt16
  words : Vector UInt64 n
  deriving DecidableEq, Repr

namespace Entry

def blank {n : Nat} : Entry n := ⟨0, Vector.replicate n 0⟩

/-- Byte `i` of the words in order, each word's least significant byte first; zero past the end. -/
def byteAt {n : Nat} (e : Entry n) (i : Nat) : UInt8 :=
  match e.words[i / 8]? with
  | some word => UInt8.ofNat (word.toNat / 256 ^ (i % 8))
  | none => 0

section Bytes

variable {n : Nat} {e : Entry n} {i j : Nat} {word : UInt64}

/-- The eight bytes of a word are its digits. -/
theorem byteAt_of_word (hword : e.words[j]? = some word) (hi : i < 8) :
    e.byteAt (8 * j + i) = UInt8.ofNat (word.toNat / 256 ^ i) := by
  have hindex : (8 * j + i) / 8 = j := by omega
  have hplace : (8 * j + i) % 8 = i := by omega
  rw [byteAt, hindex, hplace, hword]

theorem byteAt_of_le (h : 8 * n ≤ i) : e.byteAt i = 0 := by
  have hnone : e.words[i / 8]? = none := Vector.getElem?_eq_none (by omega)
  rw [byteAt, hnone]

end Bytes

end Entry

end LogBench
