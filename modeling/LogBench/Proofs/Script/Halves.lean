import LogBench.Proofs.Script.Elements
import Mathlib.Data.List.GetD

/-! An element of the full width of an entry has two words for each bus word, the low half first. -/
namespace LogBench

/-- Bytes that do not go over the end of a bus word are digits of it. -/
private theorem Entry.littleEndian_byteAt {n : Nat} (e : Entry n) {j : Nat} {word : UInt64}
    (hword : e.words[j]? = some word) {first count : Nat} (hle : first + count ≤ 8) :
    Bytes.littleEndian ((List.range count).map fun i => e.byteAt (8 * j + first + i)) =
      word.toNat / 256 ^ first % 256 ^ count := by
  have hdigits : ((List.range count).map fun i => e.byteAt (8 * j + first + i)) =
      Bytes.toLittleEndian count (word.toNat / 256 ^ first) := by
    rw [Bytes.toLittleEndian_eq_map]
    apply List.map_congr_left
    intro i hi
    have hlt : first + i < 8 := Nat.lt_of_lt_of_le (Nat.add_lt_add_left (List.mem_range.mp hi) _) hle
    rw [Nat.add_assoc, byteAt_of_word hword hlt, Nat.div_div_eq_div_mul, ← Nat.pow_add]
  rw [hdigits, Bytes.littleEndian_toLittleEndian]

namespace Script

def fullWidth : Nat := 32

private theorem getElem?_elementWords_full (e : Entry 4) {i : Nat} (hi : i < 8) :
    (elementWords e fullWidth)[i]? = some (Target.payloadWord e (4 * i) 4) := by
  have hlt : 4 * i / 4 < (elementWords e fullWidth).length := by
    rw [length_elementWords, fullWidth]
    omega
  have hget := getElem_elementWords e fullWidth (4 * i) (by omega) hlt
  have hmin : min 4 (fullWidth - 4 * i) = 4 := by
    unfold fullWidth
    omega
  have hindex : 4 * i / 4 = i := by omega
  rw [hmin] at hget
  rw [← hget, ← List.getElem?_eq_getElem, hindex]

/-- The number that the words at an index and after it stand for, the first one being the low half. -/
def pairAt (words : List UInt32) (index : Nat) : Nat :=
  (words.getD index 0).toNat + 2 ^ 32 * (words.getD (index + 1) 0).toNat

private theorem pairAt_append_left {words : List UInt32} {index : Nat}
    (h : index + 1 < words.length)
    (later : List UInt32) : pairAt (words ++ later) index = pairAt words index := by
  rw [pairAt, List.getD_append _ _ _ _ (Nat.lt_of_succ_lt h), List.getD_append _ _ _ _ h, pairAt]

private theorem pairAt_append_right (words later : List UInt32) (index : Nat) :
    pairAt (words ++ later) (words.length + index) = pairAt later index := by
  rw [pairAt, Nat.add_assoc, List.getD_append_right _ _ _ _ (Nat.le_add_right ..),
    List.getD_append_right _ _ _ _ (Nat.le_add_right ..), Nat.add_sub_cancel_left,
    Nat.add_sub_cancel_left, pairAt]

/-- Two words of an element spell a word of its entry. -/
theorem pairAt_elementWords (e : Entry 4) {j : Nat} {word : UInt64}
    (hword : e.words[j]? = some word) : pairAt (elementWords e fullWidth) (2 * j) = word.toNat := by
  have hj : j < 4 := (Vector.getElem?_eq_some_iff.mp hword).1
  have hlow := getElem?_elementWords_full e (i := 2 * j) (by omega)
  have hhigh := getElem?_elementWords_full e (i := 2 * j + 1) (by omega)
  have hlow' : (Target.payloadWord e (4 * (2 * j)) 4).toNat = word.toNat % 2 ^ 32 := by
    rw [toNat_payloadWord e _ (Nat.le_refl 4)]
    have hbytes := e.littleEndian_byteAt hword (show 0 + 4 ≤ 8 by decide)
    rw [Nat.pow_zero, Nat.div_one, show 8 * j + 0 = 4 * (2 * j) by omega] at hbytes
    exact hbytes
  have hhigh' : (Target.payloadWord e (4 * (2 * j + 1)) 4).toNat = word.toNat / 2 ^ 32 := by
    rw [toNat_payloadWord e _ (Nat.le_refl 4)]
    have hbytes := e.littleEndian_byteAt hword (show 4 + 4 ≤ 8 by decide)
    rw [show 8 * j + 4 = 4 * (2 * j + 1) by omega] at hbytes
    have hlt : word.toNat / 2 ^ 32 < 2 ^ 32 := by
      have := word.toNat_lt
      omega
    exact hbytes.trans (Nat.mod_eq_of_lt hlt)
  rw [pairAt, List.getD_eq_getElem?_getD, List.getD_eq_getElem?_getD, hlow, hhigh, Option.getD_some,
    Option.getD_some, hlow', hhigh', Nat.mod_add_div]

private theorem length_elementWords_full (e : Entry 4) : (elementWords e fullWidth).length = 8 := by
  rw [length_elementWords]
  rfl

theorem length_flatMap_elementWords (entries : List (Entry 4)) :
    (entries.flatMap (elementWords · fullWidth)).length = 8 * entries.length := by
  induction entries with
  | nil => rfl
  | cons e entries ih =>
    rw [List.flatMap_cons, List.length_append, length_elementWords_full, ih, List.length_cons]
    omega

/-- The elements of some entries stand one after the other, eight words each. -/
theorem pairAt_flatMap_elementWords {entries : List (Entry 4)} {e : Entry 4} {i j : Nat}
    {word : UInt64} (he : entries[i]? = some e) (hword : e.words[j]? = some word) :
    pairAt (entries.flatMap (elementWords · fullWidth)) (8 * i + 2 * j) = word.toNat := by
  have hj : j < 4 := (Vector.getElem?_eq_some_iff.mp hword).1
  induction entries generalizing i with
  | nil => cases he
  | cons first entries ih =>
    have hlen := length_elementWords_full first
    rw [List.flatMap_cons]
    cases i with
    | zero =>
      cases he
      rw [pairAt_append_left (by omega), Nat.mul_zero, Nat.zero_add, pairAt_elementWords e hword]
    | succ i =>
      have hindex : 8 * (i + 1) + 2 * j =
          (elementWords first fullWidth).length + (8 * i + 2 * j) := by omega
      rw [hindex, pairAt_append_right]
      exact ih he

end Script

end LogBench
