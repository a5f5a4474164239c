import LogBench.Power

/-! Byte strings as numbers in base 256, in both byte orders. -/
namespace LogBench.Bytes

/-- The number with the given bytes as digits, least significant first. -/
def littleEndian : List UInt8 → Nat
  | [] => 0
  | b :: rest => b.toNat + 256 * littleEndian rest

def bigEndian (bytes : List UInt8) : Nat :=
  littleEndian bytes.reverse

/-- The `width` lowest digits of a number, least significant first. -/
def toLittleEndian : Nat → Nat → List UInt8
  | 0, _ => []
  | width + 1, n => UInt8.ofNat n :: toLittleEndian width (n / 256)

def toBigEndian (width n : Nat) : List UInt8 :=
  (toLittleEndian width n).reverse

@[simp] theorem length_toLittleEndian (width n : Nat) :
    (toLittleEndian width n).length = width := by
  induction width generalizing n with
  | zero => rfl
  | succ width ih => simp [toLittleEndian, ih]

@[simp] theorem length_toBigEndian (width n : Nat) : (toBigEndian width n).length = width := by
  simp [toBigEndian]

theorem littleEndian_toLittleEndian (width n : Nat) :
    littleEndian (toLittleEndian width n) = n % 256 ^ width := by
  induction width generalizing n with
  | zero => simp [toLittleEndian, littleEndian, Nat.mod_one]
  | succ width ih =>
    simp [toLittleEndian, littleEndian, ih, Nat.pow_succ', Nat.mod_mul]

theorem toLittleEndian_littleEndian (bytes : List UInt8) :
    toLittleEndian bytes.length (littleEndian bytes) = bytes := by
  induction bytes with
  | nil => rfl
  | cons b rest ih =>
    have hb : b.toNat < 256 := b.toNat_lt
    have hd : (b.toNat + 256 * littleEndian rest) / 256 = littleEndian rest := by omega
    have hm : UInt8.ofNat (b.toNat + 256 * littleEndian rest) = b := by
      rw [← UInt8.toNat_inj, UInt8.toNat_ofNat']
      omega
    simp [toLittleEndian, littleEndian, hd, hm, ih]

/-- Each digit on its own. -/
theorem toLittleEndian_eq_map (width n : Nat) :
    toLittleEndian width n = (List.range width).map fun i => UInt8.ofNat (n / 256 ^ i) := by
  induction width generalizing n with
  | zero => rfl
  | succ width ih =>
    rw [toLittleEndian, ih, List.range_succ_eq_map, List.map_cons, List.map_map, Nat.pow_zero,
      Nat.div_one]
    congr 1
    apply List.map_congr_left
    intro i _
    simp only [Function.comp_apply, Nat.div_div_eq_div_mul, Nat.pow_succ']

/-- The first bytes are the remainder. -/
theorem littleEndian_take (bytes : List UInt8) (n : Nat) :
    littleEndian (bytes.take n) = littleEndian bytes % 256 ^ n := by
  induction n generalizing bytes with
  | zero => rw [List.take_zero, Nat.pow_zero, Nat.mod_one, littleEndian]
  | succ n ih =>
    cases bytes with
    | nil => rw [List.take_nil, littleEndian, Nat.zero_mod]
    | cons b rest =>
      have hb : b.toNat < 256 := b.toNat_lt
      have hlow : (b.toNat + 256 * littleEndian rest) % 256 = b.toNat := by omega
      have hhigh : (b.toNat + 256 * littleEndian rest) / 256 = littleEndian rest := by omega
      rw [List.take_succ_cons, littleEndian, littleEndian, ih, Nat.pow_succ', Nat.mod_mul, hlow,
        hhigh]

theorem littleEndian_lt (bytes : List UInt8) : littleEndian bytes < 256 ^ bytes.length := by
  induction bytes with
  | nil => simp [littleEndian]
  | cons b rest ih =>
    have hb : b.toNat < 256 := b.toNat_lt
    simp only [littleEndian, List.length_cons, Nat.pow_succ']
    omega

theorem toBigEndian_eq_map (width n : Nat) :
    toBigEndian width n =
      (List.range width).map fun i => UInt8.ofNat (n / 256 ^ (width - 1 - i)) := by
  rw [toBigEndian, toLittleEndian_eq_map]
  apply List.ext_getElem
  · rw [List.length_reverse, List.length_map, List.length_map]
  · intro i hi hi'
    rw [List.getElem_reverse, List.getElem_map, List.getElem_map, List.getElem_range,
      List.getElem_range, List.length_map, List.length_range]

theorem bigEndian_append_singleton (bytes : List UInt8) (b : UInt8) :
    bigEndian (bytes ++ [b]) = b.toNat + 256 * bigEndian bytes := by
  simp [bigEndian, littleEndian]

theorem bigEndian_lt (bytes : List UInt8) : bigEndian bytes < 256 ^ bytes.length := by
  have h := littleEndian_lt bytes.reverse
  rwa [List.length_reverse] at h

theorem bigEndian_toBigEndian (width n : Nat) :
    bigEndian (toBigEndian width n) = n % 256 ^ width := by
  simp [bigEndian, toBigEndian, littleEndian_toLittleEndian]

theorem toBigEndian_bigEndian (bytes : List UInt8) :
    toBigEndian bytes.length (bigEndian bytes) = bytes := by
  have h := toLittleEndian_littleEndian bytes.reverse
  rw [List.length_reverse] at h
  rw [toBigEndian, bigEndian, h, List.reverse_reverse]

end LogBench.Bytes
