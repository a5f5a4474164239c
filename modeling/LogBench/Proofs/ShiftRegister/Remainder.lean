import LogBench.Proofs.ShiftRegister.Polynomial
import LogBench.ShiftRegister.Basic

/-!
The value of a register as a remainder: `n` shifts multiply it by the `n`-th power of the indeterminate,
modulo the polynomial of the register. The value stays below the width, so that no bit is lost on the way.
-/
namespace LogBench.ShiftRegister

open Polynomial

section Words

variable {width : Nat} {poly taps value : UInt64} {r : ShiftRegister}

private theorem toNat_ofNat_width (h : width ≤ maxWidth) :
    (UInt64.ofNat width).toNat % 64 = width := by
  have hlt : width < 64 := Nat.lt_succ_of_le h
  rw [UInt64.toNat_ofNat_of_lt' (hlt.trans (by decide)), Nat.mod_eq_of_lt hlt]

private theorem toNat_one_shiftLeft (h : width ≤ maxWidth) :
    ((1 : UInt64) <<< UInt64.ofNat width).toNat = 2 ^ width := by
  rw [UInt64.toNat_shiftLeft, toNat_ofNat_width h, UInt64.toNat_one, Nat.one_shiftLeft]
  exact Nat.mod_eq_of_lt (Nat.pow_lt_pow_right (by decide) (Nat.lt_succ_of_le h))

private theorem toNat_mask (h : width ≤ maxWidth) : (mask width).toNat = 2 ^ width - 1 := by
  have hone : (1 : UInt64) ≤ 1 <<< UInt64.ofNat width := by
    rw [UInt64.le_iff_toNat_le, toNat_one_shiftLeft h]
    exact Nat.two_pow_pos width
  rw [mask, UInt64.toNat_sub_of_le _ _ hone, toNat_one_shiftLeft h]
  rfl

private theorem toNat_and_mask (h : width ≤ maxWidth) (value : UInt64) :
    (value &&& mask width).toNat = value.toNat % 2 ^ width := by
  rw [UInt64.toNat_and, toNat_mask h, Nat.and_two_pow_sub_one_eq_mod]

/-- Taps that the mask does not cut lie below the width. -/
private theorem and_not_mask_eq_zero_iff (h : width ≤ maxWidth) (taps : UInt64) :
    taps &&& ~~~(mask width) = 0 ↔ taps.toNat < 2 ^ width := by
  have hsplit : taps = (taps &&& mask width) ||| (taps &&& ~~~(mask width)) := by
    have hdistrib : taps &&& (mask width ||| ~~~(mask width)) =
        (taps &&& mask width) ||| (taps &&& ~~~(mask width)) :=
      UInt64.toBitVec_inj.mp BitVec.and_or_distrib_left
    rwa [UInt64.or_not_self, UInt64.and_neg_one] at hdistrib
  constructor
  · intro hzero
    rw [hzero, UInt64.or_zero] at hsplit
    rw [hsplit, toNat_and_mask h]
    exact Nat.mod_lt _ (Nat.two_pow_pos width)
  · intro hlt
    have hmask : taps &&& mask width = taps := by
      rw [← UInt64.toNat_inj, toNat_and_mask h, Nat.mod_eq_of_lt hlt]
    rw [← hmask, UInt64.and_assoc, UInt64.and_not_self, UInt64.and_zero]

theorem ofTaps?_eq_ok_iff : ofTaps? width taps value = .ok r ↔
    minWidth ≤ width ∧ width ≤ maxWidth ∧ taps.toNat < 2 ^ width ∧
      r = ⟨width, taps ||| 1 <<< UInt64.ofNat width, value &&& mask width⟩ := by
  unfold ofTaps?
  split
  · rename_i hwidth
    refine iff_of_false nofun ?_
    rintro ⟨hmin, hmax, -⟩
    omega
  · rename_i hwidth
    rw [not_or, not_lt, not_lt] at hwidth
    have htaps := and_not_mask_eq_zero_iff hwidth.2 taps
    split
    · rename_i hbad
      refine iff_of_false nofun ?_
      rintro ⟨-, -, hlt, -⟩
      exact hbad (htaps.mpr hlt)
    · rename_i hgood
      rw [not_not, htaps] at hgood
      rw [Except.ok.injEq, eq_comm]
      exact ⟨fun h => ⟨hwidth.1, hwidth.2, hgood, h⟩, fun h => h.2.2.2⟩

/-- No bit is lost when a value moves up. -/
private theorem toNat_moved (hw : width ≤ maxWidth) (hv : value.toNat < 2 ^ width) :
    (value <<< 1).toNat = 2 * value.toNat := by
  have hpow : 2 ^ width ≤ 2 ^ 63 := Nat.pow_le_pow_right Nat.two_pos hw
  have hone : (1 : UInt64).toNat % 64 = 1 := rfl
  rw [UInt64.toNat_shiftLeft, hone, Nat.shiftLeft_eq, Nat.pow_one]
  omega

private theorem toNat_next (hw : width ≤ maxWidth) (hv : value.toNat < 2 ^ width) :
    (next width poly value).toNat = doubled width poly.toNat value.toNat := by
  have hmoved := toNat_moved hw hv
  have hcarry : ((value <<< 1) >>> UInt64.ofNat width).toNat = 2 * value.toNat / 2 ^ width := by
    rw [UInt64.toNat_shiftRight, toNat_ofNat_width hw, hmoved, Nat.shiftRight_eq_div_pow]
  rw [next]
  rcases Nat.lt_or_ge (2 * value.toNat) (2 ^ width) with hlt | hle
  · have hzero : (value <<< 1) >>> UInt64.ofNat width = 0 := by
      rw [← UInt64.toNat_inj, hcarry, Nat.div_eq_of_lt hlt]
      rfl
    rw [if_neg (not_not.mpr hzero), hmoved, doubled_of_lt hlt]
  · have hne : (value <<< 1) >>> UInt64.ofNat width ≠ 0 := by
      intro hzero
      rw [hzero] at hcarry
      exact Nat.ne_of_lt (Nat.div_pos hle (Nat.two_pow_pos width)) hcarry
    rw [if_pos hne, UInt64.toNat_xor, hmoved, doubled_of_le hv hle]

theorem toNat_iterate_next (hw : width ≤ maxWidth) (hm : Modulus width poly.toNat)
    (hv : value.toNat < 2 ^ width) (n : Nat) :
    ((next width poly)^[n] value).toNat = (doubled width poly.toNat)^[n] value.toNat := by
  induction n with
  | zero => rfl
  | succ n ih =>
    have hlt : ((next width poly)^[n] value).toNat < 2 ^ width := by
      rw [ih]
      exact hm.iterate_doubled_lt hv n
    rw [Function.iterate_succ_apply', Function.iterate_succ_apply', toNat_next hw hlt, ih]

end Words

/-- What every accepted register keeps: its polynomial has the width as degree, and its value lies below
that bit. -/
structure Sound (r : ShiftRegister) : Prop where
  le : r.width ≤ maxWidth
  modulus : Modulus r.width r.poly.toNat
  value_lt : r.value.toNat < 2 ^ r.width

structure Made (width : Nat) (taps value : UInt64) (r : ShiftRegister) : Prop where
  sound : r.Sound
  width_eq : r.width = width
  two_le : 2 ≤ width
  poly_eq : r.poly.toNat = taps.toNat ||| 2 ^ width
  taps_lt : taps.toNat < 2 ^ width
  value_eq : r.value.toNat = value.toNat % 2 ^ width

section Registers

variable {width : Nat} {taps value : UInt64} {r : ShiftRegister}

theorem made_ofTaps? (h : ofTaps? width taps value = .ok r) : Made width taps value r := by
  obtain ⟨hmin, hmax, htaps, rfl⟩ := ofTaps?_eq_ok_iff.mp h
  have hpoly : (taps ||| 1 <<< UInt64.ofNat width).toNat = taps.toNat ||| 2 ^ width := by
    rw [UInt64.toNat_or, toNat_one_shiftLeft hmax]
  have hvalue := toNat_and_mask hmax value
  have hpos : 0 < width := Nat.lt_of_lt_of_le (by decide) hmin
  refine ⟨⟨hmax, ?_, ?_⟩, rfl, hmin, hpoly, htaps, hvalue⟩
  · exact hpoly ▸ modulus_or_two_pow hpos htaps
  · exact hvalue ▸ Nat.mod_lt _ (Nat.two_pow_pos width)

private theorem Made.polynomial_poly (h : Made width taps value r) :
    polynomial r.poly.toNat = X ^ width + polynomial taps.toNat := by
  rw [h.poly_eq, polynomial_or_two_pow h.taps_lt]

theorem shiftMany_eq (r : ShiftRegister) (n : Nat) :
    r.shiftMany n = { r with value := (next r.width r.poly)^[n] r.value } := by
  induction n generalizing r with
  | zero => rfl
  | succ n ih =>
    rw [shiftMany, ih]
    rfl

namespace Sound

theorem toNat_set (h : r.Sound) (value : UInt64) :
    (r.set value).value.toNat = value.toNat % 2 ^ r.width :=
  toNat_and_mask h.le value

theorem set (h : r.Sound) (value : UInt64) : (r.set value).Sound :=
  ⟨h.le, h.modulus, h.toNat_set value ▸ Nat.mod_lt _ (Nat.two_pow_pos r.width)⟩

theorem toNat_shiftMany (h : r.Sound) (n : Nat) :
    (r.shiftMany n).value.toNat = (doubled r.width r.poly.toNat)^[n] r.value.toNat := by
  rw [shiftMany_eq]
  exact toNat_iterate_next h.le h.modulus h.value_lt n

private theorem shiftMany_lt (h : r.Sound) (n : Nat) :
    (r.shiftMany n).value.toNat < 2 ^ r.width := by
  rw [h.toNat_shiftMany]
  exact h.modulus.iterate_doubled_lt h.value_lt n

private theorem residue_shiftMany (h : r.Sound) (n : Nat) :
    residue r.poly.toNat (r.shiftMany n).value.toNat =
      AdjoinRoot.root _ ^ n * residue r.poly.toNat r.value.toNat := by
  rw [h.toNat_shiftMany, h.modulus.residue_iterate_doubled h.value_lt]

private theorem polynomial_shiftMany (h : r.Sound) (n : Nat) :
    polynomial (r.shiftMany n).value.toNat =
      (polynomial r.value.toNat * X ^ n) %ₘ polynomial r.poly.toNat := by
  apply h.modulus.polynomial_eq_modByMonic (h.shiftMany_lt n)
  rw [h.residue_shiftMany, map_mul, map_pow, AdjoinRoot.mk_X, mul_comm]
  rfl

/-- Shifts are additive, the bits being added without carries. -/
theorem shiftMany_xor (h : r.Sound) (a b : UInt64) (n : Nat) :
    ((r.set (a ^^^ b)).shiftMany n).value =
      ((r.set a).shiftMany n).value ^^^ ((r.set b).shiftMany n).value := by
  have hlt (c : UInt64) : ((r.set c).shiftMany n).value.toNat < 2 ^ r.width :=
    (h.set c).shiftMany_lt n
  have hresidue (c : UInt64) : residue r.poly.toNat ((r.set c).shiftMany n).value.toNat =
      AdjoinRoot.root _ ^ n * residue r.poly.toNat (r.set c).value.toNat :=
    (h.set c).residue_shiftMany n
  have hset : (r.set (a ^^^ b)).value.toNat =
      (r.set a).value.toNat ^^^ (r.set b).value.toNat := by
    rw [h.toNat_set, h.toNat_set, h.toNat_set, UInt64.toNat_xor, Nat.xor_mod_two_pow]
  rw [← UInt64.toNat_inj, UInt64.toNat_xor]
  apply h.modulus.residue_inj (hlt _) (Nat.xor_lt_two_pow (hlt a) (hlt b))
  rw [residue_xor, hresidue, hresidue, hresidue, hset, residue_xor, mul_add]

end Sound

end Registers

/-- For every accepted register and every number of shifts. -/
theorem shifts_multiply {width : Nat} {taps value : UInt64} {r : ShiftRegister}
    (h : ofTaps? width taps value = .ok r) (n : Nat) :
    r.value.toNat = value.toNat % 2 ^ width ∧
    polynomial (r.shiftMany n).value.toNat =
      polynomial r.value.toNat * X ^ n %ₘ (X ^ width + polynomial taps.toNat) ∧
    (r.shiftMany n).value.toNat < 2 ^ width ∧
    ((r.shiftMany n).value <<< 1).toNat = 2 * (r.shiftMany n).value.toNat ∧
    ∀ a b : UInt64, ((r.set (a ^^^ b)).shiftMany n).value =
      ((r.set a).shiftMany n).value ^^^ ((r.set b).shiftMany n).value := by
  have hmade := made_ofTaps? h
  have hsound := hmade.sound
  have hlt := hsound.shiftMany_lt n
  refine ⟨hmade.value_eq, ?_, hmade.width_eq ▸ hlt, toNat_moved hsound.le hlt, ?_⟩
  · rw [← hmade.polynomial_poly, hsound.polynomial_shiftMany]
  · exact fun a b => hsound.shiftMany_xor a b n

/-- The widest register, with a value that begins with a set bit. -/
theorem shifts_multiply_widest :
    let r : ShiftRegister := ⟨63, 0x8000000000000003, 0x7fffffffffffffff⟩
    ofTaps? 63 3 0xffffffffffffffff = .ok r ∧
      polynomial (r.shiftMany 2).value.toNat =
        polynomial r.value.toNat * X ^ 2 %ₘ (X ^ 63 + polynomial (3 : UInt64).toNat) ∧
      ((r.shiftMany 2).value <<< 1).toNat = 2 * (r.shiftMany 2).value.toNat := by
  intro r
  have hr : ofTaps? 63 3 0xffffffffffffffff = .ok r := by decide
  obtain ⟨-, hpolynomial, -, hmoved, -⟩ := shifts_multiply hr 2
  exact ⟨hr, hpolynomial, hmoved⟩

end LogBench.ShiftRegister
