import LogBench.Power
import Mathlib.Algebra.Field.ZMod
import Mathlib.Data.Nat.Size
import Mathlib.RingTheory.AdjoinRoot

/-!
Numbers as polynomials over the field of two elements, the bits being the coefficients. A shift is a
multiplication by the indeterminate modulo the polynomial that is folded in.
-/
namespace LogBench.ShiftRegister

open Polynomial

noncomputable def polynomial (n : Nat) : (ZMod 2)[X] :=
  ∑ i ∈ Finset.range n.size, if n.testBit i then X ^ i else 0

/-- Twice a number, with the polynomial folded in when a bit arrives at the width. -/
def doubled (width poly n : Nat) : Nat :=
  (2 * n) ^^^ (poly * ((2 * n) >>> width))

/-- A polynomial whose degree is the width. -/
structure Modulus (width poly : Nat) : Prop where
  pos : 0 < width
  lt : poly < 2 ^ (width + 1)
  top : poly.testBit width = true

noncomputable def residue (poly n : Nat) : AdjoinRoot (polynomial poly) :=
  AdjoinRoot.mk (polynomial poly) (polynomial n)

section Numbers

variable {m n k : Nat}

private theorem coeff_polynomial (n i : Nat) :
    (polynomial n).coeff i = if n.testBit i then 1 else 0 := by
  have hterm (j : Nat) : (if n.testBit j then (X : (ZMod 2)[X]) ^ j else 0).coeff i =
      if i = j then (if n.testBit j then 1 else 0) else 0 := by
    split <;> simp [coeff_X_pow]
  rw [polynomial, finsetSum_coeff, Finset.sum_congr rfl fun j _ => hterm j, Finset.sum_ite_eq]
  split
  · rfl
  · rename_i hi
    rw [Finset.mem_range, not_lt, Nat.size_le] at hi
    rw [Nat.testBit_lt_two_pow hi, if_neg Bool.false_ne_true]

private theorem polynomial_injective : Function.Injective polynomial := by
  intro m n h
  apply Nat.eq_of_testBit_eq
  intro i
  have hcoeff := congrArg (coeff · i) h
  simp only [coeff_polynomial] at hcoeff
  cases hm : m.testBit i <;> cases hn : n.testBit i <;> simp_all

private theorem polynomial_zero : polynomial 0 = 0 := rfl

private theorem polynomial_two_pow (k : Nat) : polynomial (2 ^ k) = X ^ k := by
  ext i
  rw [coeff_polynomial, coeff_X_pow, Nat.testBit_two_pow]
  simp only [decide_eq_true_eq]
  exact if_congr eq_comm rfl rfl

private theorem polynomial_one : polynomial 1 = 1 := polynomial_two_pow 0

/-- Bits are added without carries. -/
theorem polynomial_xor (m n : Nat) : polynomial (m ^^^ n) = polynomial m + polynomial n := by
  ext i
  rw [coeff_add, coeff_polynomial, coeff_polynomial, coeff_polynomial, Nat.testBit_xor]
  cases m.testBit i <;> cases n.testBit i <;> decide

private theorem polynomial_double (n : Nat) : polynomial (2 * n) = X * polynomial n := by
  ext i
  cases i with
  | zero =>
    rw [coeff_polynomial, coeff_X_mul_zero, Nat.testBit_zero]
    simp
  | succ i =>
    rw [coeff_polynomial, coeff_X_mul, coeff_polynomial, Nat.testBit_succ,
      Nat.mul_div_cancel_left n Nat.two_pos]

private theorem degree_polynomial_lt : (polynomial n).degree < k ↔ n < 2 ^ k := by
  rw [degree_lt_iff_coeff_zero]
  constructor
  · intro h
    apply Nat.lt_pow_two_of_testBit
    intro i hi
    have hcoeff := h i hi
    rw [coeff_polynomial] at hcoeff
    cases hbit : n.testBit i with
    | false => rfl
    | true =>
      rw [hbit] at hcoeff
      cases hcoeff
  · intro h i hi
    have hbit : n.testBit i = false :=
      Nat.testBit_lt_two_pow (h.trans_le (Nat.pow_le_pow_right Nat.two_pos hi))
    rw [coeff_polynomial, hbit, if_neg Bool.false_ne_true]

/-- A bit above a number is the leading power. -/
theorem polynomial_or_two_pow (h : n < 2 ^ k) : polynomial (n ||| 2 ^ k) = X ^ k + polynomial n := by
  ext i
  rw [coeff_add, coeff_X_pow, coeff_polynomial, coeff_polynomial, Nat.testBit_or,
    Nat.testBit_two_pow]
  by_cases hi : i = k
  · subst hi
    simp [Nat.testBit_lt_two_pow h]
  · simp [hi, Ne.symm hi]

end Numbers

section Residues

variable {width poly m n : Nat}

theorem residue_xor (poly m n : Nat) :
    residue poly (m ^^^ n) = residue poly m + residue poly n := by
  rw [residue, polynomial_xor, map_add]
  rfl

theorem residue_double (poly n : Nat) :
    residue poly (2 * n) = AdjoinRoot.root _ * residue poly n := by
  rw [residue, polynomial_double, map_mul, AdjoinRoot.mk_X]
  rfl

theorem residue_one (poly : Nat) : residue poly 1 = 1 := by
  rw [residue, polynomial_one, map_one]

theorem residue_zero (poly : Nat) : residue poly 0 = 0 := by
  rw [residue, polynomial_zero, map_zero]

private theorem residue_self (poly : Nat) : residue poly poly = 0 := AdjoinRoot.mk_self

theorem modulus_or_two_pow (hpos : 0 < width) (h : n < 2 ^ width) :
    Modulus width (n ||| 2 ^ width) where
  pos := hpos
  lt := Nat.or_lt_two_pow (h.trans_le (Nat.pow_le_pow_right Nat.two_pos (Nat.le_succ width)))
    (Nat.pow_lt_pow_right (by decide) (Nat.lt_succ_self width))
  top := by rw [Nat.testBit_or, Nat.testBit_two_pow_self, Bool.or_true]

namespace Modulus

private theorem degree_eq (h : Modulus width poly) : (polynomial poly).degree = width := by
  apply le_antisymm
  · exact Order.lt_succ_iff.mp (degree_polynomial_lt.mpr h.lt)
  · apply le_degree_of_ne_zero
    rw [coeff_polynomial, if_pos h.top]
    exact one_ne_zero

private theorem monic (h : Modulus width poly) : (polynomial poly).Monic := by
  rw [Monic, leadingCoeff, natDegree_eq_of_degree_eq_some h.degree_eq, coeff_polynomial,
    if_pos h.top]

/-- A number below the width is the least of its residue class. -/
theorem polynomial_eq_modByMonic (h : Modulus width poly) (hn : n < 2 ^ width) {p : (ZMod 2)[X]}
    (hp : AdjoinRoot.mk (polynomial poly) p = residue poly n) :
    polynomial n = p %ₘ polynomial poly := by
  have hdegree : (polynomial n).degree < (polynomial poly).degree := by
    rw [h.degree_eq]
    exact degree_polynomial_lt.mpr hn
  rw [← (modByMonic_eq_self_iff h.monic).mpr hdegree]
  exact modByMonic_eq_of_dvd_sub h.monic (AdjoinRoot.mk_eq_mk.mp hp.symm)

theorem residue_inj (h : Modulus width poly) (hm : m < 2 ^ width) (hn : n < 2 ^ width)
    (he : residue poly m = residue poly n) : m = n := by
  apply polynomial_injective
  rw [h.polynomial_eq_modByMonic hn he, ← h.polynomial_eq_modByMonic hm rfl]

end Modulus

theorem doubled_of_lt (h : 2 * n < 2 ^ width) : doubled width poly n = 2 * n := by
  rw [doubled, Nat.shiftRight_eq_div_pow, Nat.div_eq_of_lt h, Nat.mul_zero, Nat.xor_zero]

theorem doubled_of_le (hn : n < 2 ^ width) (h : 2 ^ width ≤ 2 * n) :
    doubled width poly n = (2 * n) ^^^ poly := by
  have hcarry : 2 * n / 2 ^ width = 1 := by
    apply Nat.div_eq_of_lt_le
    · rwa [Nat.one_mul]
    · exact Nat.mul_lt_mul_of_pos_left hn Nat.two_pos
  rw [doubled, Nat.shiftRight_eq_div_pow, hcarry, Nat.mul_one]

namespace Modulus

/-- The bit at the width is cleared as soon as it is set. -/
theorem doubled_lt (h : Modulus width poly) (hn : n < 2 ^ width) :
    doubled width poly n < 2 ^ width := by
  rcases Nat.lt_or_ge (2 * n) (2 ^ width) with hlt | hle
  · rwa [doubled_of_lt hlt]
  · have hdouble : 2 * n < 2 ^ (width + 1) := by
      rw [Nat.pow_succ, Nat.mul_comm]
      exact Nat.mul_lt_mul_of_pos_right hn Nat.two_pos
    have htop : (2 * n).testBit width = true := Nat.testBit_of_two_pow_le_and_two_pow_add_one_gt hle hdouble
    rw [doubled_of_le hn hle]
    apply Nat.lt_pow_two_of_testBit
    intro i hi
    rcases Nat.eq_or_lt_of_le hi with rfl | hi
    · rw [Nat.testBit_xor, htop, h.top]
      rfl
    · exact Nat.testBit_lt_two_pow ((Nat.xor_lt_two_pow hdouble h.lt).trans_le
        (Nat.pow_le_pow_right Nat.two_pos hi))

theorem residue_doubled (hn : n < 2 ^ width) :
    residue poly (doubled width poly n) = AdjoinRoot.root _ * residue poly n := by
  rcases Nat.lt_or_ge (2 * n) (2 ^ width) with hlt | hle
  · rw [doubled_of_lt hlt, residue_double]
  · rw [doubled_of_le hn hle, residue_xor, residue_self, add_zero, residue_double]

theorem iterate_doubled_lt (h : Modulus width poly) (hn : n < 2 ^ width) (k : Nat) :
    (doubled width poly)^[k] n < 2 ^ width := by
  induction k with
  | zero => exact hn
  | succ k ih =>
    rw [Function.iterate_succ_apply']
    exact h.doubled_lt ih

/-- Doublings are multiplications by powers of the root. -/
theorem residue_iterate_doubled (h : Modulus width poly) (hn : n < 2 ^ width) (k : Nat) :
    residue poly ((doubled width poly)^[k] n) = AdjoinRoot.root _ ^ k * residue poly n := by
  induction k with
  | zero => rw [pow_zero, one_mul, Function.iterate_zero_apply]
  | succ k ih =>
    rw [Function.iterate_succ_apply', residue_doubled (h.iterate_doubled_lt hn k), ih, pow_succ',
      mul_assoc]

end Modulus

end Residues

end LogBench.ShiftRegister
