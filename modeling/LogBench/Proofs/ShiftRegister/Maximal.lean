import LogBench.Proofs.ShiftRegister.Period
import LogBench.Proofs.ShiftRegister.Power
import Mathlib.NumberTheory.LucasLehmer
import Mathlib.NumberTheory.LucasPrimality
import Mathlib.Tactic.NormNum.Prime
import Mathlib.Tactic.ReduceModChar

/-!
Every polynomial of the table is primitive: the order of the indeterminate is the number of values besides
zero. It divides that number, and none of the quotients by a prime, which powers of the indeterminate tell.
-/
namespace LogBench.ShiftRegister

open Function Polynomial

/-- The primes that divide the numbers of values besides zero, up to the widest register of the table. -/
def primes : List Nat := [
  3, 5, 7, 11, 13, 17, 19, 23, 29, 31, 37, 41, 43, 47, 71, 73, 89, 109, 113, 127, 151, 223, 233, 241,
  257, 331, 337, 601, 683, 1103, 1801, 2089, 2731, 8191, 43691, 65537, 122921, 131071, 178481, 262657,
  524287, 599479, 616318177, 2147483647]

/-- Whether the order of the indeterminate is the number of values besides zero, by the primes that divide
that number. -/
def isPrimitive (width poly : Nat) : Bool :=
  -- No prime divides such a number more often than thrice.
  2 ^ width - 1 ∣ primes.prod ^ 3 ∧ power width poly (2 ^ width - 1) = 1 ∧
    ∀ q ∈ primes, q ∣ 2 ^ width - 1 → power width poly ((2 ^ width - 1) / q) ≠ 1

def TapSet.forms (t : TapSet) : List UInt64 :=
  t.singlePoly?.toList ++ t.triplePoly?.toList

def TapSet.isPrimitive (t : TapSet) : Bool :=
  -- A quantifier over the forms would be decided by going through all the words there are.
  t.forms.all fun taps => taps.toNat < 2 ^ t.width &&
    ShiftRegister.isPrimitive t.width (taps.toNat ||| 2 ^ t.width)

section Primes

private theorem mem_of_dvd_prod {l : List Nat} (hl : ∀ q ∈ l, q.Prime) {q : Nat} (hq : q.Prime)
    (hdvd : q ∣ l.prod) : q ∈ l :=
  mem_list_primes_of_dvd_prod hq.prime (fun q hq => (hl q hq).prime) hdvd

private theorem prime_616318177 : Nat.Prime 616318177 := by
  have hfactors : 616318177 - 1 = [2, 2, 2, 2, 2, 3, 37, 167, 1039].prod := by norm_num
  have hprimes : ∀ q ∈ [2, 2, 2, 2, 2, 3, 37, 167, 1039], Nat.Prime q := by
    simp only [List.forall_mem_cons]
    norm_num
  refine lucas_primality _ 10 (by reduce_mod_char) ?_
  intro q hq hdvd
  have hmem := mem_of_dvd_prod hprimes hq (hfactors ▸ hdvd)
  simp only [List.mem_cons, List.not_mem_nil, or_false, or_self_left] at hmem
  rcases hmem with rfl | rfl | rfl | rfl | rfl
  all_goals
    norm_num
    reduce_mod_char
    decide

private theorem prime_2147483647 : Nat.Prime 2147483647 :=
  lucas_lehmer_sufficiency 31 (by decide) (by norm_num)

private theorem prime_of_mem_primes : ∀ q ∈ primes, q.Prime := by
  simp only [primes, List.forall_mem_cons, prime_616318177, prime_2147483647]
  norm_num

end Primes

section Orders

variable {width poly : Nat}

namespace Modulus

private theorem iterate_doubled_one_eq_one_iff (h : Modulus width poly) (n : Nat) :
    (doubled width poly)^[n] 1 = 1 ↔ AdjoinRoot.root (polynomial poly) ^ n = 1 := by
  have hone : 1 < 2 ^ width := Nat.one_lt_two_pow h.pos.ne'
  have hresidue := h.residue_iterate_doubled hone n
  rw [residue_one, mul_one] at hresidue
  rw [← hresidue, ← residue_one]
  exact ⟨congrArg _, h.residue_inj (h.iterate_doubled_lt hone n) hone⟩

private theorem minimalPeriod_one_eq_orderOf (h : Modulus width poly) :
    minimalPeriod (doubled width poly) 1 = orderOf (AdjoinRoot.root (polynomial poly)) := by
  rw [orderOf, minimalPeriod_eq_minimalPeriod_iff]
  intro n
  rw [isPeriodicPt_mul_iff_pow_eq_one, ← h.iterate_doubled_one_eq_one_iff]
  rfl

private theorem orderOf_root (h : Modulus width poly) (hprimitive : isPrimitive width poly = true) :
    orderOf (AdjoinRoot.root (polynomial poly)) = 2 ^ width - 1 := by
  rw [isPrimitive, decide_eq_true_eq] at hprimitive
  obtain ⟨hcovered, hback, hfirst⟩ := hprimitive
  have hpos : 0 < 2 ^ width - 1 := Nat.sub_pos_of_lt (Nat.one_lt_two_pow h.pos.ne')
  apply orderOf_eq_of_pow_and_pow_div_prime hpos ((h.power_eq_one_iff _).mp hback)
  intro q hq hdvd
  rw [Ne, ← h.power_eq_one_iff]
  have hmem := mem_of_dvd_prod prime_of_mem_primes hq (hq.dvd_of_dvd_pow (hdvd.trans hcovered))
  exact hfirst q hmem hdvd

end Modulus

end Orders

section Table

variable {width : Nat} {taps value : UInt64} {r : ShiftRegister} {t : TapSet}

private theorem Made.isMaximal_of_isPrimitive (h : Made width taps value r)
    (hprimitive : isPrimitive width (taps.toNat ||| 2 ^ width) = true) : r.isMaximal = true := by
  have hmodulus := h.sound.modulus
  rw [← h.poly_eq, ← h.width_eq] at hprimitive
  rw [h.sound.isMaximal_iff, hmodulus.minimalPeriod_one_eq_orderOf, hmodulus.orderOf_root hprimitive]

private theorem width_of_mem_maximal :
    ∀ t ∈ TapSet.maximal, minWidth ≤ t.width ∧ t.width ≤ maxWidth := by
  decide

private theorem isPrimitive_of_mem_maximal : ∀ t ∈ TapSet.maximal, t.isPrimitive = true := by
  decide +kernel

private theorem exists_isMaximal (ht : t ∈ TapSet.maximal) (htaps : taps ∈ t.forms)
    (value : UInt64) : ∃ r, ofTaps? t.width taps value = .ok r ∧ r.isMaximal = true := by
  obtain ⟨hmin, hmax⟩ := width_of_mem_maximal t ht
  have hform := List.all_eq_true.mp (isPrimitive_of_mem_maximal t ht) taps htaps
  rw [Bool.and_eq_true, decide_eq_true_eq] at hform
  obtain ⟨hlt, hprimitive⟩ := hform
  obtain ⟨r, hr⟩ : ∃ r, ofTaps? t.width taps value = .ok r :=
    ⟨_, ofTaps?_eq_ok_iff.mpr ⟨hmin, hmax, hlt, rfl⟩⟩
  exact ⟨r, hr, (made_ofTaps? hr).isMaximal_of_isPrimitive hprimitive⟩

private theorem Sound.fullRound (h : r.Sound) (hmaximal : r.isMaximal = true) (hne : r.value ≠ 0) :
    r.FullRound := by
  have hset : r.set r.value = r := by
    show { r with value := (r.set r.value).value } = r
    rw [h.set_value h.value_lt]
  exact hset ▸ h.isMaximal_iff_fullRound.mp hmaximal r.value hne h.value_lt

private theorem isSome_poly?_of_width : ∀ width < 38, 2 ≤ width →
    ((TapSet.ofWidth? width).bind TapSet.poly?).isSome = true := by
  decide +kernel

private theorem TapSet.mem_forms_iff :
    taps ∈ t.forms ↔ t.singlePoly? = some taps ∨ t.triplePoly? = some taps := by
  rw [TapSet.forms, List.mem_append, Option.mem_toList, Option.mem_toList]

private theorem TapSet.mem_of_ofWidth? (h : TapSet.ofWidth? width = some t) :
    t ∈ TapSet.maximal ∧ t.width = width := by
  rw [TapSet.ofWidth?] at h
  have hwidth := List.find?_some h
  exact ⟨List.mem_of_find?_eq_some h, of_decide_eq_true hwidth⟩

private theorem exists_form (hmin : 2 ≤ width) (hmax : width ≤ 37) :
    ∃ t ∈ TapSet.maximal, ∃ taps ∈ t.forms,
      t.width = width ∧ (TapSet.ofWidth? width).bind TapSet.poly? = some taps := by
  obtain ⟨taps, hpoly⟩ := Option.isSome_iff_exists.mp
    (isSome_poly?_of_width width (Nat.lt_succ_of_le hmax) hmin)
  obtain ⟨t, ht, htaps⟩ := Option.bind_eq_some_iff.mp hpoly
  obtain ⟨hmem, hwidth⟩ := TapSet.mem_of_ofWidth? ht
  refine ⟨t, hmem, taps, ?_, hwidth, hpoly⟩
  rw [TapSet.poly?, Option.orElse_eq_orElse, Option.orElse_eq_or, Option.or_eq_some_iff] at htaps
  exact TapSet.mem_forms_iff.mpr (htaps.imp_right And.right)

end Table

/-- Both forms of every entry of the table, from every start; and the register that is chosen for each
width. -/
theorem table_is_maximal :
    (∀ t ∈ TapSet.maximal, ∀ taps, t.singlePoly? = some taps ∨ t.triplePoly? = some taps →
      ∀ start : UInt64, start ≠ 0 → start.toNat < 2 ^ t.width →
        ∃ r, ofTaps? t.width taps start = .ok r ∧ r.value = start ∧ r.FullRound) ∧
    ∀ width, 2 ≤ width → width ≤ 37 →
      ∃ r, maximal? width = .ok r ∧ r.width = width ∧ r.period? = some (2 ^ width - 1) := by
  constructor
  · intro t ht taps hform start hne hlt
    obtain ⟨r, hr, hmaximal⟩ := exists_isMaximal ht (TapSet.mem_forms_iff.mpr hform) start
    have hmade := made_ofTaps? hr
    have hvalue : r.value = start := by
      rw [← UInt64.toNat_inj, hmade.value_eq, Nat.mod_eq_of_lt hlt]
    exact ⟨r, hr, hvalue, hmade.sound.fullRound hmaximal (hvalue ▸ hne)⟩
  · intro width hmin hmax
    obtain ⟨t, ht, taps, htaps, rfl, hpoly⟩ := exists_form hmin hmax
    obtain ⟨r, hr, hmaximal⟩ := exists_isMaximal ht htaps 1
    have hwidth := (made_ofTaps? hr).width_eq
    refine ⟨r, ?_, hwidth, ?_⟩
    · rw [maximal?, hpoly]
      exact hr
    · rw [← hwidth]
      exact of_decide_eq_true hmaximal

/-- The widest register of the table, which has one form, from the value with every bit set. -/
theorem table_is_maximal_widest : ∃ r,
    ofTaps? 37 0x1280000001 0x1fffffffff = .ok r ∧ r.value = 0x1fffffffff ∧ r.FullRound := by
  have ht : (⟨37, none, some (36, 33, 31)⟩ : TapSet) ∈ TapSet.maximal := by decide
  exact table_is_maximal.1 _ ht 0x1280000001 (.inr (by decide)) 0x1fffffffff (by decide) (by decide)

end LogBench.ShiftRegister
