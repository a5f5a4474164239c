import LogBench.Proofs.ShiftRegister.Remainder
import Mathlib.Data.Nat.Bitwise
import Mathlib.Dynamics.PeriodicPts.Lemmas
import Mathlib.Order.Interval.Finset.Nat

/-!
The rounds of a register. With a tap at zero the shifts permute the values besides zero, so that one comes
back; without it every shift leaves an even value. A register is maximal if the round of one takes in all
values besides zero, and then so does the round of each of them.
-/
namespace LogBench.ShiftRegister

open Function

def nonzero (width : Nat) : Finset Nat :=
  Finset.Ico 1 (2 ^ width)

/-- One round of shifts takes each value besides zero once, and leads back to the first. -/
structure FullRound (r : ShiftRegister) : Prop where
  once : ∀ value : UInt64, value ≠ 0 → value.toNat < 2 ^ r.width →
    ∃! n, (1 ≤ n ∧ n ≤ 2 ^ r.width - 1) ∧ (r.shiftMany n).value = value
  back : (r.shiftMany (2 ^ r.width - 1)).value = r.value

section Orbits

variable {α : Type} {f : α → α} {s : Finset α} {x y : α} {n : Nat}

private theorem isLeast_return_iff :
    IsLeast {n | 0 < n ∧ f^[n] x = x} n ↔ 0 < n ∧ minimalPeriod f x = n := by
  constructor
  · rintro ⟨⟨hn, hback⟩, hleast⟩
    have hperiodic : IsPeriodicPt f n x := hback
    exact ⟨hn, le_antisymm (hperiodic.minimalPeriod_le hn)
      (hleast ⟨hperiodic.minimalPeriod_pos hn, iterate_minimalPeriod⟩)⟩
  · rintro ⟨hn, rfl⟩
    exact ⟨⟨hn, iterate_minimalPeriod⟩, fun m hm => IsPeriodicPt.minimalPeriod_le hm.1 hm.2⟩

private theorem iterate_mem (hmaps : ∀ x ∈ s, f x ∈ s) (hx : x ∈ s) (n : Nat) : f^[n] x ∈ s := by
  induction n with
  | zero => exact hx
  | succ n ih =>
    rw [iterate_succ_apply']
    exact hmaps _ ih

/-- A permutation of finitely many points leads each back, within as many steps as there are points. -/
private theorem minimalPeriod_pos_and_le (hmaps : ∀ x ∈ s, f x ∈ s)
    (hinj : ∀ x ∈ s, ∀ y ∈ s, f x = f y → x = y) (hx : x ∈ s) :
    0 < minimalPeriod f x ∧ minimalPeriod f x ≤ s.card := by
  let g : s → s := fun x => ⟨f x, hmaps x x.2⟩
  have hg : Injective g := fun x y h => Subtype.ext (hinj x x.2 y y.2 (congrArg Subtype.val h))
  have hsemiconj : Semiconj Subtype.val g f := fun _ => rfl
  have hsame : minimalPeriod f x = minimalPeriod g ⟨x, hx⟩ := by
    rw [minimalPeriod_eq_minimalPeriod_iff]
    intro n
    rw [IsPeriodicPt, IsFixedPt, IsPeriodicPt, IsFixedPt, Subtype.ext_iff,
      (hsemiconj.iterate_right n).eq]
  rw [hsame, ← Fintype.card_coe]
  exact ⟨minimalPeriod_pos_of_mem_periodicPts (hg.mem_periodicPts _), minimalPeriod_le_card⟩

/-- An orbit with as many points as there are takes in each of them, once. -/
private theorem existsUnique_iterate [DecidableEq α] (hmaps : ∀ x ∈ s, f x ∈ s) (hx : x ∈ s)
    (hperiod : minimalPeriod f x = s.card) (hy : y ∈ s) : ∃! n, n < s.card ∧ f^[n] x = y := by
  have hinj : Set.InjOn (f^[·] x) (Finset.range s.card : Set Nat) := by
    rw [Finset.coe_range, ← hperiod]
    exact iterate_injOn_Iio_minimalPeriod
  have himage : (Finset.range s.card).image (f^[·] x) = s := by
    apply Finset.eq_of_subset_of_card_le
    · intro z hz
      obtain ⟨n, -, rfl⟩ := Finset.mem_image.mp hz
      exact iterate_mem hmaps hx n
    · rw [Finset.card_image_of_injOn hinj, Finset.card_range]
  rw [← himage] at hy
  obtain ⟨n, hn, hny⟩ := Finset.mem_image.mp hy
  refine ⟨n, ⟨Finset.mem_range.mp hn, hny⟩, ?_⟩
  rintro m ⟨hm, hmy⟩
  exact hinj (Finset.mem_coe.mpr (Finset.mem_range.mpr hm)) hn (hmy.trans hny.symm)

private theorem existsUnique_iterate_positive [DecidableEq α] (hmaps : ∀ x ∈ s, f x ∈ s)
    (hx : x ∈ s) (hperiod : minimalPeriod f x = s.card) (hy : y ∈ s) :
    ∃! n, (1 ≤ n ∧ n ≤ s.card) ∧ f^[n] x = y := by
  have hpos : 0 < minimalPeriod f x := hperiod ▸ Finset.card_pos.mpr ⟨x, hx⟩
  have hnext : minimalPeriod f (f x) = s.card :=
    (minimalPeriod_apply (minimalPeriod_pos_iff_mem_periodicPts.mp hpos)).trans hperiod
  obtain ⟨n, ⟨hn, hny⟩, hunique⟩ := existsUnique_iterate hmaps (hmaps x hx) hnext hy
  refine ⟨n + 1, ⟨⟨Nat.le_add_left 1 n, hn⟩, hny⟩, ?_⟩
  rintro m ⟨⟨hm, hle⟩, hmy⟩
  obtain ⟨m, rfl⟩ := Nat.exists_eq_add_of_le' hm
  rw [hunique m ⟨hle, hmy⟩]

end Orbits

section Doublings

variable {width poly m n : Nat}

/-- The lowest bit is set by the polynomial alone, when it is folded in. -/
private theorem testBit_zero_doubled (poly : Nat) (hn : n < 2 ^ width) :
    (doubled width poly n).testBit 0 = (poly.testBit 0 && decide (2 ^ width ≤ 2 * n)) := by
  have heven : (2 * n).testBit 0 = false := by simp
  rcases Nat.lt_or_ge (2 * n) (2 ^ width) with hlt | hle
  · rw [doubled_of_lt hlt, heven, decide_eq_false (Nat.not_le_of_lt hlt), Bool.and_false]
  · rw [doubled_of_le hn hle, Nat.testBit_xor, heven, decide_eq_true hle, Bool.and_true,
      Bool.false_xor]

private theorem mem_nonzero : n ∈ nonzero width ↔ n ≠ 0 ∧ n < 2 ^ width := by
  rw [nonzero, Finset.mem_Ico, Nat.one_le_iff_ne_zero]

private theorem card_nonzero (width : Nat) : (nonzero width).card = 2 ^ width - 1 :=
  Nat.card_Ico 1 (2 ^ width)

namespace Modulus

/-- Where the polynomial has no constant term, one is no doubled value. -/
private theorem iterate_doubled_ne_one (h : Modulus width poly) (heven : poly.testBit 0 = false)
    (hn : n < 2 ^ width) (hm : 0 < m) : (doubled width poly)^[m] n ≠ 1 := by
  obtain ⟨k, rfl⟩ := Nat.exists_eq_succ_of_ne_zero hm.ne'
  have hlt : (doubled width poly)^[k] n < 2 ^ width := h.iterate_doubled_lt hn k
  intro hone
  have hbit := testBit_zero_doubled poly hlt
  rw [← iterate_succ_apply' (doubled width poly) k n, hone, heven, Bool.false_and] at hbit
  cases hbit

private theorem doubled_inj (hodd : poly.testBit 0 = true) (hm : m < 2 ^ width) (hn : n < 2 ^ width)
    (he : doubled width poly m = doubled width poly n) : m = n := by
  -- The lowest bit tells whether the polynomial was folded in.
  have hcarry : (2 ^ width ≤ 2 * m) ↔ (2 ^ width ≤ 2 * n) := by
    have hbit := congrArg (Nat.testBit · 0) he
    simpa only [testBit_zero_doubled poly hm, testBit_zero_doubled poly hn, hodd, Bool.true_and,
      decide_eq_decide] using hbit
  apply Nat.eq_of_mul_eq_mul_left Nat.two_pos
  rcases Nat.lt_or_ge (2 * m) (2 ^ width) with hlt | hle
  · rwa [doubled_of_lt hlt, doubled_of_lt (by omega)] at he
  · rw [doubled_of_le hm hle, doubled_of_le hn (hcarry.mp hle)] at he
    exact Nat.xor_left_inj.mp he

private theorem doubled_mem_nonzero (h : Modulus width poly) (hodd : poly.testBit 0 = true)
    (n : Nat) (hn : n ∈ nonzero width) : doubled width poly n ∈ nonzero width := by
  obtain ⟨hne, hlt⟩ := mem_nonzero.mp hn
  refine mem_nonzero.mpr ⟨?_, h.doubled_lt hlt⟩
  intro hzero
  have hstays : doubled width poly 0 = 0 := doubled_of_lt (Nat.two_pow_pos width)
  exact hne (doubled_inj hodd hlt (Nat.two_pow_pos width) (hzero.trans hstays.symm))

private theorem one_mem_nonzero (h : Modulus width poly) : 1 ∈ nonzero width :=
  mem_nonzero.mpr ⟨one_ne_zero, Nat.one_lt_two_pow h.pos.ne'⟩

private theorem minimalPeriod_one_pos_and_le (h : Modulus width poly)
    (hodd : poly.testBit 0 = true) : 0 < minimalPeriod (doubled width poly) 1 ∧
      minimalPeriod (doubled width poly) 1 ≤ 2 ^ width - 1 := by
  have hinj (m : Nat) (hm : m ∈ nonzero width) (n : Nat) (hn : n ∈ nonzero width) :
      doubled width poly m = doubled width poly n → m = n :=
    doubled_inj hodd (mem_nonzero.mp hm).2 (mem_nonzero.mp hn).2
  rw [← card_nonzero width]
  exact minimalPeriod_pos_and_le (h.doubled_mem_nonzero hodd) hinj h.one_mem_nonzero

/-- One comes back exactly if the polynomial has a constant term. -/
theorem minimalPeriod_one_pos_iff (h : Modulus width poly) :
    0 < minimalPeriod (doubled width poly) 1 ↔ poly.testBit 0 = true := by
  constructor
  · intro hpos
    by_contra heven
    rw [Bool.not_eq_true] at heven
    exact h.iterate_doubled_ne_one heven (mem_nonzero.mp h.one_mem_nonzero).2 hpos
      iterate_minimalPeriod
  · exact fun hodd => (h.minimalPeriod_one_pos_and_le hodd).1

end Modulus

end Doublings

section Search

variable {width fuel count n : Nat} {poly value : UInt64} {r : ShiftRegister}

private theorem isLeast_positive_iff {p : Nat → Prop} :
    IsLeast {n | 0 < n ∧ p n} (n + 1) ↔ p (n + 1) ∧ ∀ m < n, ¬ p (m + 1) := by
  constructor
  · rintro ⟨⟨-, hp⟩, hleast⟩
    refine ⟨hp, fun m hm hpm => ?_⟩
    have hle : n + 1 ≤ m + 1 := hleast ⟨Nat.succ_pos m, hpm⟩
    omega
  · rintro ⟨hp, hfirst⟩
    refine ⟨⟨Nat.succ_pos n, hp⟩, ?_⟩
    rintro m ⟨hm, hpm⟩
    obtain ⟨m, rfl⟩ := Nat.exists_eq_succ_of_ne_zero hm.ne'
    apply Nat.le_of_not_lt
    intro hlt
    exact hfirst m (Nat.lt_of_succ_lt_succ hlt) hpm

/-- The search finds the first of its shifts that arrives at one. -/
theorem findReturn_eq_some_iff : findReturn width poly fuel count value = some n ↔
    ∃ k < fuel, n = count + (k + 1) ∧ (next width poly)^[k + 1] value = 1 ∧
      ∀ j < k, (next width poly)^[j + 1] value ≠ 1 := by
  induction fuel generalizing count value with
  | zero => exact iff_of_false nofun fun ⟨k, hk, _⟩ => Nat.not_lt_zero k hk
  | succ fuel ih =>
    rw [findReturn]
    split
    · rename_i hone
      rw [Option.some.injEq]
      constructor
      · rintro rfl
        exact ⟨0, Nat.succ_pos fuel, rfl, hone, fun j hj => absurd hj (Nat.not_lt_zero j)⟩
      · rintro ⟨k, -, rfl, -, hfirst⟩
        cases k with
        | zero => rfl
        | succ k => exact absurd hone (hfirst 0 (Nat.succ_pos k))
    · rename_i hne
      -- The later shifts are those of the search from the next value.
      rw [ih]
      constructor
      · rintro ⟨k, hk, rfl, hback, hfirst⟩
        refine ⟨k + 1, Nat.succ_lt_succ hk, by omega, hback, ?_⟩
        intro j hj
        cases j with
        | zero => exact hne
        | succ j => exact hfirst j (Nat.lt_of_succ_lt_succ hj)
      · rintro ⟨k, hk, rfl, hback, hfirst⟩
        cases k with
        | zero => exact absurd hback hne
        | succ k =>
          exact ⟨k, Nat.lt_of_succ_lt_succ hk, by omega, hback,
            fun j hj => hfirst (j + 1) (Nat.succ_lt_succ hj)⟩

private theorem period?_eq_some_iff_isLeast : r.period? = some n ↔
    n ≤ 2 ^ r.width ∧ IsLeast {n | 0 < n ∧ (next r.width r.poly)^[n] 1 = 1} n := by
  rw [period?, findReturn_eq_some_iff]
  constructor
  · rintro ⟨k, hk, rfl, hfirst⟩
    rw [Nat.zero_add]
    exact ⟨hk, isLeast_positive_iff.mpr hfirst⟩
  · rintro ⟨hle, hleast⟩
    obtain ⟨k, rfl⟩ := Nat.exists_eq_succ_of_ne_zero hleast.1.1.ne'
    exact ⟨k, hle, (Nat.zero_add _).symm, isLeast_positive_iff.mp hleast⟩

namespace Sound

private theorem one_lt (h : r.Sound) : (1 : UInt64).toNat < 2 ^ r.width :=
  Nat.one_lt_two_pow h.modulus.pos.ne'

private theorem one_le_round (h : r.Sound) : 1 ≤ 2 ^ r.width - 1 := Nat.sub_pos_of_lt h.one_lt

theorem set_value (h : r.Sound) (hlt : value.toNat < 2 ^ r.width) : (r.set value).value = value := by
  rw [← UInt64.toNat_inj, h.toNat_set, Nat.mod_eq_of_lt hlt]

private theorem shiftMany_set_one_eq_one_iff (h : r.Sound) (n : Nat) :
    ((r.set 1).shiftMany n).value = 1 ↔ (next r.width r.poly)^[n] 1 = 1 := by
  rw [shiftMany_eq]
  show (next r.width r.poly)^[n] (r.set 1).value = 1 ↔ _
  rw [h.set_value h.one_lt]

private theorem iterate_next_eq_one_iff (h : r.Sound) (n : Nat) : (next r.width r.poly)^[n] 1 = 1 ↔
    (doubled r.width r.poly.toNat)^[n] 1 = 1 := by
  rw [← UInt64.toNat_inj, toNat_iterate_next h.le h.modulus h.one_lt]
  rfl

/-- The bound of the search hides no period. -/
theorem period?_eq_some_iff (h : r.Sound) : r.period? = some n ↔
    0 < n ∧ minimalPeriod (doubled r.width r.poly.toNat) 1 = n := by
  rw [period?_eq_some_iff_isLeast]
  simp only [h.iterate_next_eq_one_iff, isLeast_return_iff]
  -- Any return comes before the values run out.
  refine and_iff_right_of_imp ?_
  rintro ⟨hn, rfl⟩
  have hodd := h.modulus.minimalPeriod_one_pos_iff.mp hn
  exact (h.modulus.minimalPeriod_one_pos_and_le hodd).2.trans (Nat.sub_le _ 1)

theorem isMaximal_iff (h : r.Sound) : r.isMaximal = true ↔
    minimalPeriod (doubled r.width r.poly.toNat) 1 = 2 ^ r.width - 1 := by
  rw [isMaximal, decide_eq_true_eq, h.period?_eq_some_iff]
  exact and_iff_right h.one_le_round

end Sound

end Search

section Rounds

variable {r : ShiftRegister}

private theorem FullRound.isLeast (h : r.FullRound) (hpos : 1 ≤ 2 ^ r.width - 1) (hne : r.value ≠ 0)
    (hlt : r.value.toNat < 2 ^ r.width) :
    IsLeast {n | 0 < n ∧ (r.shiftMany n).value = r.value} (2 ^ r.width - 1) := by
  refine ⟨⟨hpos, h.back⟩, ?_⟩
  rintro n ⟨hn, hback⟩
  apply Nat.le_of_not_lt
  intro hearly
  have hsame := (h.once r.value hne hlt).unique ⟨⟨hn, hearly.le⟩, hback⟩
    ⟨⟨hpos, le_rfl⟩, h.back⟩
  exact hearly.ne hsame

namespace Sound

private theorem value_mem_nonzero (h : r.Sound) (hne : r.value ≠ 0) :
    r.value.toNat ∈ nonzero r.width :=
  mem_nonzero.mpr ⟨fun hzero => hne (UInt64.toNat_inj.mp hzero), h.value_lt⟩

private theorem fullRound_of_period (h : r.Sound) (hodd : r.poly.toNat.testBit 0 = true)
    (hne : r.value ≠ 0)
    (hperiod : minimalPeriod (doubled r.width r.poly.toNat) r.value.toNat = 2 ^ r.width - 1) :
    r.FullRound := by
  have hcard := hperiod.trans (card_nonzero r.width).symm
  constructor
  · intro value hvalue hlt
    have hmem : value.toNat ∈ nonzero r.width :=
      mem_nonzero.mpr ⟨fun hzero => hvalue (UInt64.toNat_inj.mp hzero), hlt⟩
    simp only [← UInt64.toNat_inj, h.toNat_shiftMany, ← card_nonzero]
    exact existsUnique_iterate_positive (h.modulus.doubled_mem_nonzero hodd)
      (h.value_mem_nonzero hne) hcard hmem
  · rw [← UInt64.toNat_inj, h.toNat_shiftMany, ← hperiod]
    exact iterate_minimalPeriod

/-- The round of one has every value in it, so that the round of any other value is as long. -/
theorem isMaximal_iff_fullRound (h : r.Sound) : r.isMaximal = true ↔
    ∀ start : UInt64, start ≠ 0 → start.toNat < 2 ^ r.width → (r.set start).FullRound := by
  rw [h.isMaximal_iff]
  constructor
  · intro hperiod start hne hlt
    have hpos : 0 < minimalPeriod (doubled r.width r.poly.toNat) 1 := hperiod ▸ h.one_le_round
    have hodd := h.modulus.minimalPeriod_one_pos_iff.mp hpos
    have hset := h.set_value hlt
    obtain ⟨n, ⟨-, hn⟩, -⟩ := existsUnique_iterate (h.modulus.doubled_mem_nonzero hodd)
      h.modulus.one_mem_nonzero (hperiod.trans (card_nonzero r.width).symm)
      ((h.set start).value_mem_nonzero (hset.symm ▸ hne))
    apply (h.set start).fullRound_of_period hodd (hset.symm ▸ hne)
    rw [← hn]
    exact (minimalPeriod_apply_iterate (minimalPeriod_pos_iff_mem_periodicPts.mp hpos) n).trans
      hperiod
  · intro hround
    have hset := h.set_value h.one_lt
    have hleast := (hround 1 (by decide) h.one_lt).isLeast h.one_le_round
      (hset.symm ▸ (by decide)) (h.set 1).value_lt
    simp only [hset, h.shiftMany_set_one_eq_one_iff, h.iterate_next_eq_one_iff] at hleast
    exact (isLeast_return_iff.mp hleast).2

end Sound

end Rounds

/-- For every accepted register, whatever its value is. -/
theorem period_search_decides {width : Nat} {taps value : UInt64} {r : ShiftRegister}
    (h : ofTaps? width taps value = .ok r) :
    (r.period?.isSome = true ↔ taps.toNat.testBit 0 = true) ∧
    (∀ p, r.period? = some p →
      IsLeast {n | 0 < n ∧ ((r.set 1).shiftMany n).value = 1} p ∧ 1 ≤ p ∧ p ≤ 2 ^ width - 1) ∧
    (taps.toNat.testBit 0 = false → ∀ n, 0 < n → ((r.set 1).shiftMany n).value ≠ 1) ∧
    (r.isMaximal = true ↔
      ∀ start : UInt64, start ≠ 0 → start.toNat < 2 ^ width → (r.set start).FullRound) ∧
    ∀ v : UInt64, { r with value := v }.period? = r.period? ∧
      { r with value := v }.isMaximal = r.isMaximal := by
  have hmade := made_ofTaps? h
  have hsound := hmade.sound
  have hodd : r.poly.toNat.testBit 0 = taps.toNat.testBit 0 := by
    have hwidth : 0 ≠ width := (Nat.lt_of_lt_of_le Nat.two_pos hmade.two_le).ne
    rw [hmade.poly_eq, Nat.testBit_or, Nat.testBit_two_pow_of_ne hwidth.symm, Bool.or_false]
  refine ⟨?_, ?_, ?_, ?_, fun v => ⟨rfl, rfl⟩⟩
  · rw [Option.isSome_iff_exists, ← hodd, ← hsound.modulus.minimalPeriod_one_pos_iff]
    simp only [hsound.period?_eq_some_iff, exists_eq_right']
  · intro p hp
    have hpos := hsound.period?_eq_some_iff.mp hp
    have hle := (hsound.modulus.minimalPeriod_one_pos_and_le
      (hsound.modulus.minimalPeriod_one_pos_iff.mp (hpos.2.symm ▸ hpos.1))).2
    simp only [hsound.shiftMany_set_one_eq_one_iff]
    exact ⟨(period?_eq_some_iff_isLeast.mp hp).2, hpos.1, hpos.2 ▸ hmade.width_eq ▸ hle⟩
  · intro heven n hn hone
    rw [hsound.shiftMany_set_one_eq_one_iff, hsound.iterate_next_eq_one_iff] at hone
    exact hsound.modulus.iterate_doubled_ne_one (hodd.trans heven) hsound.one_lt hn hone
  · rw [← hmade.width_eq]
    exact hsound.isMaximal_iff_fullRound

/-- Five values of the sixteen lie on the round of one, where all the inner taps are set. -/
theorem period_search_decides_five :
    let r : ShiftRegister := ⟨4, 0x1f, 9⟩
    ofTaps? 4 0xf 9 = .ok r ∧ r.period? = some 5 ∧
      IsLeast {n | 0 < n ∧ ((r.set 1).shiftMany n).value = 1} 5 ∧
      ¬ ∀ start : UInt64, start ≠ 0 → start.toNat < 2 ^ 4 → (r.set start).FullRound := by
  intro r
  have hr : ofTaps? 4 0xf 9 = .ok r := by decide
  have hperiod : r.period? = some 5 := by decide
  obtain ⟨-, hleast, -, hmaximal, -⟩ := period_search_decides hr
  refine ⟨hr, hperiod, (hleast 5 hperiod).1, ?_⟩
  rw [← hmaximal]
  decide

end LogBench.ShiftRegister
