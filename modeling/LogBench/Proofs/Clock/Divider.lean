import LogBench.Clock.Divider
import Mathlib.Algebra.Field.Rat

/-!
Which ratios have a divider, and what its word keeps of it. A divider made from a ratio lets through exactly
that share of the clocks, and its settings are read back from the word; so is every word from its divider.
-/
namespace LogBench.Clock.Divider

variable {n : Nat} {r : Ratio} {d : Divider} {half : UInt16}

private theorem halfWord?_eq_some_iff : halfWord? n = some half ↔ half.toNat = n := by
  unfold halfWord?
  split
  · rename_i hlt
    rw [Option.some_inj, ← UInt16.toNat_inj, UInt16.toNat_ofNat', Nat.mod_eq_of_lt hlt]
    exact eq_comm
  · rename_i hlt
    have hhalf := half.toNat_lt
    constructor
    · intro h
      cases h
    · rintro rfl
      exact absurd hhalf hlt

private theorem surplus?_eq_some_iff : surplus? r = some n ↔ r.numerator = r.denominator + n := by
  unfold surplus?
  split
  · rw [Option.some_inj]
    omega
  · constructor
    · intro h
      cases h
    · omega

/-- Both settings stand for numbers of the ratio, so the ratio bounds what they can be. -/
theorem ofRatio?_eq_some_iff : ofRatio? r = some d ↔
    r.numerator = r.denominator + d.adder.toNat ∧ r.denominator = d.subtractor.toNat ∧
      0 < r.denominator ∧ r.denominator ≤ maxSubtractor ∧ d.fractional = true := by
  obtain ⟨adder, subtractor, fractional⟩ := d
  simp only [ofRatio?, Option.bind_eq_bind, Option.bind_eq_some_iff, surplus?_eq_some_iff,
    halfWord?_eq_some_iff]
  constructor
  · rintro ⟨_, hn, a, rfl, s, hs, hd⟩
    split at hd
    · cases hd
    · rename_i hfits
      cases hd
      refine ⟨hn, hs.symm, ?_, ?_, rfl⟩ <;> omega
  · rintro ⟨hn, hd, hpos, hle, rfl⟩
    refine ⟨_, hn, adder, rfl, subtractor, hd.symm, ?_⟩
    rw [if_neg (by omega)]

private theorem exists_ofRatio?_iff : (∃ d, ofRatio? r = some d) ↔
    1 ≤ r.denominator ∧ r.denominator ≤ maxSubtractor ∧ r.denominator ≤ r.numerator ∧
      r.numerator ≤ r.denominator + 0xFFFF := by
  simp only [ofRatio?_eq_some_iff]
  constructor
  · rintro ⟨d, hn, -, hpos, hle, -⟩
    have hadder := d.adder.toNat_lt
    omega
  · rintro ⟨hpos, hle, hge, hsum⟩
    have hadder : (UInt16.ofNat (r.numerator - r.denominator)).toNat = r.numerator - r.denominator :=
      UInt16.toNat_ofNat_of_lt' (by simp only [UInt16.size]; omega)
    have hsubtractor : (UInt16.ofNat r.denominator).toNat = r.denominator :=
      UInt16.toNat_ofNat_of_lt' (by simp only [UInt16.size, maxSubtractor] at *; omega)
    refine ⟨⟨.ofNat (r.numerator - r.denominator), .ofNat r.denominator, true⟩, ?_, hsubtractor.symm,
      hpos, hle, rfl⟩
    rw [hadder]
    omega

/-- The fields lie side by side in the word; of the subtractor its highest bit is left out. -/
theorem toNat_toWord (d : Divider) : d.toWord.toNat =
    d.adder.toNat + 2 ^ 16 * (d.subtractor.toNat % 2 ^ 15) + 2 ^ 31 * d.fractional.toNat := by
  have hadder := d.adder.toNat_lt
  have hfractional := Bool.toNat_le d.fractional
  unfold toWord
  rw [UInt32.toNat_ofNat']
  apply Nat.mod_eq_of_lt
  omega

private theorem ofWord_toWord (d : Divider) :
    ofWord d.toWord = { d with subtractor := .ofNat (d.subtractor.toNat % 2 ^ 15) } := by
  have hadder := d.adder.toNat_lt
  have hfractional := Bool.toNat_le d.fractional
  have hword := d.toNat_toWord
  have h0 : d.toWord.toNat % 2 ^ 16 = d.adder.toNat := by omega
  have h1 : d.toWord.toNat / 2 ^ 16 % 2 ^ 15 = d.subtractor.toNat % 2 ^ 15 := by omega
  have h2 : d.toWord.toNat / 2 ^ 31 = d.fractional.toNat := by omega
  have hdecide : decide (d.fractional.toNat = 1) = d.fractional := by cases d.fractional <;> rfl
  simp only [ofWord, h0, h1, h2, hdecide, UInt16.ofNat_toNat]

/-- A divider is read back unless its subtractor is too large. -/
theorem ofWord_toWord_eq_iff : ofWord d.toWord = d ↔ d.subtractor.toNat ≤ maxSubtractor := by
  have hsubtractor := d.subtractor.toNat_lt
  have hsame : ofWord d.toWord = d ↔ d.subtractor.toNat % 2 ^ 15 = d.subtractor.toNat := by
    rw [ofWord_toWord]
    obtain ⟨adder, subtractor, fractional⟩ := d
    simp only [mk.injEq, true_and, and_true, ← UInt16.toNat_inj, UInt16.toNat_ofNat']
    omega
  rw [hsame, maxSubtractor]
  omega

/-- No bit of a word is left out by its fields. -/
theorem toWord_ofWord (word : UInt32) : (ofWord word).toWord = word := by
  have hlt := word.toNat_lt
  have hfractional : (decide (word.toNat / 2 ^ 31 = 1)).toNat = word.toNat / 2 ^ 31 := by
    have htop : word.toNat / 2 ^ 31 = 0 ∨ word.toNat / 2 ^ 31 = 1 := by omega
    rcases htop with h | h <;> rw [h] <;> rfl
  rw [← UInt32.toNat_inj, toNat_toWord]
  simp only [ofWord, hfractional, UInt16.toNat_ofNat']
  omega

/-- The number of clocks to an output, on average, is the ratio. -/
theorem period_of_ofRatio? (h : ofRatio? r = some d) :
    ((d.adder.toNat + d.subtractor.toNat : Nat) : ℚ) / d.subtractor.toNat =
      r.numerator / r.denominator := by
  obtain ⟨hn, hd, -⟩ := ofRatio?_eq_some_iff.mp h
  rw [hn, ← hd, Nat.add_comm]

/-- Ratios and their dividers, and dividers and their words. -/
theorem ratio_divider_exact :
    (∀ numerator denominator : UInt32,
      let r : Ratio := ⟨numerator.toNat, denominator.toNat⟩
      ((∃ d, ofRatio? r = some d) ↔
        1 ≤ r.denominator ∧ r.denominator ≤ 0x7FFF ∧
          r.denominator ≤ r.numerator ∧ r.numerator ≤ r.denominator + 0xFFFF) ∧
      ∀ d, ofRatio? r = some d →
        d.fractional = true ∧ 0 < d.subtractor.toNat ∧
        (d.adder.toNat + d.subtractor.toNat) * r.denominator = r.numerator * d.subtractor.toNat ∧
        ((d.adder.toNat + d.subtractor.toNat : Nat) : ℚ) / d.subtractor.toNat =
          r.numerator / r.denominator ∧
        ofWord d.toWord = d) ∧
    (∀ word : UInt32, (ofWord word).toWord = word) ∧
    ∀ d : Divider, ofWord d.toWord = d ↔ d.subtractor.toNat ≤ 0x7FFF := by
  refine ⟨fun numerator denominator => ⟨exists_ofRatio?_iff, fun d h => ?_⟩, toWord_ofWord,
    fun d => ofWord_toWord_eq_iff⟩
  obtain ⟨hn, hd, hpos, hle, hfractional⟩ := ofRatio?_eq_some_iff.mp h
  refine ⟨hfractional, hd ▸ hpos, ?_, period_of_ofRatio? h, ofWord_toWord_eq_iff.mpr (hd ▸ hle)⟩
  rw [hn, ← hd, Nat.add_comm]

/-- The largest settings that fit, and a word of the largest subtractor that does not. -/
theorem ratio_divider_exact_widest :
    ofRatio? ⟨0x17FFE, 0x7FFF⟩ = some ⟨0xFFFF, 0x7FFF, true⟩ ∧
    (0xFFFF + 0x7FFF) * 0x7FFF = 0x17FFE * 0x7FFF ∧
    ofWord (toWord ⟨0xFFFF, 0x7FFF, true⟩) = ⟨0xFFFF, 0x7FFF, true⟩ ∧
    ofRatio? ⟨0x17FFF, 0x8000⟩ = none ∧ ofWord (toWord ⟨0xFFFF, 0x8000, true⟩) ≠ ⟨0xFFFF, 0x8000, true⟩ := by
  have hfits : ofRatio? ⟨0x17FFE, 0x7FFF⟩ = some ⟨0xFFFF, 0x7FFF, true⟩ := by decide
  obtain ⟨-, -, hcross, -, hback⟩ := (ratio_divider_exact.1 0x17FFE 0x7FFF).2 _ hfits
  refine ⟨hfits, hcross, hback, by decide, fun hword => ?_⟩
  exact absurd ((ratio_divider_exact.2.2 _).mp hword) (by decide)

end LogBench.Clock.Divider
