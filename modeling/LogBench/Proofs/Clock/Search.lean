import LogBench.Clock.Ratio
import LogBench.Power
import Mathlib.Data.Nat.GCD.Basic

/-!
How a search for a ratio goes, whatever its judge says. The ends of a bracket stay neighbours, so mediants
are in lowest terms; mediants grow, so that before long one does not fit. Only what fits is found.
-/
namespace LogBench.Clock

variable {verdict : Ratio → Verdict} {limit n k : Nat} {r s : Ratio} {b b' : Bracket}
  {found : Option Ratio}

namespace Ratio

private theorem fits_iff :
    r.fits limit = true ↔ r.numerator ≤ limit ∧ r.denominator ≤ r.numerator + limit := by
  simp only [fits, Bool.and_eq_true, decide_eq_true_eq]
  simp only [settings]
  omega

/-- The cross products of two ratios, the smaller one first, differ by one. -/
structure Neighbours (r s : Ratio) : Prop where
  cross : s.numerator * r.denominator = r.numerator * s.denominator + 1

namespace Neighbours

private theorem mediant_right (h : Neighbours r s) : Neighbours r (r.mediant s) := by
  constructor
  rw [mediant, Nat.add_mul, Nat.mul_add, h.cross, Nat.add_assoc]

private theorem mediant_left (h : Neighbours r s) : Neighbours (r.mediant s) s := by
  constructor
  rw [mediant, Nat.add_mul, Nat.mul_add, h.cross, Nat.add_right_comm]

/-- Nothing but one divides both cross products. -/
private theorem eq_one_of_dvd (h : Neighbours r s) {m : Nat} (hm : m ∣ s.numerator * r.denominator)
    (hm' : m ∣ r.numerator * s.denominator) : m = 1 := by
  rw [h.cross] at hm
  exact Nat.eq_one_of_dvd_one ((Nat.dvd_add_right hm').mp hm)

private theorem coprime_left (h : Neighbours r s) : Nat.Coprime r.numerator r.denominator :=
  h.eq_one_of_dvd (Dvd.dvd.mul_left (Nat.gcd_dvd_right ..) _) (Dvd.dvd.mul_right (Nat.gcd_dvd_left ..) _)

private theorem coprime_right (h : Neighbours r s) : Nat.Coprime s.numerator s.denominator :=
  h.eq_one_of_dvd (Dvd.dvd.mul_right (Nat.gcd_dvd_left ..) _) (Dvd.dvd.mul_left (Nat.gcd_dvd_right ..) _)

private theorem cross_pos (h : Neighbours r s) : 0 < s.numerator * r.denominator := by
  rw [h.cross]
  exact Nat.succ_pos _

private theorem denominator_pos (h : Neighbours r s) : 0 < r.denominator :=
  Nat.pos_of_mul_pos_left h.cross_pos

private theorem numerator_pos (h : Neighbours r s) : 0 < s.numerator :=
  Nat.pos_of_mul_pos_right h.cross_pos

end Neighbours

/-- A positive ratio in lowest terms whose settings stay below the limit. -/
structure Usable (limit : Nat) (r : Ratio) : Prop where
  coprime : Nat.Coprime r.numerator r.denominator
  numerator_pos : 1 ≤ r.numerator
  denominator_pos : 1 ≤ r.denominator
  fits : r.fits limit = true

end Ratio

namespace Bracket

private theorem probe_narrowed (h : b.probe verdict limit = .narrowed b') :
    b.middle.fits limit = true ∧ (verdict b.middle = .above ∧ b' = ⟨b.low, b.middle⟩ ∨
      verdict b.middle = .below ∧ b' = ⟨b.middle, b.high⟩) := by
  simp only [probe] at h
  split at h
  · rename_i hfits
    cases hverdict : verdict b.middle with
    | close =>
      rw [hverdict] at h
      cases h
    | above =>
      rw [hverdict] at h
      cases h
      exact ⟨hfits, .inl ⟨rfl, rfl⟩⟩
    | below =>
      rw [hverdict] at h
      cases h
      exact ⟨hfits, .inr ⟨rfl, rfl⟩⟩
  · cases h

private theorem probe_settled (h : b.probe verdict limit = .settled found) :
    b.middle.fits limit = true ∧ verdict b.middle = .close ∧ found = some b.middle ∨
      b.middle.fits limit = false ∧ found = b.lowest? := by
  simp only [probe] at h
  split at h
  · rename_i hfits
    cases hverdict : verdict b.middle with
    | close =>
      rw [hverdict] at h
      cases h
      exact .inl ⟨hfits, rfl, rfl⟩
    | above =>
      rw [hverdict] at h
      cases h
    | below =>
      rw [hverdict] at h
      cases h
  · rename_i hfits
    cases h
    exact .inr ⟨eq_false_of_ne_true hfits, rfl⟩

inductive Reached (judge : Ratio → Verdict) (limit : Nat) : Nat → Bracket → Prop where
  | whole : Reached judge limit 0 whole
  | narrowed {n : Nat} {b b' : Bracket} : Reached judge limit n b →
      b.probe judge limit = .narrowed b' → Reached judge limit (n + 1) b'

/-- The ends are neighbours, and those that a search has put there fit. -/
structure Sound (limit : Nat) (b : Bracket) : Prop where
  neighbours : b.low.Neighbours b.high
  low : b.low = whole.low ∨ b.low.fits limit = true
  high : b.high = whole.high ∨ b.high.fits limit = true

namespace Sound

private theorem whole : Sound limit whole :=
  ⟨⟨rfl⟩, .inl rfl, .inl rfl⟩

private theorem narrowed (h : Sound limit b) (hprobe : b.probe verdict limit = .narrowed b') :
    Sound limit b' := by
  obtain ⟨hfits, ⟨-, rfl⟩ | ⟨-, rfl⟩⟩ := probe_narrowed hprobe
  · exact ⟨h.neighbours.mediant_right, h.low, .inr hfits⟩
  · exact ⟨h.neighbours.mediant_left, .inr hfits, h.high⟩

private theorem middle_usable (h : Sound limit b) (hfits : b.middle.fits limit = true) :
    b.middle.Usable limit where
  coprime := h.neighbours.mediant_right.coprime_right
  numerator_pos := h.neighbours.mediant_right.numerator_pos
  denominator_pos := h.neighbours.mediant_left.denominator_pos
  fits := hfits

private theorem low_usable (h : Sound limit b) (hlow : b.low.numerator ≠ 0) :
    b.low.Usable limit where
  coprime := h.neighbours.coprime_left
  numerator_pos := Nat.one_le_iff_ne_zero.mpr hlow
  denominator_pos := h.neighbours.denominator_pos
  fits := h.low.resolve_left fun hwhole => hlow (congrArg Ratio.numerator hwhole)

/-- The sums that make up the next mediant stay small as well, though it may not fit. -/
private theorem middle_le (h : Sound limit b) :
    b.middle.numerator ≤ 2 * limit + 1 ∧ b.middle.denominator ≤ 4 * limit + 1 := by
  have hlow : b.low.numerator ≤ limit ∧ b.low.denominator ≤ 2 * limit + 1 := by
    rcases h.low with hwhole | hfits
    · rw [hwhole]
      exact ⟨Nat.zero_le _, Nat.le_add_left ..⟩
    · have hle := Ratio.fits_iff.mp hfits
      omega
  have hhigh : b.high.numerator ≤ limit + 1 ∧ b.high.denominator ≤ 2 * limit := by
    rcases h.high with hwhole | hfits
    · rw [hwhole]
      exact ⟨Nat.le_add_left .., Nat.zero_le _⟩
    · have hle := Ratio.fits_iff.mp hfits
      omega
  simp only [middle, Ratio.mediant]
  omega

/-- What is found, at either exit of a search. -/
private theorem usable (h : Sound limit b) (hprobe : b.probe verdict limit = .settled (some r)) :
    r.Usable limit := by
  rcases probe_settled hprobe with ⟨hfits, -, hfound⟩ | ⟨-, hfound⟩
  · cases hfound
    exact h.middle_usable hfits
  · unfold lowest? at hfound
    split at hfound
    · cases hfound
    · rename_i hlow
      cases hfound
      exact h.low_usable hlow

end Sound

private theorem Reached.sound (h : Reached verdict limit n b) : Sound limit b := by
  induction h with
  | whole => exact .whole
  | narrowed _ hprobe ih => exact ih.narrowed hprobe

/-- Each mediant has a sum of numerator and denominator above that of the one before. -/
private theorem Reached.le_middle (h : Reached verdict limit n b) :
    n + 2 ≤ b.middle.numerator + b.middle.denominator := by
  induction h with
  | whole => exact Nat.le_refl 2
  | narrowed h hprobe ih =>
    have hlow := h.sound.neighbours.denominator_pos
    have hhigh := h.sound.neighbours.numerator_pos
    obtain ⟨-, ⟨-, rfl⟩ | ⟨-, rfl⟩⟩ := probe_narrowed hprobe
    all_goals
      simp only [middle, Ratio.mediant] at ih ⊢
      omega

/-- A mediant that fits is not large, so no search is narrowed more often than this. -/
private theorem Reached.le (h : Reached verdict limit n b) : n ≤ 3 * limit := by
  cases h with
  | whole => exact Nat.zero_le _
  | narrowed h hprobe =>
    have hle := h.le_middle
    obtain ⟨hnum, hden⟩ := Ratio.fits_iff.mp (probe_narrowed hprobe).1
    omega

/-- A search with enough mediants left is settled by one of them. -/
private theorem Reached.exists_settled (h : Reached verdict limit n b) (hk : 3 * limit < n + k) :
    ∃ m b' found, Reached verdict limit m b' ∧ b'.probe verdict limit = .settled found ∧
      b.search verdict limit k = .settled found := by
  induction k generalizing n b with
  | zero => exact absurd h.le (Nat.not_le_of_lt hk)
  | succ k ih =>
    cases hprobe : b.probe verdict limit with
    | settled found =>
      refine ⟨n, b, found, h, hprobe, ?_⟩
      rw [search, hprobe]
    | narrowed b' =>
      have hsearch : b.search verdict limit (k + 1) = b'.search verdict limit k := by
        rw [search, hprobe]
      rw [hsearch]
      exact ih (h.narrowed hprobe) (by omega)

/-- The mediants left to a search are never used up. -/
theorem exists_settled_search? (verdict : Ratio → Verdict) (limit : Nat) :
    ∃ n b, Reached verdict limit n b ∧ b.probe verdict limit = .settled (Ratio.search? verdict limit) := by
  have hwhole : Reached verdict limit 0 whole := .whole
  obtain ⟨n, b, found, hreached, hprobe, hsearch⟩ :=
    hwhole.exists_settled (k := 3 * limit + 2) (by omega)
  refine ⟨n, b, hreached, ?_⟩
  rw [Ratio.search?, hsearch]
  exact hprobe

private theorem usable_of_search? (h : Ratio.search? verdict limit = some r) : r.Usable limit := by
  obtain ⟨n, b, hreached, hprobe⟩ := exists_settled_search? verdict limit
  rw [h] at hprobe
  exact hreached.sound.usable hprobe

end Bracket

/-- For every number, also one that compares with nothing. A search that has come to a bracket after `n`
mediants takes one more there. -/
theorem search_ends_reduced (f : Float) (max : UInt16) :
    (∃ n b, n + 1 ≤ 3 * max.toNat + 1 ∧ Bracket.Reached (judge f max.toNat) max.toNat n b ∧
      b.probe (judge f max.toNat) max.toNat = .settled (Ratio.closest? f max.toNat)) ∧
    (∀ n b, Bracket.Reached (judge f max.toNat) max.toNat n b →
      n + 1 ≤ 3 * max.toNat + 1 ∧
      b.middle.numerator < 2 ^ 32 ∧ b.middle.denominator < 2 ^ 32 ∧
      (b.high.numerator * b.low.denominator - b.low.numerator * b.high.denominator : Int) = 1) ∧
    ∀ r, Ratio.closest? f max.toNat = some r →
      Nat.gcd r.numerator r.denominator = 1 ∧
      1 ≤ r.numerator ∧ r.numerator ≤ max.toNat ∧
      1 ≤ r.denominator ∧ r.denominator ≤ r.numerator + max.toNat ∧
      0 ≤ r.settings.adder ∧ r.settings.adder < max.toNat ∧
      -max.toNat ≤ r.settings.subtractor ∧ r.settings.subtractor < max.toNat := by
  have hmax := max.toNat_lt
  refine ⟨?_, ?_, ?_⟩
  · obtain ⟨n, b, hreached, hprobe⟩ := Bracket.exists_settled_search? (judge f max.toNat) max.toNat
    exact ⟨n, b, Nat.succ_le_succ hreached.le, hreached, hprobe⟩
  · intro n b hreached
    have hcross := hreached.sound.neighbours.cross
    obtain ⟨hnum, hden⟩ := hreached.sound.middle_le
    refine ⟨Nat.succ_le_succ hreached.le, by omega, by omega, ?_⟩
    have hcast := congrArg (Nat.cast (R := Int)) hcross
    push_cast at hcast
    omega
  · intro r hfound
    have husable := Bracket.usable_of_search? hfound
    obtain ⟨hnum, hden⟩ := Ratio.fits_iff.mp husable.fits
    have hnum' := husable.numerator_pos
    have hden' := husable.denominator_pos
    refine ⟨husable.coprime, hnum', hnum, hden', hden, ?_⟩
    simp only [Ratio.settings]
    omega

/-- One search that ends close enough to its number, and one that ends where no mediant fits. -/
theorem search_ends_reduced_samples :
    Ratio.closest? 1.54 200 = some ⟨77, 50⟩ ∧ Nat.gcd 77 50 = 1 ∧
      -200 ≤ (⟨77, 50⟩ : Ratio).settings.subtractor ∧
    Ratio.closest? (0.0 / 0.0) 20 = some ⟨20, 1⟩ ∧ Nat.gcd 20 1 = 1 ∧
      (⟨20, 1⟩ : Ratio).settings.adder < 20 ∧
    Bracket.whole.middle.numerator < 2 ^ 32 := by
  have hclose : Ratio.closest? 1.54 200 = some ⟨77, 50⟩ := by decide +kernel
  have hlast : Ratio.closest? (0.0 / 0.0) 20 = some ⟨20, 1⟩ := by decide +kernel
  obtain ⟨-, hsteps, hfound⟩ := search_ends_reduced 1.54 200
  obtain ⟨hcoprime, -, -, -, -, -, -, hsubtractor, -⟩ := hfound _ hclose
  obtain ⟨-, -, hfound'⟩ := search_ends_reduced (0.0 / 0.0) 20
  obtain ⟨hcoprime', -, -, -, -, -, hadder, -, -⟩ := hfound' _ hlast
  exact ⟨hclose, hcoprime, hsubtractor, hlast, hcoprime', hadder, (hsteps 0 _ .whole).2.1⟩

end LogBench.Clock
