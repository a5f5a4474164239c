import LogBench.Proofs.Text.Numeral
import LogBench.Text.Hex

/-! Bytes that are written as pairs of hexadecimal digits, each in either case, are read back, with gaps
anywhere between the digits; and nothing else is read. -/
namespace LogBench.Hex
open Numeral Text

variable {text digits : List Char} {bytes : List UInt8} {c : Char}

section Pairs

/-- The digit pairs of a byte string, the more significant digit first, each digit in either case. -/
inductive Spelled : List Char → List UInt8 → Prop where
  | nil : Spelled [] []
  | cons {high low : Char} {b : UInt8} {digits : List Char} {bytes : List UInt8} :
      IsHexDigit high (b.toNat / 16) → IsHexDigit low (b.toNat % 16) → Spelled digits bytes →
      Spelled (high :: low :: digits) (b :: bytes)

private theorem Spelled.pair {high low : Char} {m n : Nat} (hhigh : IsHexDigit high m)
    (hlow : IsHexDigit low n) (h : Spelled digits bytes) :
    Spelled (high :: low :: digits) (UInt8.ofNat (16 * m + n) :: bytes) := by
  have hm : m < 16 := hhigh.1
  have hn : n < 16 := hlow.1
  have hbyte : (UInt8.ofNat (16 * m + n)).toNat = 16 * m + n := by
    rw [UInt8.toNat_ofNat']
    omega
  refine .cons ?_ ?_ h
  · rwa [hbyte, Nat.mul_add_div (by decide), Nat.div_eq_of_lt hn, Nat.add_zero]
  · rwa [hbyte, Nat.mul_add_mod, Nat.mod_eq_of_lt hn]

private theorem spelled_write (bytes : List UInt8) : Spelled (write bytes) bytes := by
  induction bytes with
  | nil => exact .nil
  | cons b rest ih =>
    have hb := b.toNat_lt
    have hwrite : write (b :: rest) = spell b ++ write rest := List.flatMap_cons
    rw [hwrite]
    exact .cons ⟨by omega, .inl rfl⟩ ⟨by omega, .inl rfl⟩ ih

theorem Spelled.readPairs? (h : Spelled digits bytes) : readPairs? digits = some bytes := by
  induction h with
  | nil => rfl
  | @cons high low b digits bytes hhigh hlow _ ih =>
    have hbyte : UInt8.ofNat (16 * (b.toNat / 16) + b.toNat % 16) = b := by
      rw [Nat.div_add_mod, UInt8.ofNat_toNat]
    rw [Hex.readPairs?, digitValue?_sixteen.mpr hhigh, digitValue?_sixteen.mpr hlow, ih]
    exact congrArg (some <| · :: bytes) hbyte

private theorem spelled_of_readPairs? (h : readPairs? digits = some bytes) :
    Spelled digits bytes := by
  induction digits using readPairs?.induct generalizing bytes with
  | case1 =>
    cases h
    exact .nil
  | case2 => cases h
  | case3 high low rest ih =>
    simp only [readPairs?, Option.bind_eq_bind, Option.bind_eq_some_iff, digitValue?_sixteen] at h
    obtain ⟨m, hhigh, n, hlow, others, hrest, hbytes⟩ := h
    cases hbytes
    exact .pair hhigh hlow (ih hrest)

private theorem readPairs?_eq_some_iff : readPairs? digits = some bytes ↔ Spelled digits bytes :=
  ⟨spelled_of_readPairs?, Spelled.readPairs?⟩

theorem Spelled.isHexDigit (h : Spelled digits bytes) (hc : c ∈ digits) : ∃ d, IsHexDigit c d := by
  induction h with
  | nil => cases hc
  | cons hhigh hlow _ ih =>
    rcases List.mem_cons.mp hc with rfl | hc
    · exact ⟨_, hhigh⟩
    · rcases List.mem_cons.mp hc with rfl | hc
      · exact ⟨_, hlow⟩
      · exact ih hc

private theorem Spelled.length_eq (h : Spelled digits bytes) :
    digits.length = 2 * bytes.length := by
  induction h with
  | nil => rfl
  | cons _ _ _ ih => rw [List.length_cons, List.length_cons, List.length_cons, ih, Nat.mul_succ]

/-- Every even number of digits spells some bytes. -/
theorem exists_spelled_iff : (∃ bytes, Spelled digits bytes) ↔
    digits.length % 2 = 0 ∧ ∀ c ∈ digits, ∃ d, IsHexDigit c d := by
  constructor
  · rintro ⟨bytes, h⟩
    refine ⟨?_, fun c => h.isHexDigit⟩
    rw [h.length_eq, Nat.mul_mod_right]
  · rintro ⟨heven, hdigits⟩
    induction digits using readPairs?.induct with
    | case1 => exact ⟨[], .nil⟩
    | case2 => cases heven
    | case3 high low rest ih =>
      rw [List.forall_mem_cons, List.forall_mem_cons] at hdigits
      obtain ⟨⟨m, hhigh⟩, ⟨n, hlow⟩, hrest⟩ := hdigits
      have heven' : rest.length % 2 = 0 := by
        rw [List.length_cons, List.length_cons] at heven
        omega
      obtain ⟨bytes, h⟩ := ih heven' hrest
      exact ⟨_, h.pair hhigh hlow⟩

end Pairs

section Gaps

def gaps : List Char :=
  [' ', '\t', '\n', '\x0c', '\r']

private theorem isGap_iff : isGap c = true ↔ c ∈ gaps := by
  simp only [isGap, gaps, Bool.or_eq_true, decide_eq_true_eq, List.mem_cons, List.not_mem_nil, or_false,
    or_assoc]

def ungapped (text : List Char) : List Char :=
  text.filter (· ∉ gaps)

theorem mem_ungapped : c ∈ ungapped text ↔ c ∈ text ∧ c ∉ gaps := by
  rw [ungapped, List.mem_filter, decide_eq_true_iff]

private theorem ungapped_cons (c : Char) (text : List Char) :
    ungapped (c :: text) = if c ∈ gaps then ungapped text else c :: ungapped text := by
  rw [ungapped, List.filter_cons]
  by_cases hc : c ∈ gaps
  · rw [if_pos hc, if_neg (by simpa only [decide_eq_true_iff, not_not] using hc)]
    rfl
  · rw [if_neg hc, if_pos (decide_eq_true hc)]
    rfl

/-- A text that is the digits with gaps put in anywhere. -/
inductive Gapped : List Char → List Char → Prop where
  | nil : Gapped [] []
  | gap {c : Char} {digits text : List Char} : c ∈ gaps → Gapped digits text → Gapped digits (c :: text)
  | digit {c : Char} {digits text : List Char} : Gapped digits text → Gapped (c :: digits) (c :: text)

private theorem gapped_ungapped (text : List Char) : Gapped (ungapped text) text := by
  induction text with
  | nil => exact .nil
  | cons c rest ih =>
    rw [ungapped_cons]
    split
    · rename_i hc
      exact .gap hc ih
    · exact .digit ih

/-- Gaps are taken out again wherever they were put in. -/
private theorem Gapped.ungapped_eq (h : Gapped digits text) : ungapped text = ungapped digits := by
  induction h with
  | nil => rfl
  | gap hc _ ih => rw [ungapped_cons, if_pos hc, ih]
  | digit _ ih => rw [ungapped_cons, ungapped_cons, ih]

private theorem gapped_nil (h : ∀ c ∈ text, c ∈ gaps) : Gapped [] text := by
  induction text with
  | nil => exact .nil
  | cons c rest ih =>
    rw [List.forall_mem_cons] at h
    exact .gap h.1 (ih h.2)

private theorem not_mem_gaps {d : Nat} (h : IsHexDigit c d) : c ∉ gaps := by
  obtain ⟨hd, rfl | rfl⟩ := h
  all_goals
    revert d
    decide

private theorem Spelled.ungapped_eq (h : Spelled digits bytes) : ungapped digits = digits := by
  apply List.filter_eq_self.mpr
  intro c hc
  obtain ⟨d, hd⟩ := h.isHexDigit hc
  exact decide_eq_true (not_mem_gaps hd)

theorem spelled_ungapped_iff :
    Spelled (ungapped text) bytes ↔ ∃ digits, Spelled digits bytes ∧ Gapped digits text := by
  constructor
  · exact fun h => ⟨_, h, gapped_ungapped text⟩
  · rintro ⟨digits, hspelled, hgapped⟩
    rwa [hgapped.ungapped_eq, hspelled.ungapped_eq]

end Gaps

theorem read?_eq_some_iff : read? text = some bytes ↔ Spelled (ungapped text) bytes := by
  have hkeep : (fun c => !isGap c) = fun c => decide (c ∉ gaps) := by
    funext c
    rw [Bool.eq_iff_iff, Bool.not_eq_true', ← Bool.not_eq_true, isGap_iff, decide_eq_true_iff]
  rw [read?, hkeep, readPairs?_eq_some_iff]
  rfl

/-- What is not read has half a pair too many or a character that is no digit. -/
theorem read?_eq_none_iff : read? text = none ↔
    (ungapped text).length % 2 = 1 ∨ ∃ c ∈ text, c ∉ gaps ∧ ∀ d, ¬ IsHexDigit c d := by
  have hspelled : read? text = none ↔ ¬ ∃ bytes, Spelled (ungapped text) bytes := by
    simp only [← read?_eq_some_iff, Option.eq_none_iff_forall_ne_some, ne_eq, not_exists]
  rw [hspelled, exists_spelled_iff, Decidable.not_and_iff_not_or_not, Nat.mod_two_not_eq_zero]
  simp only [not_forall, not_exists, mem_ungapped, exists_prop, and_assoc]

private theorem gapped_writeSpaced_append {blanks : List Char} (h : ∀ c ∈ blanks, c ∈ gaps) :
    Gapped (write bytes) (writeSpaced bytes ++ blanks) := by
  induction bytes using writeSpaced.induct with
  | case1 => exact gapped_nil h
  | case2 b => exact .digit (.digit (gapped_nil h))
  | case3 b rest hne ih =>
    have hwrite : writeSpaced (b :: rest) = spell b ++ ' ' :: writeSpaced rest := by
      cases rest with
      | nil => exact absurd rfl hne
      | cons => rfl
    rw [hwrite]
    exact .digit (.digit (.gap (by decide) ih))

/-- Gaps behind the last pair are passed over like those between the pairs. -/
theorem read?_writeSpaced_append (bytes : List UInt8) {blanks : List Char}
    (h : ∀ c ∈ blanks, isGap c = true) : read? (writeSpaced bytes ++ blanks) = some bytes := by
  rw [read?_eq_some_iff, spelled_ungapped_iff]
  exact ⟨_, spelled_write bytes, gapped_writeSpaced_append fun c hc => isGap_iff.mp (h c hc)⟩

end LogBench.Hex
