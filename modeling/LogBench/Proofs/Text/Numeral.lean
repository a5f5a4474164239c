import LogBench.Text.Numeral
import Mathlib.Data.List.Forall2
import Mathlib.Data.Nat.Digits.Defs

/-! What a numeral is and what it denotes: a sign at most and then digits, read as their number. Of the
decimal numerals of a number the one that it is written as is read back. -/
namespace LogBench.Numeral

variable {base high n bound : Nat} {text digits : List Char}

/-- A decimal numeral with its value: one plus sign or none, and then at least one ASCII digit. -/
def Denotes (text : List Char) (n : Nat) : Prop :=
  ∃ digits : List Char, (text = digits ∨ text = '+' :: digits) ∧ digits ≠ [] ∧
    (∀ c ∈ digits, c.isDigit = true) ∧ n = Nat.ofDigitChars 10 digits 0

private theorem isDigit_iff (c : Char) : c.isDigit = true ↔ '0' ≤ c ∧ c ≤ '9' := by
  simp only [Char.isDigit, Bool.and_eq_true, decide_eq_true_eq, Char.le_def, ge_iff_le]

/-- Letters are no decimal digits. -/
private theorem digitValue?_ten (c : Char) :
    digitValue? 10 c = if c.isDigit = true then some (c.toNat - '0'.toNat) else none := by
  simp only [isDigit_iff]
  unfold digitValue?
  have hletter (first : Nat) : ¬ c.toNat - first + 10 < 10 := by omega
  split
  · rename_i h
    have hle : c.toNat ≤ 57 := h.2
    exact Option.filter_some_pos (decide_eq_true (by change c.toNat - 48 < 10; omega))
  · split
    · exact Option.filter_some_neg (by simp [hletter])
    · split
      · exact Option.filter_some_neg (by simp [hletter])
      · rfl

private theorem digitsValue?_ten_eq_some_iff : digitsValue? 10 high digits = some n ↔
    (∀ c ∈ digits, c.isDigit = true) ∧ n = Nat.ofDigitChars 10 digits high := by
  induction digits generalizing high with
  | nil =>
    rw [digitsValue?, Nat.ofDigitChars_nil, Option.some_inj]
    simp only [List.not_mem_nil, false_implies, implies_true, true_and]
    exact eq_comm
  | cons c rest ih =>
    rw [digitsValue?, digitValue?_ten]
    cases hc : c.isDigit with
    | true =>
      change digitsValue? 10 (high * 10 + (c.toNat - '0'.toNat)) rest = some n ↔ _
      rw [ih, Nat.ofDigitChars_cons, Nat.mul_comm]
      simp [hc]
    | false => simp [hc]

/-- A sign is read once, and only in front. -/
theorem read?_eq_some_iff : read? base text = some n ↔
    ∃ digits, (text = digits ∨ text = '+' :: digits) ∧ digits ≠ [] ∧
      digitsValue? base 0 digits = some n := by
  have hread (digits : List Char) : (if digits.isEmpty then none else digitsValue? base 0 digits) =
      some n ↔ digits ≠ [] ∧ digitsValue? base 0 digits = some n := by
    cases digits <;> simp
  unfold read?
  rw [hread]
  constructor
  · intro h
    split at h
    · rename_i hsign
      obtain ⟨rest, rfl⟩ := List.head?_eq_some_iff.mp hsign
      exact ⟨rest, Or.inr rfl, h⟩
    · exact ⟨text, Or.inl rfl, h⟩
  · rintro ⟨digits, rfl | rfl, h⟩
    · split
      · rename_i hsign
        obtain ⟨rest, rfl⟩ := List.head?_eq_some_iff.mp hsign
        cases h.2
      · exact h
    · exact h

private theorem read?_ten_eq_some_iff : read? 10 text = some n ↔ Denotes text n := by
  simp only [read?_eq_some_iff, digitsValue?_ten_eq_some_iff, Denotes]

theorem readBelow?_ten_eq_some_iff :
    readBelow? 10 bound text = some n ↔ Denotes text n ∧ n < bound := by
  rw [readBelow?, Option.filter_eq_some_iff, read?_ten_eq_some_iff, decide_eq_true_iff]

theorem readBelow?_ten_eq_none_iff :
    readBelow? 10 bound text = none ↔ ∀ n < bound, ¬ Denotes text n := by
  rw [Option.eq_none_iff_forall_ne_some]
  simp only [ne_eq, readBelow?_ten_eq_some_iff]
  exact ⟨fun h n hlt hn => h n ⟨hn, hlt⟩, fun h n hn => h n hn.2 hn.1⟩

section Hexadecimal

/-- A character with the number below sixteen that it stands for, letters in either case. -/
def IsHexDigit (c : Char) (d : Nat) : Prop :=
  d < 16 ∧ (c = Nat.digitChar d ∨ c = (Nat.digitChar d).toUpper)

def DenotesHex (text : List Char) (n : Nat) : Prop :=
  ∃ (digits : List Char) (values : List Nat), (text = digits ∨ text = '+' :: digits) ∧ digits ≠ [] ∧
    List.Forall₂ IsHexDigit digits values ∧ n = Nat.ofDigits 16 values.reverse

instance (c : Char) (d : Nat) : Decidable (IsHexDigit c d) :=
  inferInstanceAs (Decidable (_ ∧ _))

theorem digitValue?_sixteen {c : Char} {d : Nat} :
    digitValue? 16 c = some d ↔ IsHexDigit c d := by
  constructor
  · -- Each of the three ranges of characters is looked through by code point.
    have hdigits : ∀ n < 0x3A, 0x30 ≤ n → IsHexDigit (Char.ofNat n) (n - 0x30) := by decide
    have hsmall : ∀ n < 0x67, 0x61 ≤ n → IsHexDigit (Char.ofNat n) (n - 0x61 + 10) := by decide
    have hcapital : ∀ n < 0x47, 0x41 ≤ n → IsHexDigit (Char.ofNat n) (n - 0x41 + 10) := by decide
    intro h
    rw [digitValue?, Option.filter_eq_some_iff] at h
    rw [← Char.ofNat_toNat c]
    replace h := h.1
    split at h
    · rename_i hrange
      cases h
      exact hdigits c.toNat (Nat.lt_succ_of_le hrange.2) hrange.1
    · split at h
      · rename_i hrange
        cases h
        exact hsmall c.toNat (Nat.lt_succ_of_le hrange.2) hrange.1
      · split at h
        · rename_i hrange
          cases h
          exact hcapital c.toNat (Nat.lt_succ_of_le hrange.2) hrange.1
        · cases h
  · rintro ⟨hd, rfl | rfl⟩
    all_goals
      revert d
      decide

private theorem digitsValue?_sixteen_eq_some_iff : digitsValue? 16 high digits = some n ↔
    ∃ values, List.Forall₂ IsHexDigit digits values ∧
      n = values.foldl (fun m d => m * 16 + d) high := by
  induction digits generalizing high with
  | nil =>
    simp only [digitsValue?, List.forall₂_nil_left_iff, exists_eq_left, List.foldl_nil,
      Option.some_inj]
    exact eq_comm
  | cons c rest ih =>
    rw [digitsValue?]
    simp only [List.forall₂_cons_left_iff, ← digitValue?_sixteen, Option.bind_eq_bind,
      Option.bind_eq_some_iff, ih]
    constructor
    · rintro ⟨d, hd, values, hvalues, hn⟩
      exact ⟨d :: values, ⟨d, values, hd, hvalues, rfl⟩, hn⟩
    · rintro ⟨_, ⟨d, values, hd, hvalues, rfl⟩, hn⟩
      exact ⟨d, hd, values, hvalues, hn⟩

private theorem ofDigits_reverse_sixteen (values : List Nat) :
    Nat.ofDigits 16 values.reverse = values.foldl (fun m d => m * 16 + d) 0 := by
  rw [Nat.ofDigits_eq_foldr, List.foldr_reverse]
  simp only [Nat.cast_id, Nat.add_comm, Nat.mul_comm]

theorem read?_sixteen_eq_some_iff : read? 16 text = some n ↔ DenotesHex text n := by
  simp only [read?_eq_some_iff, digitsValue?_sixteen_eq_some_iff, DenotesHex,
    ofDigits_reverse_sixteen]
  constructor
  · rintro ⟨digits, htext, hne, values, hdigits, hn⟩
    exact ⟨digits, values, htext, hne, hdigits, hn⟩
  · rintro ⟨digits, values, htext, hne, hdigits, hn⟩
    exact ⟨digits, htext, hne, values, hdigits, hn⟩

end Hexadecimal

theorem isDigit_of_mem_decimal {c : Char} (h : c ∈ decimal n) : c.isDigit = true :=
  Nat.isDigit_of_mem_toDigits (by decide) (by decide) h

theorem denotes_decimal (n : Nat) : Denotes (decimal n) n :=
  ⟨decimal n, Or.inl rfl, Nat.toDigits_ne_nil, fun _ => isDigit_of_mem_decimal,
    Nat.ofDigitChars_ten_toDigits.symm⟩

end LogBench.Numeral
