import LogBench.Proofs.Text.Hex

/-!
Reading hexadecimal digits from the UTF-8 bytes of a text, one byte a character, comes to the same as reading
the text: every byte of a character beyond ASCII is refused. So exactly the spellings of bytes are read.
-/
namespace LogBench.Hex
open Numeral

variable {text digits : List Char} {bytes : List UInt8} {c : Char}

/-- Bytes as the characters of the same numbers. -/
def characters (utf8 : List UInt8) : List Char :=
  utf8.map fun b => Char.ofNat b.toNat

/-- Numerals of two characters each, and of one character if that is left over. -/
def readNumerals? : List Char → Option (List UInt8)
  | [] => some []
  | [digit] => do
    let n ← readBelow? 16 256 [digit]
    return [UInt8.ofNat n]
  | high :: low :: rest => do
    let n ← readBelow? 16 256 [high, low]
    let bytes ← readNumerals? rest
    return UInt8.ofNat n :: bytes

/-- The bytes that a text in UTF-8 spells: apart from gaps it has to be an even number of digits, and then
each pair of them is a numeral. -/
def readUtf8? (utf8 : List UInt8) : Option (List UInt8) :=
  let digits := ungapped (characters utf8)
  if digits.length % 2 = 0 ∧ digits.all (fun c => (digitValue? 16 c).isSome) then readNumerals? digits
  else none

private theorem readBelow?_pair {high low : Char} {b : UInt8}
    (hhigh : IsHexDigit high (b.toNat / 16))
    (hlow : IsHexDigit low (b.toNat % 16)) : readBelow? 16 256 [high, low] = some b.toNat := by
  have hvalue : digitsValue? 16 0 [high, low] = some b.toNat := by
    rw [digitsValue?, digitValue?_sixteen.mpr hhigh, Option.bind_eq_bind, Option.bind_some, digitsValue?,
      digitValue?_sixteen.mpr hlow, Option.bind_eq_bind, Option.bind_some, digitsValue?, Option.some_inj]
    omega
  rw [readBelow?, Numeral.read?_eq_some_iff.mpr ⟨_, Or.inl rfl, List.cons_ne_nil _ _, hvalue⟩]
  exact Option.filter_some_pos (decide_eq_true b.toNat_lt)

private theorem Spelled.readNumerals? (h : Spelled digits bytes) :
    readNumerals? digits = some bytes := by
  induction h with
  | nil => rfl
  | @cons high low b digits bytes hhigh hlow _ ih =>
    rw [Hex.readNumerals?, readBelow?_pair hhigh hlow, ih]
    exact congrArg (some <| · :: bytes) (UInt8.ofNat_toNat (x := b))

private theorem readUtf8?_eq_some_iff {utf8 : List UInt8} :
    readUtf8? utf8 = some bytes ↔ Spelled (ungapped (characters utf8)) bytes := by
  have hguard : ((ungapped (characters utf8)).length % 2 = 0 ∧
      (ungapped (characters utf8)).all (fun c => (digitValue? 16 c).isSome) = true) ↔
      ∃ bytes, Spelled (ungapped (characters utf8)) bytes := by
    simp only [exists_spelled_iff, List.all_eq_true, Option.isSome_iff_exists, digitValue?_sixteen]
  constructor
  · intro h
    simp only [readUtf8?] at h
    split at h
    · rename_i hdigits
      obtain ⟨bytes', hspelled⟩ := hguard.mp hdigits
      rw [hspelled.readNumerals?] at h
      cases h
      exact hspelled
    · cases h
  · exact fun h => (if_pos (hguard.mpr ⟨bytes, h⟩)).trans h.readNumerals?

private theorem lt_of_isHexDigit {d : Nat} (h : IsHexDigit c d) : c.toNat < 128 := by
  obtain ⟨hd, rfl | rfl⟩ := h
  all_goals
    revert d
    decide

private theorem lt_of_mem_gaps (h : c ∈ gaps) : c.toNat < 128 := by
  have hall : gaps.all (·.toNat < 128) = true := by decide
  exact of_decide_eq_true (List.all_eq_true.mp hall c h)

/-- Only ASCII is read. -/
private theorem Spelled.lt_of_mem (h : Spelled (ungapped text) bytes) (hc : c ∈ text) :
    c.toNat < 128 := by
  by_cases hgap : c ∈ gaps
  · exact lt_of_mem_gaps hgap
  · obtain ⟨d, hd⟩ := h.isHexDigit (mem_ungapped.mpr ⟨hc, hgap⟩)
    exact lt_of_isHexDigit hd

private theorem characters_utf8EncodeChar (h : c.toNat < 128) :
    characters (String.utf8EncodeChar c) = [c] := by
  have hle : c.val.toNat ≤ 127 := Nat.le_of_lt_succ h
  have hbyte : (UInt8.ofNat c.val.toNat).toNat = c.toNat :=
    UInt8.toNat_ofNat_of_lt' (Nat.lt_trans h (by decide))
  simp only [String.utf8EncodeChar, if_pos hle, characters, List.map_cons, List.map_nil, hbyte,
    Char.ofNat_toNat]

/-- No byte of a character beyond ASCII is ASCII. -/
private theorem le_of_mem_utf8EncodeChar {b : UInt8} (h : 128 ≤ c.toNat)
    (hb : b ∈ String.utf8EncodeChar c) : 128 ≤ b.toNat := by
  have hgt : ¬ c.val.toNat ≤ 127 := Nat.not_le_of_lt h
  simp only [String.utf8EncodeChar, if_neg hgt] at hb
  -- Each byte has its highest bit from the number added last.
  have hhigh (n k m : Nat) (hk : 0 < k) (hm : 128 ≤ m) (hsum : k + m ≤ 256) :
      128 ≤ (UInt8.ofNat (n % k + m)).toNat := by
    have hlt := Nat.mod_lt n hk
    rw [UInt8.toNat_ofNat_of_lt' (by simp only [UInt8.size]; omega)]
    omega
  split at hb
  · simp only [List.mem_cons, List.not_mem_nil, or_false] at hb
    rcases hb with rfl | rfl <;> exact hhigh _ _ _ (by decide) (by decide) (by decide)
  · split at hb
    · simp only [List.mem_cons, List.not_mem_nil, or_false] at hb
      rcases hb with rfl | rfl | rfl <;> exact hhigh _ _ _ (by decide) (by decide) (by decide)
    · simp only [List.mem_cons, List.not_mem_nil, or_false] at hb
      rcases hb with rfl | rfl | rfl | rfl <;> exact hhigh _ _ _ (by decide) (by decide) (by decide)

def utf8Bytes (text : List Char) : List UInt8 :=
  text.flatMap String.utf8EncodeChar

private theorem characters_utf8 (h : ∀ c ∈ text, c.toNat < 128) :
    characters (utf8Bytes text) = text := by
  induction text with
  | nil => rfl
  | cons c rest ih =>
    rw [List.forall_mem_cons] at h
    have hcons : characters (utf8Bytes (c :: rest)) =
        characters (String.utf8EncodeChar c) ++ characters (utf8Bytes rest) := by
      rw [utf8Bytes, List.flatMap_cons, characters, List.map_append]
      rfl
    rw [hcons, characters_utf8EncodeChar h.1, ih h.2]
    rfl

/-- A character beyond ASCII leaves one in the bytes. -/
private theorem exists_mem_characters_utf8 (hc : c ∈ text) (h : 128 ≤ c.toNat) :
    ∃ c' ∈ characters (utf8Bytes text), 128 ≤ c'.toNat := by
  have hne : 0 < (String.utf8EncodeChar c).length := by
    rw [String.length_utf8EncodeChar]
    exact c.utf8Size_pos
  obtain ⟨b, hb⟩ := List.exists_mem_of_length_pos hne
  refine ⟨Char.ofNat b.toNat, List.mem_map_of_mem (List.mem_flatMap.mpr ⟨c, hc, hb⟩), ?_⟩
  have hvalid : b.toNat.isValidChar := .inl (Nat.lt_trans b.toNat_lt (by decide))
  rw [Char.ofNat, dif_pos hvalid]
  change 128 ≤ b.toNat
  exact le_of_mem_utf8EncodeChar h hb

private theorem readUtf8?_utf8 (text : List Char) : readUtf8? (utf8Bytes text) = read? text := by
  apply Option.ext
  intro bytes
  rw [readUtf8?_eq_some_iff, read?_eq_some_iff]
  by_cases hascii : ∀ c ∈ text, c.toNat < 128
  · rw [characters_utf8 hascii]
  · simp only [not_forall, Nat.not_lt] at hascii
    obtain ⟨c, hc, hhigh⟩ := hascii
    obtain ⟨c', hc', hhigh'⟩ := exists_mem_characters_utf8 hc hhigh
    constructor
    · exact fun h => absurd (h.lt_of_mem hc') (Nat.not_lt_of_le hhigh')
    · exact fun h => absurd (h.lt_of_mem hc) (Nat.not_lt_of_le hhigh)

/-- For every text: what it is read as, when it is not read, and that gaps may stand anywhere in it. -/
theorem read_exactly_hex (text : List Char) :
    (∀ bytes, read? text = some bytes ↔
      Spelled (text.filter (· ∉ [' ', '\t', '\n', '\x0c', '\r'])) bytes) ∧
    (read? text = none ↔
      (text.filter (· ∉ [' ', '\t', '\n', '\x0c', '\r'])).length % 2 = 1 ∨
        ∃ c ∈ text, c ∉ [' ', '\t', '\n', '\x0c', '\r'] ∧ ∀ d, ¬ IsHexDigit c d) ∧
    (∀ bytes, read? text = some bytes ↔ ∃ digits, Spelled digits bytes ∧ Gapped digits text) ∧
    read? text = readUtf8? (text.flatMap String.utf8EncodeChar) :=
  ⟨fun _ => read?_eq_some_iff, read?_eq_none_iff, fun _ => read?_eq_some_iff.trans spelled_ungapped_iff,
    (readUtf8?_utf8 text).symm⟩

end LogBench.Hex
