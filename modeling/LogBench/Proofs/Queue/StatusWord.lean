import LogBench.Queue.StatusWord

/-!
What a status word says bit by bit, and what is read back from it: the flags, and each count as far as its
field goes. Nothing else is lost, so the word of a queue that is small enough tells all about how full it is.
-/
namespace LogBench.Queue

namespace StatusWord

/-- The fields with each count cut off at the largest that fits. -/
def saturated (s : StatusWord) : StatusWord :=
  { s with entries := min s.entries maxCount, spaces := min s.spaces maxCount }

/-- Every flag and every saturated count fits its field. -/
private theorem fields_le (s : StatusWord) : s.empty.toNat ≤ 1 ∧ s.full.toNat ≤ 1 ∧
    s.underflowed.toNat ≤ 1 ∧ s.overflowed.toNat ≤ 1 ∧
    min s.entries maxCount ≤ 0x3FFF ∧ min s.spaces maxCount ≤ 0x3FFF :=
  ⟨Bool.toNat_le _, Bool.toNat_le _, Bool.toNat_le _, Bool.toNat_le _, Nat.min_le_right ..,
    Nat.min_le_right ..⟩

/-- The fields lie side by side in the word, and none runs over. -/
theorem toNat_toWord (s : StatusWord) : s.toWord.toNat =
    s.empty.toNat + 2 * s.full.toNat + 4 * s.underflowed.toNat + 8 * s.overflowed.toNat +
      2 ^ 4 * min s.entries maxCount + 2 ^ 18 * min s.spaces maxCount := by
  have hfit := s.fields_le
  unfold toWord
  rw [UInt32.toNat_ofNat']
  apply Nat.mod_eq_of_lt
  omega

private theorem decide_toNat (b : Bool) : decide (b.toNat = 1) = b := by
  cases b <;> rfl

theorem ofWord_toWord (s : StatusWord) : ofWord s.toWord = s.saturated := by
  have hfit := s.fields_le
  have hword := s.toNat_toWord
  have h0 : s.toWord.toNat % 2 = s.empty.toNat := by omega
  have h1 : s.toWord.toNat / 2 % 2 = s.full.toNat := by omega
  have h2 : s.toWord.toNat / 4 % 2 = s.underflowed.toNat := by omega
  have h3 : s.toWord.toNat / 8 % 2 = s.overflowed.toNat := by omega
  have h4 : s.toWord.toNat / 2 ^ 4 % 2 ^ 14 = min s.entries maxCount := by omega
  have h5 : s.toWord.toNat / 2 ^ 18 = min s.spaces maxCount := by omega
  simp only [ofWord, h0, h1, h2, h3, h4, h5, decide_toNat, saturated]

private theorem toNat_decide_mod_two (n : Nat) : (decide (n % 2 = 1)).toNat = n % 2 := by
  rcases Nat.mod_two_eq_zero_or_one n with h | h <;> rw [h] <;> rfl

/-- No bit of a word is left out by its fields. -/
theorem toWord_ofWord (word : UInt32) : (ofWord word).toWord = word := by
  have hlt := word.toNat_lt
  rw [← UInt32.toNat_inj, toNat_toWord]
  simp only [ofWord, toNat_decide_mod_two, maxCount]
  omega

/-- The flags from the lowest bit on, then the bits of the two counts. -/
structure LaidOut (s : StatusWord) (word : UInt32) : Prop where
  empty : word.toNat.testBit 0 = s.empty
  full : word.toNat.testBit 1 = s.full
  underflowed : word.toNat.testBit 2 = s.underflowed
  overflowed : word.toNat.testBit 3 = s.overflowed
  entries : ∀ i < 14, word.toNat.testBit (4 + i) = (min s.entries maxCount).testBit i
  spaces : ∀ i < 14, word.toNat.testBit (18 + i) = (min s.spaces maxCount).testBit i

theorem laidOut_ofWord (word : UInt32) : LaidOut (ofWord word) word := by
  have hlt := word.toNat_lt
  have hentries : min (ofWord word).entries maxCount = word.toNat / 2 ^ 4 % 2 ^ 14 := by
    simp only [ofWord, maxCount]
    omega
  have hspaces : min (ofWord word).spaces maxCount = word.toNat / 2 ^ 18 := by
    simp only [ofWord, maxCount]
    omega
  refine ⟨?_, ?_, ?_, ?_, ?_, ?_⟩
  · exact Nat.testBit_zero _
  · exact Nat.testBit_eq_decide_div_mod_eq
  · exact Nat.testBit_eq_decide_div_mod_eq
  · exact Nat.testBit_eq_decide_div_mod_eq
  · intro i hi
    rw [hentries, Nat.testBit_mod_two_pow, Nat.testBit_div_two_pow, decide_eq_true hi, Bool.true_and,
      Nat.add_comm]
  · intro i hi
    rw [hspaces, Nat.testBit_div_two_pow, Nat.add_comm]

theorem laidOut_toWord (s : StatusWord) : LaidOut s s.toWord := by
  have h := laidOut_ofWord s.toWord
  rw [ofWord_toWord] at h
  have hsaturated (n : Nat) : min (min n maxCount) maxCount = min n maxCount := by
    rw [Nat.min_assoc, Nat.min_self]
  refine { h with entries := ?_, spaces := ?_ }
  · intro i hi
    rw [h.entries i hi, saturated, hsaturated]
  · intro i hi
    rw [h.spaces i hi, saturated, hsaturated]

end StatusWord

namespace Occupancy

variable {o o' : Occupancy}

section Bits

/-- Bits below a place are added to those that are shifted there. -/
private theorem toNat_or_shiftLeft {low count : UInt32} (place : Nat) (hplace : place < 32)
    (hlow : low.toNat < 2 ^ place) (hcount : count.toNat * 2 ^ place < 2 ^ 32) :
    (low ||| count <<< UInt32.ofNat place).toNat = low.toNat + 2 ^ place * count.toNat := by
  have hshift : (UInt32.ofNat place).toNat % 32 = place := by
    rw [UInt32.toNat_ofNat']
    omega
  have hshifted : (count <<< UInt32.ofNat place).toNat = 2 ^ place * count.toNat := by
    rw [UInt32.toNat_shiftLeft, hshift, Nat.shiftLeft_eq, Nat.mod_eq_of_lt hcount, Nat.mul_comm]
  rw [UInt32.toNat_or, hshifted, Nat.or_comm, ← Nat.two_pow_add_eq_or_of_lt hlow, Nat.add_comm]

private theorem toNat_joined {flags entries spaces : UInt32} (hflags : flags.toNat < 2 ^ 4)
    (hentries : entries.toNat < 2 ^ 14) (hspaces : spaces.toNat < 2 ^ 14) :
    (flags ||| entries <<< 4 ||| spaces <<< 18).toNat =
      flags.toNat + 2 ^ 4 * entries.toNat + 2 ^ 18 * spaces.toNat := by
  have hlow : (flags ||| entries <<< 4).toNat = flags.toNat + 2 ^ 4 * entries.toNat :=
    toNat_or_shiftLeft 4 (by decide) hflags (by omega)
  rw [← hlow]
  exact toNat_or_shiftLeft 18 (by decide) (by omega) (by omega)

private theorem toNat_flags (empty full underflowed overflowed : Bool) :
    (flag empty 1 ||| flag full 2 ||| flag underflowed 4 ||| flag overflowed 8).toNat =
      empty.toNat + 2 * full.toNat + 4 * underflowed.toNat + 8 * overflowed.toNat := by
  cases empty <;> cases full <;> cases underflowed <;> cases overflowed <;> rfl

private theorem toNat_ofNat_count (n : Nat) :
    (UInt32.ofNat (min n StatusWord.maxCount)).toNat = min n StatusWord.maxCount :=
  UInt32.toNat_ofNat_of_lt' (Nat.lt_of_le_of_lt (Nat.min_le_right ..) (by decide))

/-- Joining the bits adds the fields, since none of them reaches into the next. -/
theorem word_eq_toWord (o : Occupancy) : o.word = o.fields.toWord := by
  have hflags := toNat_flags o.isEmpty o.isFull o.underflowed o.overflowed
  have hentries := toNat_ofNat_count o.entries
  have hspaces := toNat_ofNat_count o.spaces
  have hfit := o.fields.fields_le
  simp only [fields] at hfit
  rw [← UInt32.toNat_inj, StatusWord.toNat_toWord]
  refine (toNat_joined (by omega) (by omega) (by omega)).trans ?_
  rw [hflags, hentries, hspaces]
  rfl

end Bits

theorem ofWord_word (o : Occupancy) : StatusWord.ofWord o.word = o.fields.saturated := by
  rw [word_eq_toWord, StatusWord.ofWord_toWord]

private theorem entries_add_spaces (o : Occupancy) : o.entries + o.spaces = o.capacity :=
  Nat.add_sub_of_le o.entries_le

/-- The counts tell the capacity, so the fields leave nothing out. -/
theorem fields_inj : o.fields = o'.fields ↔ o = o' := by
  constructor
  · intro h
    have hentries : o.entries = o'.entries := congrArg StatusWord.entries h
    have hspaces : o.spaces = o'.spaces := congrArg StatusWord.spaces h
    have hoverflowed : o.overflowed = o'.overflowed := congrArg StatusWord.overflowed h
    have hunderflowed : o.underflowed = o'.underflowed := congrArg StatusWord.underflowed h
    have hcapacity : o.capacity = o'.capacity := by
      rw [← o.entries_add_spaces, ← o'.entries_add_spaces, hentries, hspaces]
    cases o
    cases o'
    cases hcapacity
    cases hentries
    cases hoverflowed
    cases hunderflowed
    rfl
  · exact congrArg fields

private theorem saturated_fields (h : o.capacity ≤ StatusWord.maxCount) :
    o.fields.saturated = o.fields := by
  have hsum := o.entries_add_spaces
  have hentries : min o.entries StatusWord.maxCount = o.entries := Nat.min_eq_left (by omega)
  have hspaces : min o.spaces StatusWord.maxCount = o.spaces := Nat.min_eq_left (by omega)
  simp only [StatusWord.saturated, fields, hentries, hspaces]

theorem word_inj (h : o.capacity ≤ StatusWord.maxCount) (h' : o'.capacity ≤ StatusWord.maxCount) :
    o.word = o'.word ↔ o = o' := by
  constructor
  · intro hword
    have hfields := congrArg StatusWord.ofWord hword
    rw [ofWord_word, ofWord_word, saturated_fields h, saturated_fields h'] at hfields
    exact fields_inj.mp hfields
  · exact congrArg word

end Occupancy

namespace StatusWord

/-- Words and fields, and the word that a queue reports. -/
theorem word_fields_exact :
    (∀ word : UInt32, (ofWord word).toWord = word) ∧
    (∀ s : StatusWord, LaidOut s s.toWord ∧
      ofWord s.toWord = { s with entries := min s.entries 0x3FFF, spaces := min s.spaces 0x3FFF }) ∧
    (∀ o : Occupancy,
      o.word = toWord ⟨o.isEmpty, o.isFull, o.underflowed, o.overflowed, o.entries, o.spaces⟩ ∧
      ofWord o.word = ⟨o.isEmpty, o.isFull, o.underflowed, o.overflowed, min o.entries 0x3FFF,
        min o.spaces 0x3FFF⟩) ∧
    ∀ o o' : Occupancy, o.capacity ≤ 0x3FFF → o'.capacity ≤ 0x3FFF → (o.word = o'.word ↔ o = o') :=
  ⟨toWord_ofWord, fun s => ⟨s.laidOut_toWord, ofWord_toWord s⟩,
    fun o => ⟨o.word_eq_toWord, o.ofWord_word⟩, fun _ _ => Occupancy.word_inj⟩

/-- Two queues of the largest capacity of which this holds, and one of a larger capacity. -/
theorem word_fields_exact_widest :
    let full : Occupancy := ⟨0x3FFF, 0x3FFF, false, false, by decide⟩
    full.capacity ≤ 0x3FFF ∧ (Occupancy.vacant 0x3FFF).capacity ≤ 0x3FFF ∧
      full.word ≠ (Occupancy.vacant 0x3FFF).word ∧
      (Occupancy.vacant 0x4000).word = (Occupancy.vacant 0x3FFF).word := by
  refine ⟨by decide, by decide, fun hword => ?_, by decide⟩
  have h := (word_fields_exact.2.2.2 _ _ (by decide) (by decide)).mp hword
  cases h

end StatusWord

end LogBench.Queue
