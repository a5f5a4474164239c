import LogBench.Script.Meaning
import LogBench.Target

/-! The words of an element, and the chunks in which a target answers them. -/
namespace LogBench.Script

theorem reduceOption_cons (word : Option UInt32) (answers : List (Option UInt32)) :
    (word :: answers).reduceOption = word.toList ++ answers.reduceOption := by
  cases word <;> rfl

/-- An answer is an operation decoded or a word. -/
theorem Meaning.requests_eq (m : Meaning) : m.requests = m.answers.length + 1 := by
  unfold Meaning.requests Meaning.decoded Meaning.words
  congr 1
  induction m.answers with
  | nil => rfl
  | cons answer later ih =>
    rw [reduceOption_cons, List.length_append, List.length_cons]
    cases answer with
    | none =>
      rw [List.count_cons_self, Option.toList_none, List.length_nil]
      omega
    | some word =>
      rw [List.count_cons_of_ne (Option.some_ne_none word), Option.toList_some,
        List.length_singleton]
      omega

theorem length_elementWords (e : Entry 4) (bytes : Nat) :
    (elementWords e bytes).length = (bytes + 3) / 4 := by
  simp [elementWords]

/-- The chunk at an offset is the word with its number. -/
theorem getElem_elementWords (e : Entry 4) (bytes offset : Nat) (ho : offset % 4 = 0)
    (h : offset / 4 < (elementWords e bytes).length) :
    (elementWords e bytes)[offset / 4] = Target.payloadWord e offset (min 4 (bytes - offset)) := by
  have hm : 4 * (offset / 4) = offset := by omega
  simp only [elementWords, List.getElem_map, List.getElem_range, hm]
  rfl

/-- The words from an offset on are the chunk there and the words after it. -/
theorem drop_elementWords (e : Entry 4) {bytes offset : Nat} (ho : offset % 4 = 0)
    (hlt : offset < bytes) :
    (elementWords e bytes).drop (offset / 4) =
      Target.payloadWord e offset (min 4 (bytes - offset)) ::
        (elementWords e bytes).drop (offset / 4 + 1) := by
  have h : offset / 4 < (elementWords e bytes).length := by
    rw [length_elementWords]
    omega
  rw [List.drop_eq_getElem_cons h, getElem_elementWords e bytes offset ho h]

theorem take_elementWords (e : Entry 4) {bytes offset : Nat} (ho : offset % 4 = 0)
    (hlt : offset < bytes) :
    (elementWords e bytes).take (offset / 4 + 1) =
      (elementWords e bytes).take (offset / 4) ++
        [Target.payloadWord e offset (min 4 (bytes - offset))] := by
  have h : offset / 4 < (elementWords e bytes).length := by
    rw [length_elementWords]
    omega
  rw [List.take_succ_eq_append_getElem h, getElem_elementWords e bytes offset ho h]

/-- The last chunk completes the words. -/
theorem take_elementWords_last (e : Entry 4) {bytes offset : Nat} (ho : offset % 4 = 0)
    (hlt : offset < bytes) (hle : bytes ≤ offset + 4) :
    (elementWords e bytes).take (offset / 4) ++ [Target.payloadWord e offset (bytes - offset)] =
      elementWords e bytes := by
  have h := take_elementWords e ho hlt
  rw [List.take_of_length_le (by rw [length_elementWords]; omega),
    show min 4 (bytes - offset) = bytes - offset by omega] at h
  exact h.symm

/-- A chunk of four bytes at most is the number with these bytes as digits. -/
theorem toNat_payloadWord (e : Entry 4) (offset : Nat) {count : Nat} (hle : count ≤ 4) :
    (Target.payloadWord e offset count).toNat =
      Bytes.littleEndian ((List.range count).map fun i => e.byteAt (offset + i)) := by
  have hlt := Bytes.littleEndian_lt ((List.range count).map fun i => e.byteAt (offset + i))
  have hcap : 256 ^ count ≤ 256 ^ 4 := Nat.pow_le_pow_right (by decide) hle
  rw [List.length_map, List.length_range] at hlt
  unfold Target.payloadWord
  rw [UInt32.toNat_ofNat']
  exact Nat.mod_eq_of_lt (Nat.lt_of_lt_of_le hlt hcap)

theorem payloadWord_lt (e : Entry 4) (offset : Nat) {count : Nat} (hle : count ≤ 4) :
    (Target.payloadWord e offset count).toNat < 256 ^ count := by
  have hlt := Bytes.littleEndian_lt ((List.range count).map fun i => e.byteAt (offset + i))
  rw [List.length_map, List.length_range] at hlt
  rw [toNat_payloadWord e offset hle]
  exact hlt

/-- A chunk passes the mask of its valid bytes unchanged. -/
theorem word?_payloadWord (e : Entry 4) (offset : Nat) {count : Nat} (hpos : 0 < count)
    (hle : count ≤ 4) :
    Link.Response.word?
        { kind := .running, valid := count, data := Target.payloadWord e offset count } =
      some (Target.payloadWord e offset count) := by
  unfold Link.Response.word?
  rw [if_pos ⟨hpos, hle⟩]
  simp only [Nat.mod_eq_of_lt (payloadWord_lt e offset hle), UInt32.ofNat_toNat]

/-- A full word passes the mask of its four bytes unchanged. -/
theorem word?_full (word : UInt32) :
    Link.Response.word? { kind := .running, valid := 4, data := word } = some word := by
  have hlt : word.toNat < 256 ^ 4 := word.toNat_lt
  unfold Link.Response.word?
  rw [if_pos ⟨by exact Nat.succ_pos 3, Nat.le_refl 4⟩]
  simp only [Nat.mod_eq_of_lt hlt, UInt32.ofNat_toNat]

end LogBench.Script
