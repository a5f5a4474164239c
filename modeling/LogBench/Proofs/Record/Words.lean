import LogBench.Record

/-! The words that carry a program spell its bytes, with zeros after them up to a full word. Further
words are zeros too, but for the last word of a short program that ends with a full one. -/
namespace LogBench.Program

def wordBytes (words : List UInt64) : List UInt8 :=
  words.flatMap fun w => Bytes.toBigEndian 8 w.toNat

theorem wordBytes_cons (w : UInt64) (words : List UInt64) :
    wordBytes (w :: words) = Bytes.toBigEndian 8 w.toNat ++ wordBytes words :=
  List.flatMap_cons

theorem wordBytes_append (words later : List UInt64) :
    wordBytes (words ++ later) = wordBytes words ++ wordBytes later :=
  List.flatMap_append

theorem length_wordBytes (words : List UInt64) :
    (wordBytes words).length = 8 * words.length := by
  induction words with
  | nil => rfl
  | cons w words ih =>
    rw [wordBytes_cons, List.length_append, Bytes.length_toBigEndian, ih, List.length_cons]
    omega

private theorem wordBytes_zeros (n : Nat) :
    wordBytes (List.replicate n 0) = List.replicate (8 * n) 0 := by
  induction n with
  | zero => rfl
  | succ n ih =>
    have hword : Bytes.toBigEndian 8 (0 : UInt64).toNat = List.replicate 8 0 := rfl
    rw [List.replicate_succ, wordBytes_cons, hword, ih, List.replicate_append_replicate]
    congr 1
    omega

private theorem wordBytes_take (words : List UInt64) (n : Nat) :
    wordBytes (words.take n) = (wordBytes words).take (8 * n) := by
  have hsplit := wordBytes_append (words.take n) (words.drop n)
  rw [List.take_append_drop] at hsplit
  rcases Nat.le_total n words.length with hle | hge
  · have hlen : (wordBytes (words.take n)).length = 8 * n := by
      rw [length_wordBytes, List.length_take, Nat.min_eq_left hle]
    rw [hsplit, ← hlen, List.take_left]
  · have hlen := length_wordBytes words
    rw [List.take_of_length_le hge, List.take_of_length_le (by omega)]

/-- The first words, given by their numbers. -/
theorem wordBytes_take_eq {words : List UInt64} {number : Nat → Nat} {n : Nat}
    (h : ∀ j < n, (words[j]?).map UInt64.toNat = some (number j)) :
    wordBytes (words.take n) = (List.range n).flatMap fun j => Bytes.toBigEndian 8 (number j) := by
  induction n with
  | zero => rfl
  | succ n ih =>
    obtain ⟨word, hword, hnumber⟩ := Option.map_eq_some_iff.mp (h n (Nat.lt_succ_self n))
    rw [List.take_add_one, wordBytes_append, ih fun j hj => h j (Nat.lt_succ_of_lt hj), hword,
      List.range_succ, List.flatMap_append, List.flatMap_singleton, ← hnumber]
    rfl

/-- A word has room for eight bytes. -/
private theorem toBigEndian_word {bytes : List UInt8} (h : bytes.length = 8) :
    Bytes.toBigEndian 8 (UInt64.ofNat (Bytes.bigEndian bytes)).toNat = bytes := by
  have hlt : Bytes.bigEndian bytes < 2 ^ 64 := by
    have hlt := Bytes.bigEndian_lt bytes
    rwa [h] at hlt
  have hback := Bytes.toBigEndian_bigEndian bytes
  rw [h] at hback
  rw [UInt64.toNat_ofNat', Nat.mod_eq_of_lt hlt, hback]

/-- The zeros that fill up the last word of a program. -/
def filling (program : Program) : Nat :=
  8 * ((program.length + 7) / 8) - program.length

theorem wordBytes_chunkWords (program : Program) :
    wordBytes (chunkWords program) = program ++ List.replicate (filling program) 0 := by
  induction program using chunkWords.induct with
  | case1 =>
    rw [chunkWords]
    rfl
  | case2 b rest ih =>
    have hlen : (((b :: rest).take 8) ++
        List.replicate (8 - ((b :: rest).take 8).length) (0 : UInt8)).length = 8 := by
      rw [List.length_append, List.length_replicate, List.length_take]
      omega
    rw [chunkWords, wordBytes_cons, toBigEndian_word hlen, ih]
    rcases Nat.lt_or_ge (b :: rest).length 8 with hlt | hge
    · -- The last word: no byte is left, and all zeros stand in this word.
      have hdrop : (b :: rest).drop 8 = [] := List.drop_of_length_le (Nat.le_of_lt hlt)
      have hfill : filling (b :: rest) = 8 - (b :: rest).length := by
        have hpos : 0 < (b :: rest).length := Nat.succ_pos _
        unfold filling
        omega
      rw [hdrop, List.take_of_length_le (Nat.le_of_lt hlt), hfill]
      exact List.append_nil _
    · have hfill : filling ((b :: rest).drop 8) = filling (b :: rest) := by
        unfold filling
        rw [List.length_drop]
        omega
      have htake : ((b :: rest).take 8).length = 8 := by
        rw [List.length_take]
        omega
      rw [hfill, htake, Nat.sub_self, List.replicate_zero, List.append_nil, ← List.append_assoc,
        List.take_append_drop]

theorem length_chunkWords (program : Program) :
    (chunkWords program).length = (program.length + 7) / 8 := by
  have hbytes := congrArg List.length (wordBytes_chunkWords program)
  rw [length_wordBytes, List.length_append, List.length_replicate, filling] at hbytes
  omega

/-- What stands once more behind the words of a short program that ends with a full one. -/
def repetition (program : Program) : List UInt64 :=
  if (chunkWords program).length < minWords ∧ program.length % 8 = 0 then
    (chunkWords program).getLast?.toList
  else []

/-- The words of the bytes themselves, and what follows them up to the fewest words of a record. -/
theorem words_eq (program : Program) :
    words program = chunkWords program ++ (repetition program ++
      List.replicate (minWords - (chunkWords program ++ repetition program).length) 0) := by
  rcases Nat.lt_or_ge (chunkWords program).length minWords with hlt | hge
  · by_cases hfull : program.length % 8 = 0
    · simp only [words, repetition, hlt, hfull, and_self, if_true, List.append_assoc]
    · simp only [words, repetition, hlt, hfull, and_false, if_true, if_false, List.append_nil,
        List.nil_append]
  · have hnone : minWords - (chunkWords program ++ ([] : List UInt64)).length = 0 := by
      rw [List.append_nil]
      omega
    have hshort : ¬ ((chunkWords program).length < minWords ∧ program.length % 8 = 0) :=
      fun h => Nat.not_lt.mpr hge h.1
    rw [repetition, if_neg hshort, hnone, words, if_neg (Nat.not_lt.mpr hge)]
    exact (List.append_nil _).symm

/-- Nothing is repeated of a program without bytes, of one that fills the fewest words, and of one
that ends within a word. -/
theorem repetition_eq_nil {program : Program}
    (h : program.length = 0 ∨ 32 ≤ program.length ∨ program.length % 8 ≠ 0) :
    repetition program = [] := by
  unfold repetition
  rw [length_chunkWords, minWords]
  split
  · have hempty : program = [] := List.eq_nil_of_length_eq_zero (by omega)
    rw [hempty, chunkWords]
    rfl
  · rfl

theorem length_repetition_le (program : Program) : (repetition program).length ≤ 1 := by
  unfold repetition
  split
  · exact Option.length_toList_le
  · exact Nat.zero_le 1

theorem length_words (program : Program) :
    (words program).length = max minWords ((program.length + 7) / 8) := by
  have hlen := length_chunkWords program
  have hone := length_repetition_le program
  rw [words_eq, ← List.append_assoc, List.length_append, List.length_append, List.length_replicate,
    hlen]
  unfold minWords
  by_cases hfilled : program.length = 0 ∨ 32 ≤ program.length ∨ program.length % 8 ≠ 0
  · rw [repetition_eq_nil hfilled, List.length_nil]
    omega
  · omega

theorem minWords_le_length_words (program : Program) : minWords ≤ (words program).length := by
  rw [length_words]
  exact Nat.le_max_left ..

/-- The words spell the program first. -/
theorem prefix_wordBytes_words (program : Program) : program <+: wordBytes (words program) := by
  rw [words_eq, wordBytes_append, wordBytes_chunkWords, List.append_assoc]
  exact List.prefix_append ..

/-- Where no word is repeated, the words spell the program and zeros. -/
theorem exists_wordBytes_words_eq {program : Program}
    (h : program.length = 0 ∨ 32 ≤ program.length ∨ program.length % 8 ≠ 0) :
    ∃ n, wordBytes (words program) = program ++ List.replicate n 0 := by
  rw [words_eq, repetition_eq_nil h, List.nil_append, wordBytes_append, wordBytes_chunkWords,
    wordBytes_zeros, List.append_assoc, List.replicate_append_replicate]
  exact ⟨_, rfl⟩

/-- A program of four words at most is carried in four words. -/
theorem length_words_of_short {program : Program} (h : program.length ≤ 32) :
    (words program).length = minWords := by
  rw [length_words]
  unfold minWords
  omega

end LogBench.Program

namespace LogBench.Record

theorem toList_words_entry (r : Record) : (r.entry 4).words.toList = r.words.take 4 := by
  have hlen : 4 ≤ r.words.length := Program.minWords_le_length_words r.program
  apply List.ext_getElem
  · rw [Vector.length_toList, List.length_take, Nat.min_eq_left hlen]
  · intro i hi hi'
    rw [List.length_take, Nat.min_eq_left hlen] at hi'
    simp [entry, List.getElem?_eq_getElem (Nat.lt_of_lt_of_le hi' hlen)]

theorem getElem?_words_entry (r : Record) {j : Nat} (hj : j < 4) :
    (r.entry 4).words[j]? = r.words[j]? := by
  rw [← Vector.getElem?_toList, toList_words_entry, List.getElem?_take_of_lt hj]

/-- A program that fills the words of its entry is read from them as far as they go. -/
theorem wordBytes_take_words {r : Record} (h : 32 ≤ r.program.length) :
    Program.wordBytes (r.words.take 4) = r.program.take 32 := by
  obtain ⟨rest, hrest⟩ := Program.prefix_wordBytes_words r.program
  rw [Program.wordBytes_take, words, ← hrest, List.take_append_of_le_length h]

end LogBench.Record
