import LogBench.Proofs.Record.Words

/-! The words of a record one by one: the bytes of the program cut into words of eight, one word again
where the rule says so, and zeros. Numbers that make up a program come back as its words. -/
namespace LogBench

namespace Program

/-- The digits of some words in base 256, eight for each word, the most significant one first. -/
def digitBytes (words : List UInt64) : List UInt8 :=
  words.flatMap fun w => (List.range 8).map fun i => UInt8.ofNat (w.toNat / 256 ^ (7 - i))

private theorem wordBytes_eq_digitBytes (words : List UInt64) :
    wordBytes words = digitBytes words := by
  unfold wordBytes digitBytes
  congr 1
  funext w
  exact Bytes.toBigEndian_eq_map 8 w.toNat

structure Rechunked (program : Program) (words : List UInt64) : Prop where
  length_words : words.length = max 4 ((program.length + 7) / 8)
  /-- The bytes of the words begin with those of the program, then zeros fill up its last word. -/
  spelled : (digitBytes words).take (8 * ((program.length + 7) / 8)) =
    program ++ List.replicate (8 * ((program.length + 7) / 8) - program.length) 0
  /-- The first word behind a program of full words is its last one again. -/
  repeated : 0 < program.length → program.length % 8 = 0 → program.length / 8 < 4 →
    words[program.length / 8]? = words[program.length / 8 - 1]?
  zeros : ∀ i, (program.length + 7) / 8 ≤ i → i < words.length →
    ¬ (0 < program.length ∧ program.length % 8 = 0 ∧ i = program.length / 8) → words[i]? = some 0

section Chunks

private theorem chunkWords_append {chunk : List UInt8} (h : chunk.length = 8) (rest : List UInt8) :
    chunkWords (chunk ++ rest) = UInt64.ofNat (Bytes.bigEndian chunk) :: chunkWords rest := by
  cases chunk with
  | nil => cases h
  | cons b later =>
    have htake : (b :: later ++ rest).take 8 = b :: later := by rw [← h, List.take_left]
    have hdrop : (b :: later ++ rest).drop 8 = rest := by rw [← h, List.drop_left]
    rw [List.cons_append] at htake hdrop ⊢
    rw [chunkWords, htake, hdrop, h, Nat.sub_self, List.replicate_zero, List.append_nil]

/-- Cutting undoes spelling. -/
theorem chunkWords_wordBytes (ints : List UInt64) : chunkWords (wordBytes ints) = ints := by
  induction ints with
  | nil =>
    change chunkWords [] = []
    rw [chunkWords]
  | cons w ints ih =>
    have hword : UInt64.ofNat (Bytes.bigEndian (Bytes.toBigEndian 8 w.toNat)) = w := by
      have hlt : w.toNat < 256 ^ 8 := w.toNat_lt
      rw [Bytes.bigEndian_toBigEndian, Nat.mod_eq_of_lt hlt, UInt64.ofNat_toNat]
    rw [wordBytes_cons, chunkWords_append (Bytes.length_toBigEndian ..), hword, ih]

/-- The words are numbers again, and so is what follows them. -/
theorem words_wordBytes (ints : List UInt64) :
    words (wordBytes ints) =
      if 4 ≤ ints.length then ints
      else ints ++ ints.getLast?.toList ++
        List.replicate (4 - (ints ++ ints.getLast?.toList).length) 0 := by
  have hmod : (wordBytes ints).length % 8 = 0 := by
    rw [length_wordBytes]
    omega
  rw [words, chunkWords_wordBytes]
  by_cases h : 4 ≤ ints.length
  · rw [if_pos h, minWords]
    exact if_neg (Nat.not_lt.mpr h)
  · rw [if_neg h, minWords]
    simp only [Nat.lt_of_not_le h, hmod, if_true]

end Chunks

section Behind

variable {program : Program} {i : Nat}

/-- The words from the end of the bytes on. -/
private theorem getElem?_words_behind (h : (program.length + 7) / 8 ≤ i) :
    (words program)[i]? =
      (repetition program ++ List.replicate
        (minWords - (chunkWords program ++ repetition program).length) 0)[
          i - (program.length + 7) / 8]? := by
  rw [words_eq, List.getElem?_append_right (by rwa [length_chunkWords]), length_chunkWords]

private theorem getElem?_words_zero (h : (program.length + 7) / 8 + (repetition program).length ≤ i)
    (hi : i < (words program).length) : (words program)[i]? = some 0 := by
  rw [words_eq, ← List.append_assoc, List.length_append, List.length_replicate] at hi
  rw [getElem?_words_behind (by omega), List.getElem?_append_right (by omega),
    List.getElem?_replicate, if_pos]
  rw [List.length_append, length_chunkWords] at hi ⊢
  omega

private theorem getElem?_words_repeated (hpos : 0 < program.length) (hfull : program.length % 8 = 0)
    (hshort : program.length / 8 < 4) :
    (words program)[program.length / 8]? = (words program)[program.length / 8 - 1]? := by
  have hlen := length_chunkWords program
  have hindex : (program.length + 7) / 8 = program.length / 8 := by omega
  have hfew : (chunkWords program).length < minWords := by rwa [hlen, hindex]
  have hbefore : program.length / 8 - 1 < (chunkWords program).length := by omega
  have hlast := List.getElem?_eq_getElem hbefore
  have hrep : repetition program = [(chunkWords program)[program.length / 8 - 1]] := by
    rw [repetition, if_pos ⟨hfew, hfull⟩, List.getLast?_eq_getElem?, hlen, hindex, hlast]
    rfl
  calc (words program)[program.length / 8]?
      = some (chunkWords program)[program.length / 8 - 1] := by
        rw [getElem?_words_behind (Nat.le_of_eq hindex), hrep, hindex, Nat.sub_self]
        rfl
    _ = (words program)[program.length / 8 - 1]? := by
        rw [words_eq, List.getElem?_append_left hbefore, hlast]

private theorem rechunked_words (program : Program) : Rechunked program (words program) := by
  refine ⟨length_words program, ?_, getElem?_words_repeated, ?_⟩
  · have hbytes := length_wordBytes (chunkWords program)
    rw [length_chunkWords] at hbytes
    rw [← wordBytes_eq_digitBytes, words_eq, wordBytes_append, ← hbytes, List.take_left, hbytes]
    exact wordBytes_chunkWords program
  · intro i hi hlt hnot
    apply getElem?_words_zero _ hlt
    by_cases hfilled : program.length = 0 ∨ 32 ≤ program.length ∨ program.length % 8 ≠ 0
    · rw [repetition_eq_nil hfilled]
      exact hi
    · -- One word is repeated at most, and its index is left out.
      have hone := length_repetition_le program
      omega

end Behind

end Program

namespace Record
open Program

/-- For every address, program and list of numbers: the words of a record stand for its program. They
are the numbers again where the program is made of these only, and numbers behind a program are written
with the most significant byte first. -/
theorem words_rechunk_program (address : UInt16) (program : Program) (ints : List UInt64) :
    (∀ r, ofProgram? address program = .ok r → Rechunked program r.words) ∧
    (∀ r, ofProgram? address (appendWords [] ints) = .ok r →
      r.words = if 4 ≤ ints.length then ints
        else ints ++ ints.getLast?.toList ++
          List.replicate (4 - (ints ++ ints.getLast?.toList).length) 0) ∧
    ∀ r, ofProgram? address (appendWords program ints) = .ok r →
      r.program = program ++ digitBytes ints := by
  refine ⟨?_, ?_, ?_⟩
  · intro r hr
    rw [words, program_of_ofProgram? hr]
    exact rechunked_words program
  · intro r hr
    rw [words, program_of_ofProgram? hr]
    exact words_wordBytes ints
  · intro r hr
    rw [program_of_ofProgram? hr, ← wordBytes_eq_digitBytes]
    rfl

/-- A program of one full word, two numbers, and the numbers behind the program. -/
theorem words_rechunk_program_full :
    (∃ r, ofProgram? 0 [0x61, 0x62, 0x63, 0x64, 0x65, 0x66, 0x67, 0x68] = .ok r ∧
      Rechunked [0x61, 0x62, 0x63, 0x64, 0x65, 0x66, 0x67, 0x68] r.words) ∧
    (∃ r, ofProgram? 0 (appendWords [] [0x4A, 0x4B]) = .ok r ∧
      r.words = [0x4A, 0x4B, 0x4B, 0]) ∧
    ∃ r, ofProgram? 0
        (appendWords [0x61, 0x62, 0x63, 0x64, 0x65, 0x66, 0x67, 0x68] [0x4A, 0x4B]) = .ok r ∧
      r.program = [0x61, 0x62, 0x63, 0x64, 0x65, 0x66, 0x67, 0x68, 0, 0, 0, 0, 0, 0, 0, 0x4A,
        0, 0, 0, 0, 0, 0, 0, 0x4B] := by
  have hletters : print [0x61, 0x62, 0x63, 0x64, 0x65, 0x66, 0x67, 0x68] =
      .ok [0x61, 0x62, 0x63, 0x64, 0x65, 0x66, 0x67, 0x68] := by
    cbv
  have hnumbers : print (appendWords [] [0x4A, 0x4B]) = .ok [0x4A, 0x4B] := by
    cbv
  have hboth : print (appendWords [0x61, 0x62, 0x63, 0x64, 0x65, 0x66, 0x67, 0x68] [0x4A, 0x4B]) =
      .ok [0x61, 0x62, 0x63, 0x64, 0x65, 0x66, 0x67, 0x68, 0x4A, 0x4B] := by
    cbv
  obtain ⟨hchunks, hints, hbehind⟩ :=
    words_rechunk_program 0 [0x61, 0x62, 0x63, 0x64, 0x65, 0x66, 0x67, 0x68] [0x4A, 0x4B]
  have hr := ofProgram?_of_print hletters 0
  have hr' := ofProgram?_of_print hnumbers 0
  have hr'' := ofProgram?_of_print hboth 0
  exact ⟨⟨_, hr, hchunks _ hr⟩, ⟨_, hr', hints _ hr'⟩, ⟨_, hr'', hbehind _ hr''⟩⟩

end Record

end LogBench
