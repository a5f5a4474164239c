import LogBench.Proofs.Program.Sequence
import LogBench.Proofs.Record.Words

/-! A record that fits the four words of a bus entry prints the same text from the bytes of the entry.
The zeros behind the program print nothing, and neither does a repeated word behind a stop. -/
namespace LogBench

namespace Program

/-- The walk comes to a stop directive, or it ends where the program does and no word is repeated. -/
theorem print_wordBytes_words {program : Program}
    (h : (∃ offset, Leads program 0 offset ∧ program[offset]? = some 0xFF) ∨
      Leads program 0 program.length ∧
        (program.length = 0 ∨ 32 ≤ program.length ∨ program.length % 8 ≠ 0)) :
    print (wordBytes (words program)) = print program := by
  rcases h with ⟨offset, hleads, hstop⟩ | ⟨hleads, hfilled⟩
  · obtain ⟨rest, hrest⟩ := prefix_wordBytes_words program
    rw [← hrest, print_append_of_stop hleads hstop]
  · obtain ⟨n, hzeros⟩ := exists_wordBytes_words_eq hfilled
    rw [hzeros, print_append_zeros hleads]

/-- Eight literals make a full word, which is repeated, and so they are printed twice. -/
example : print (wordBytes (words [0x61, 0x62, 0x63, 0x64, 0x65, 0x66, 0x67, 0x68])) =
    .ok [0x61, 0x62, 0x63, 0x64, 0x65, 0x66, 0x67, 0x68,
      0x61, 0x62, 0x63, 0x64, 0x65, 0x66, 0x67, 0x68] := by
  cbv

end Program

namespace Record
open Program

/-- The bytes of an entry are those of all words, where there are only four. -/
private theorem wordBytes_entry_of_short {r : Record} (h : r.program.length ≤ 32) :
    wordBytes (r.entry 4).words.toList = wordBytes r.words := by
  have hlen : r.words.length = 4 := length_words_of_short h
  rw [toList_words_entry, List.take_of_length_le (Nat.le_of_eq hlen)]

/-- For every address and every program of 32 bytes at most that prints, if the walk comes to a stop
directive, or ends where the program does and no word of it is repeated. -/
theorem entry_reprints_record {address : UInt16} {program : Program} {r : Record}
    (hr : ofProgram? address program = .ok r) (hlen : program.length ≤ 32)
    (hwalk : (∃ offset, Leads program 0 offset ∧ program[offset]? = some 0xFF) ∨
      Leads program 0 program.length ∧
        (program.length = 0 ∨ program.length = 32 ∨ program.length % 8 ≠ 0)) :
    print (wordBytes (r.entry 4).words.toList) = .ok r.output := by
  have hprogram := program_of_ofProgram? hr
  rw [← hprogram] at hlen hwalk
  rw [wordBytes_entry_of_short hlen, ← r.print_eq]
  apply print_wordBytes_words
  rcases hwalk with hstop | ⟨hleads, hfilled⟩
  · exact .inl hstop
  · exact .inr ⟨hleads, by omega⟩

/-- A full word with a stop in it, which is repeated, and a program of half a word with an operand. -/
theorem entry_reprints_record_samples :
    (∃ r, ofProgram? 7 [0x48, 0x69, 0xFF, 0x82, 0x4A, 0x4B, 0x4C, 0x4D] = .ok r ∧
      Leads [0x48, 0x69, 0xFF, 0x82, 0x4A, 0x4B, 0x4C, 0x4D] 0 2 ∧ r.output = [0x48, 0x69] ∧
      print (wordBytes (r.entry 4).words.toList) = .ok r.output) ∧
    ∃ r, ofProgram? 7 [0x48, 0x82, 0xFF, 0xBC] = .ok r ∧
      Leads [0x48, 0x82, 0xFF, 0xBC] 0 4 ∧ r.output = [0x48, 0x46, 0x42, 0x43] ∧
      print (wordBytes (r.entry 4).words.toList) = .ok r.output := by
  constructor
  · have hprint : print [0x48, 0x69, 0xFF, 0x82, 0x4A, 0x4B, 0x4C, 0x4D] = .ok [0x48, 0x69] := by
      cbv
    have hr := ofProgram?_of_print hprint 7
    have hleads : Leads [0x48, 0x69, 0xFF, 0x82, 0x4A, 0x4B, 0x4C, 0x4D] 0 2 :=
      .step (s := ⟨0, 0x48⟩) rfl (by decide) (.step (s := ⟨1, 0x69⟩) rfl (by decide) .here)
    exact ⟨_, hr, hleads, rfl, entry_reprints_record hr (by decide) (.inl ⟨2, hleads, rfl⟩)⟩
  · have hprint : print [0x48, 0x82, 0xFF, 0xBC] = .ok [0x48, 0x46, 0x42, 0x43] := by
      cbv
    have hr := ofProgram?_of_print hprint 7
    have hleads : Leads [0x48, 0x82, 0xFF, 0xBC] 0 4 :=
      .step (s := ⟨0, 0x48⟩) rfl (by decide) (.step (s := ⟨1, 0x82⟩) rfl (by decide) .here)
    exact ⟨_, hr, hleads, rfl,
      entry_reprints_record hr (by decide) (.inr ⟨hleads, .inr (.inr (by decide))⟩)⟩

end Record

end LogBench
