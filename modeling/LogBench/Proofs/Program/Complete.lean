import LogBench.Proofs.Program.Sequence

/-! Complete programs, which end with the last operand of a directive. Printing takes one program behind
another to the one text behind the other, and an error to the same error at a later offset. -/
namespace LogBench.Program

def PadError.later (n : Nat) (e : PadError) : PadError :=
  { e with offset := e.offset + n }

/-- The walk ends exactly where the program does, so no operand is missing; it comes to no stop
directive and to no rejected one. -/
structure Complete (program : Program) : Prop where
  leads : Leads program 0 program.length
  accepted : ∀ s ∈ steps program, ¬ s.Rejected

/-- Where printing begins only shows in the offset of an error. -/
private theorem printFrom_later (n offset : Nat) (bytes : List UInt8) :
    printFrom (offset + n) bytes = (printFrom offset bytes).mapError (PadError.later n) := by
  induction offset, bytes using printFrom.induct with
  | case1 offset =>
    rw [printFrom, printFrom]
    rfl
  | case2 offset tag rest directive hstop =>
    rw [printFrom, printFrom, if_pos hstop, if_pos hstop]
    rfl
  | case3 offset tag rest directive hgo hwide =>
    rw [printFrom, printFrom, if_neg hgo, if_neg hgo, if_pos hwide, if_pos hwide]
    rfl
  | case4 offset tag rest directive count hgo hnarrow ih =>
    have hoffset : offset + n + 1 + count = offset + 1 + count + n := by omega
    rw [printFrom, printFrom, if_neg hgo, if_neg hgo, if_neg hnarrow, if_neg hnarrow, hoffset, ih]
    cases printFrom (offset + 1 + count) (rest.drop count) <;> rfl

variable {program : Program}

/-- A complete program prints the texts of its directives. -/
theorem Complete.print_eq (h : Complete program) :
    print program = .ok ((steps program).flatMap (meaning program)) := by
  have hnone : (steps program).find? (·.directive.padTooWide) = none := by
    rw [List.find?_eq_none]
    intro s hs
    exact mt rejected_iff.mp (h.accepted s hs)
  rw [print_eq_reading, reading, hnone]

/-- Behind a complete program another one is printed as it is alone, but for the offset of an error. -/
theorem Complete.print_append (h : Complete program) (rest : Program) :
    print (program ++ rest) = ((print rest).mapError (PadError.later program.length)).map
      ((steps program).flatMap (meaning program) ++ ·) := by
  have hrest := printFrom_later program.length 0 rest
  rw [Nat.zero_add] at hrest
  rw [Program.print_append h.leads, h.print_eq, hrest]
  rfl

/-- For every complete program and every program behind it: the texts stand one behind the other, or
the error of the second program is that of both, with the length of the first added to its offset. -/
theorem print_append_of_complete (h : Complete program) (rest : Program) : ∃ text,
    print program = .ok text ∧
    (∀ later, print rest = .ok later → print (program ++ rest) = .ok (text ++ later)) ∧
    ∀ e, print rest = .error e →
      print (program ++ rest) = .error ⟨e.tag, e.pad, e.offset + program.length⟩ := by
  refine ⟨_, h.print_eq, ?_, ?_⟩
  · intro later hlater
    rw [h.print_append, hlater]
    rfl
  · intro e he
    rw [h.print_append, he]
    rfl

/-- The operands of the first program look like a stop and like a rejected tag. -/
theorem print_append_of_complete_hidden :
    Complete [0x82, 0xFF, 0xA8, 0x48] ∧
    print ([0x82, 0xFF, 0xA8, 0x48] ++ [0x91, 0x00]) =
      .ok ([0x46, 0x41, 0x38, 0x48] ++ [0x20, 0x20, 0x32, 0x35, 0x35]) ∧
    print ([0x82, 0xFF, 0xA8, 0x48] ++ [0x69, 0xA8]) = .error ⟨0xA8, 10, 1 + 4⟩ := by
  have hsteps : steps [0x82, 0xFF, 0xA8, 0x48] = [⟨0, 0x82⟩, ⟨3, 0x48⟩] := by cbv
  have hcomplete : Complete [0x82, 0xFF, 0xA8, 0x48] := by
    have hleads : Leads [0x82, 0xFF, 0xA8, 0x48] 0 4 :=
      .step (s := ⟨0, 0x82⟩) rfl (by decide) (.step (s := ⟨3, 0x48⟩) rfl (by decide) .here)
    refine ⟨hleads, ?_⟩
    rw [hsteps]
    decide
  have hprint : print [0x82, 0xFF, 0xA8, 0x48] = .ok [0x46, 0x41, 0x38, 0x48] := by cbv
  refine ⟨hcomplete, ?_, ?_⟩
  · obtain ⟨text, htext, hok, -⟩ := print_append_of_complete hcomplete [0x91, 0x00]
    cases hprint.symm.trans htext
    exact hok _ (by cbv)
  · obtain ⟨text, htext, -, herror⟩ := print_append_of_complete hcomplete [0x69, 0xA8]
    exact herror _ (by cbv)

end LogBench.Program
