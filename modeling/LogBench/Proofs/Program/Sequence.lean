import LogBench.Proofs.Program.Reading

/-! Programs one after the other. Where the walk of the first ends at the end of its bytes, no operand
missing, the second prints what it prints alone; behind a stop directive nothing is printed. -/
namespace LogBench.Program
open Directive

/-- The walk of a program goes on from one offset to another, at no stop directive. -/
inductive Leads (program : Program) : Nat → Nat → Prop
  | here {offset : Nat} : Leads program offset offset
  | step {s : Step} {last : Nat} : program[s.offset]? = some s.tag → s.directive ≠ .stop →
      Leads program s.after last → Leads program s.offset last

variable {program : Program} {s : Step} {offset last : Nat}

private theorem Leads.le (h : Leads program offset last) : offset ≤ last := by
  induction h with
  | here => exact Nat.le_refl _
  | step _ _ _ ih =>
    refine Nat.le_trans ?_ ih
    unfold Step.after
    omega

/-- The walk to an offset is the same where the program is cut there. -/
private theorem Leads.take (h : Leads program offset last) :
    Leads (program.take last) offset last := by
  induction h with
  | here => exact .here
  | @step s last ht hgo hl ih =>
    refine .step ?_ hgo ih
    have hlt : s.offset < last := by
      have hle := hl.le
      unfold Step.after at hle
      omega
    rw [List.getElem?_take_of_lt hlt, ht]

/-- The walk to an offset is the same where bytes are put behind the program. -/
private theorem Leads.append (h : Leads program offset last) (rest : List UInt8) :
    Leads (program ++ rest) offset last := by
  induction h with
  | here => exact .here
  | step ht hgo _ ih =>
    refine .step ?_ hgo ih
    rw [List.getElem?_append_left (List.getElem?_eq_some_iff.mp ht).1, ht]

/-- Bytes behind its operands do not matter to a directive. -/
private theorem meaning_append (h : s.after ≤ program.length) (rest : List UInt8) :
    meaning (program ++ rest) s = meaning program s := by
  have hoperands : operandsAt (program ++ rest) s = operandsAt program s := by
    apply List.map_congr_left
    intro i hi
    have hlt : s.offset + 1 + i < program.length := by
      have hi := List.mem_range.mp hi
      unfold Step.after at h
      omega
    rw [List.getD_eq_getElem?_getD, List.getD_eq_getElem?_getD, List.getElem?_append_left hlt]
  rw [meaning, meaning, hoperands]

private theorem Leads.printFrom_append (h : Leads program offset program.length)
    (rest : List UInt8) : printFrom offset ((program ++ rest).drop offset) =
      (printFrom offset (program.drop offset)).bind fun text =>
        (printFrom program.length rest).map (text ++ ·) := by
  -- The last offset is an index of the relation, so it must be a variable for the induction.
  generalize hlast : program.length = last at h
  induction h with
  | @here offset =>
    have hnil : program.drop offset = [] := List.drop_of_length_le (Nat.le_of_eq hlast)
    rw [← hlast, List.drop_left, hlast, hnil, printFrom]
    change _ = (printFrom offset rest).map ([] ++ ·)
    cases printFrom offset rest <;> rfl
  | @step s last ht hgo hl ih =>
    have hafter : s.after ≤ program.length := hlast ▸ hl.le
    have hlt := (List.getElem?_eq_some_iff.mp ht).1
    have ht' : (program ++ rest)[s.offset]? = some s.tag := by
      rw [List.getElem?_append_left hlt, ht]
    rw [printFrom_step ht, printFrom_step ht', if_neg hgo, if_neg hgo]
    by_cases hwide : s.directive.padTooWide = true
    · rw [if_pos hwide, if_pos hwide]
      rfl
    · rw [if_neg hwide, if_neg hwide, meaning_append hafter, ih hlast]
      cases printFrom s.after (program.drop s.after) with
      | error e => rfl
      | ok text =>
        change ((printFrom last rest).map (text ++ ·)).map (meaning program s ++ ·) =
          (printFrom last rest).map ((meaning program s ++ text) ++ ·)
        cases printFrom last rest with
        | error e => rfl
        | ok later => exact congrArg Except.ok (List.append_assoc ..).symm

theorem print_append (h : Leads program 0 program.length) (rest : List UInt8) :
    print (program ++ rest) =
      (print program).bind fun text => (printFrom program.length rest).map (text ++ ·) :=
  h.printFrom_append rest

/-- What prints nothing may follow. -/
private theorem print_append_of_silent (h : Leads program 0 program.length) {rest : List UInt8}
    (hrest : printFrom program.length rest = .ok []) : print (program ++ rest) = print program := by
  rw [print_append h, hrest]
  cases print program with
  | error e => rfl
  | ok text => exact congrArg Except.ok (List.append_nil text)

theorem printFrom_stop (offset : Nat) (rest : List UInt8) :
    printFrom offset (0xFF :: rest) = .ok [] := by
  have hstop : ofTag 0xFF = .stop := rfl
  rw [printFrom]
  exact if_pos hstop

private theorem printFrom_zeros (offset n : Nat) :
    printFrom offset (List.replicate n 0) = .ok [] := by
  induction n generalizing offset with
  | zero => rw [List.replicate_zero, printFrom]
  | succ n ih =>
    have hskip : ofTag 0 = .skip := rfl
    rw [List.replicate_succ, printFrom, hskip]
    change ((printFrom (offset + 1) (List.replicate n 0)).bind _) = _
    rw [ih]
    rfl

/-- A stop directive that the walk comes to ends the program. -/
theorem print_of_stop (h : Leads program 0 offset) (hstop : program[offset]? = some 0xFF) :
    print program = print (program.take offset) := by
  obtain ⟨hlt, htag⟩ := List.getElem?_eq_some_iff.mp hstop
  have hlen : (program.take offset).length = offset := by
    rw [List.length_take]
    exact Nat.min_eq_left (Nat.le_of_lt hlt)
  have hleads : Leads (program.take offset) 0 (program.take offset).length := by
    rw [hlen]
    exact h.take
  have hsplit : program = program.take offset ++ 0xFF :: program.drop (offset + 1) := by
    rw [← htag, ← List.drop_eq_getElem_cons hlt, List.take_append_drop]
  calc print program
      = print (program.take offset ++ 0xFF :: program.drop (offset + 1)) := by rw [← hsplit]
    _ = print (program.take offset) := print_append_of_silent hleads (printFrom_stop ..)

/-- Whatever stands behind a stop directive that the walk comes to, nothing of it is printed. -/
theorem print_append_of_stop (h : Leads program 0 offset) (hstop : program[offset]? = some 0xFF)
    (rest : List UInt8) : print (program ++ rest) = print program := by
  have hlt := (List.getElem?_eq_some_iff.mp hstop).1
  have hstop' : (program ++ rest)[offset]? = some 0xFF := by
    rw [List.getElem?_append_left hlt, hstop]
  rw [print_of_stop (h.append rest) hstop', List.take_append_of_le_length (Nat.le_of_lt hlt),
    print_of_stop h hstop]

theorem print_append_zeros (h : Leads program 0 program.length) (n : Nat) :
    print (program ++ List.replicate n 0) = print program :=
  print_append_of_silent h (printFrom_zeros _ n)

end LogBench.Program
