import LogBench.Proofs.Program.Sequence
import Mathlib.Data.List.GetD

/-! Fillers behind a program change nothing. A directive that is cut off reads the operands that it would
miss anyway, and the first filler that is read as a tag is a stop. -/
namespace LogBench.Program
open Directive

private theorem getD_append_fillers (bytes : List UInt8) (k i : Nat) :
    (bytes ++ List.replicate k filler).getD i filler = bytes.getD i filler := by
  rcases Nat.lt_or_ge i bytes.length with hlt | hge
  · exact List.getD_append _ _ _ _ hlt
  · rw [List.getD_append_right _ _ _ _ hge, List.getD_eq_getElem?_getD, List.getElem?_getD_replicate_default_eq,
      List.getD_eq_default _ _ hge]

private theorem operands_append_fillers (count : Nat) (bytes : List UInt8) (k : Nat) :
    operands count (bytes ++ List.replicate k filler) = operands count bytes := by
  rw [operands_eq, operands_eq]
  apply List.map_congr_left
  intro i _
  exact getD_append_fillers bytes k i

/-- What is left behind the operands, which may reach into the fillers or past them. -/
private theorem drop_append_fillers (count : Nat) (bytes : List UInt8) (k : Nat) :
    (bytes ++ List.replicate k filler).drop count =
      bytes.drop count ++ List.replicate (k - (count - bytes.length)) filler := by
  rw [List.drop_append, List.drop_replicate]

private theorem printFrom_fillers (offset k : Nat) :
    printFrom offset (List.replicate k filler) = .ok [] := by
  cases k with
  | zero => rw [List.replicate_zero, printFrom]
  | succ k => exact printFrom_stop offset _

private theorem printFrom_append_fillers (offset : Nat) (bytes : List UInt8) (k : Nat) :
    printFrom offset (bytes ++ List.replicate k filler) = printFrom offset bytes := by
  -- The operands may take some of the fillers, so the induction is for every number of them.
  induction offset, bytes using printFrom.induct generalizing k with
  | case1 offset => rw [List.nil_append, printFrom_fillers, printFrom]
  | case2 offset tag rest directive hstop =>
    rw [List.cons_append, printFrom, printFrom, if_pos hstop, if_pos hstop]
  | case3 offset tag rest directive hgo hwide =>
    rw [List.cons_append, printFrom, printFrom, if_neg hgo, if_neg hgo, if_pos hwide, if_pos hwide]
  | case4 offset tag rest directive count hgo hnarrow ih =>
    rw [List.cons_append, printFrom, printFrom, if_neg hgo, if_neg hgo, if_neg hnarrow,
      if_neg hnarrow, drop_append_fillers, ih, operands_append_fillers]

/-- For every program and every number of fillers: it prints the same text or fails with the same error.
Wherever a directive stands, its operands are the same, and the first stop that the walk comes to ends
the program. -/
theorem print_append_fillers (program : Program) (k : Nat) :
    print (program ++ List.replicate k 0xFF) = print program ∧
    (∀ count start, operands count ((program ++ List.replicate k 0xFF).drop start) =
      operands count (program.drop start)) ∧
    ∀ offset, Leads program 0 offset → program[offset]? = some 0xFF →
      print program = print (program.take offset) := by
  refine ⟨printFrom_append_fillers 0 program k, ?_, ?_⟩
  · intro count start
    change operands count ((program ++ List.replicate k filler).drop start) = _
    rw [drop_append_fillers, operands_append_fillers]
  · intro offset hleads hstop
    exact print_of_stop hleads hstop

/-- Two of three operands are missing, and one filler is put there. A stop, and a rejected tag behind it. -/
theorem print_append_fillers_cut :
    print ([0x41, 0x85, 0x01] ++ List.replicate 1 0xFF) =
      .ok [0x41, 0x30, 0x31, 0x46, 0x46, 0x46, 0x46] ∧
    print [0x41, 0xFF, 0xA8] = print [0x41] := by
  have hprint : print [0x41, 0x85, 0x01] = .ok [0x41, 0x30, 0x31, 0x46, 0x46, 0x46, 0x46] := by cbv
  obtain ⟨hsame, -, -⟩ := print_append_fillers [0x41, 0x85, 0x01] 1
  obtain ⟨-, -, hends⟩ := print_append_fillers [0x41, 0xFF, 0xA8] 0
  refine ⟨hsame.trans hprint, ?_⟩
  exact hends 1 (.step (s := ⟨0, 0x41⟩) rfl (by decide) .here) rfl

end LogBench.Program
