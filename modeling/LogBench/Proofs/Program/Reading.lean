import LogBench.Proofs.Program.Spelling

/-! A program prints what its format says, as the format is read by the numbers of the tags: the walk
over the directives, the text of each, and the first one that asks for too much padding. -/
namespace LogBench.Program
open Directive

/-- The number that so many bytes after a tag stand for, a byte past the end being missing. -/
def operandValue (program : Program) (s : Step) (count : Nat) : Nat :=
  Bytes.bigEndian ((List.range count).map fun i => program.getD (s.offset + 1 + i) filler)

/-- How many operand bytes a tag has, and what it prints with them. -/
inductive Reads (program : Program) (s : Step) : Nat → List UInt8 → Prop
  | nothing : s.tag.toNat = 0x00 → Reads program s 0 []
  | byte : 0x01 ≤ s.tag.toNat → s.tag.toNat ≤ 0x7F → Reads program s 0 [s.tag]
  | hex {digits : Nat} : s.tag.toNat = 0x7F + digits → 1 ≤ digits → digits ≤ 16 →
      Reads program s ((digits + 1) / 2)
        (hexSpelling digits (operandValue program s ((digits + 1) / 2) % 16 ^ digits))
  | decimal {operands pad : Nat} : 0x90 ≤ s.tag.toNat → s.tag.toNat ≤ 0xFE →
      operands = s.tag.toNat % 4 + 1 → pad = s.tag.toNat / 4 % 16 →
      Reads program s operands
        (decimalSpelling (if pad = 0 then 0 else pad + 1) (operandValue program s operands))

/-- The steps from an offset on with their texts, up to a stop tag or the end of the program. -/
inductive Walk (program : Program) : Nat → List (Step × List UInt8) → Prop
  | past {offset : Nat} : program.length ≤ offset → Walk program offset []
  | stop {offset : Nat} : program[offset]? = some 0xFF → Walk program offset []
  | step {offset count : Nat} {tag : UInt8} {text : List UInt8}
      {later : List (Step × List UInt8)} : program[offset]? = some tag →
      Reads program ⟨offset, tag⟩ count text → Walk program (offset + 1 + count) later →
      Walk program offset ((⟨offset, tag⟩, text) :: later)

structure Step.Rejected (s : Step) : Prop where
  low : 0x90 ≤ s.tag.toNat
  high : s.tag.toNat ≤ 0xFE
  pad : 10 ≤ s.tag.toNat / 4 % 16

section Tags

variable {tag : UInt8}

private theorem ofTag_eq (tag : UInt8) : ofTag tag =
    if tag.toNat = 0x00 then .skip
    else if tag.toNat < 0x80 then .literal tag
    else if tag.toNat < 0x90 then .hex (tag.toNat % 16 + 1)
    else if tag.toNat < 0xFF then .decimal (tag.toNat % 4 + 1) (tag.toNat / 4 % 16)
    else .stop := by
  simp only [ofTag, UInt8.lt_iff_toNat_lt, ← UInt8.toNat_inj]
  rfl

private theorem ofTag_skip (h : tag.toNat = 0x00) : ofTag tag = .skip := by
  rw [ofTag_eq, if_pos h]

private theorem ofTag_literal (hlow : 0x01 ≤ tag.toNat) (hhigh : tag.toNat ≤ 0x7F) :
    ofTag tag = .literal tag := by
  rw [ofTag_eq, if_neg (by omega), if_pos (by omega)]

private theorem ofTag_hex {digits : Nat} (h : tag.toNat = 0x7F + digits) (hpos : 1 ≤ digits)
    (hle : digits ≤ 16) : ofTag tag = .hex digits := by
  have hdigits : tag.toNat % 16 + 1 = digits := by omega
  rw [ofTag_eq, if_neg (by omega), if_neg (by omega), if_pos (by omega), hdigits]

private theorem ofTag_decimal (hlow : 0x90 ≤ tag.toNat) (hhigh : tag.toNat ≤ 0xFE) :
    ofTag tag = .decimal (tag.toNat % 4 + 1) (tag.toNat / 4 % 16) := by
  rw [ofTag_eq, if_neg (by omega), if_neg (by omega), if_neg (by omega), if_pos (by omega)]

private theorem ofTag_eq_stop_iff : ofTag tag = .stop ↔ tag = 0xFF := by
  constructor
  · intro h
    rw [ofTag_eq] at h
    split_ifs at h
    have hlt := tag.toNat_lt
    rw [← UInt8.toNat_inj]
    change tag.toNat = 0xFF
    omega
  · rintro rfl
    rfl

end Tags

section Steps

variable {program : Program} {s : Step} {count : Nat} {text : List UInt8}

/-- The five ranges of the tags do not overlap. -/
private theorem Reads.eq (h : Reads program s count text) :
    s.directive ≠ .stop ∧ count = s.directive.operandCount ∧ text = meaning program s := by
  unfold meaning operandsAt
  cases h with
  | nothing h0 =>
    have hd : s.directive = .skip := ofTag_skip h0
    rw [hd]
    exact ⟨Directive.noConfusion, rfl, rfl⟩
  | byte hlow hhigh =>
    have hd : s.directive = .literal s.tag := ofTag_literal hlow hhigh
    rw [hd]
    exact ⟨Directive.noConfusion, rfl, rfl⟩
  | hex hdigits hpos hle =>
    have hd : s.directive = .hex _ := ofTag_hex hdigits hpos hle
    rw [hd]
    exact ⟨Directive.noConfusion, rfl, rfl⟩
  | decimal hlow hhigh hoperands hpad =>
    have hd : s.directive = .decimal _ _ := ofTag_decimal hlow hhigh
    rw [← hoperands, ← hpad] at hd
    rw [hd]
    exact ⟨Directive.noConfusion, rfl, rfl⟩

/-- The five ranges of the tags leave none out. -/
private theorem reads_meaning (program : Program) (h : s.directive ≠ .stop) :
    Reads program s s.directive.operandCount (meaning program s) := by
  have hreads : ∃ count text, Reads program s count text := by
    have hstop : s.tag.toNat ≠ 0xFF := fun h0 => h (ofTag_eq_stop_iff.mpr (UInt8.toNat_inj.mp h0))
    have hlt := s.tag.toNat_lt
    have hcases : s.tag.toNat = 0x00 ∨ (0x01 ≤ s.tag.toNat ∧ s.tag.toNat ≤ 0x7F) ∨
        (0x80 ≤ s.tag.toNat ∧ s.tag.toNat < 0x90) ∨
        (0x90 ≤ s.tag.toNat ∧ s.tag.toNat ≤ 0xFE) := by omega
    rcases hcases with h0 | ⟨hlow, hhigh⟩ | ⟨hlow, hhigh⟩ | ⟨hlow, hhigh⟩
    · exact ⟨_, _, .nothing h0⟩
    · exact ⟨_, _, .byte hlow hhigh⟩
    · have hdigits : s.tag.toNat = 0x7F + (s.tag.toNat - 0x7F) := by omega
      exact ⟨_, _, .hex hdigits (by omega) (by omega)⟩
    · exact ⟨_, _, .decimal hlow hhigh rfl rfl⟩
  obtain ⟨count, text, hr⟩ := hreads
  obtain ⟨-, hcount, htext⟩ := hr.eq
  rwa [← hcount, ← htext]

private theorem pad_eq_of_rejected (h : s.Rejected) : s.directive.pad = s.tag.toNat / 4 % 16 := by
  have hd : s.directive = .decimal _ _ := ofTag_decimal h.low h.high
  rw [hd]
  rfl

theorem rejected_iff : s.directive.padTooWide = true ↔ s.Rejected := by
  constructor
  · intro h
    rw [padTooWide, decide_eq_true_iff, Step.directive, ofTag_eq] at h
    split_ifs at h with h0 hbyte hhex hstop
    · exact absurd h (Nat.not_lt_zero maxPad)
    · exact absurd h (Nat.not_lt_zero maxPad)
    · exact absurd h (Nat.not_lt_zero maxPad)
    · exact ⟨by omega, by omega, h⟩
    · exact absurd h (Nat.not_lt_zero maxPad)
  · intro h
    have hpad := h.pad
    rw [padTooWide, decide_eq_true_iff, pad_eq_of_rejected h, maxPad]
    omega

instance (s : Step) : Decidable s.Rejected :=
  decidable_of_iff _ rejected_iff

/-- No tag has more operand bytes than a word of 32 bits holds. -/
private theorem operands_le_four {operands pad : Nat} (h : s.directive = .decimal operands pad) :
    operands ≤ 4 := by
  rw [Step.directive, ofTag_eq] at h
  split_ifs at h
  injection h with hoperands
  omega

end Steps

section Printing

variable {program : Program} {s : Step}

theorem operands_eq (count : Nat) (bytes : List UInt8) :
    operands count bytes = (List.range count).map fun i => bytes.getD i filler := by
  induction count generalizing bytes with
  | zero => rfl
  | succ count ih =>
    rw [List.range_succ_eq_map, List.map_cons, List.map_map]
    cases bytes with
    | nil => rw [operands, ih]; rfl
    | cons b rest => rw [operands, ih]; rfl

private theorem operands_drop (program : Program) (s : Step) :
    operands s.directive.operandCount (program.drop (s.offset + 1)) = operandsAt program s := by
  rw [operands_eq, operandsAt]
  apply List.map_congr_left
  intro i _
  rw [List.getD_eq_getElem?_getD, List.getD_eq_getElem?_getD, List.getElem?_drop]

/-- The digits that are printed are those of the number that the operands stand for. -/
private theorem printDirective_eq (program : Program) (s : Step) :
    printDirective (operandsAt program s) s.directive = meaning program s := by
  have hlen : (operandsAt program s).length = s.directive.operandCount := by
    rw [operandsAt, List.length_map, List.length_range]
  unfold meaning
  cases hd : s.directive with
  | skip => rfl
  | stop => rfl
  | literal b => rfl
  | hex digits =>
    rw [hd] at hlen
    exact printHex_eq hlen
  | decimal operands pad =>
    rw [hd] at hlen
    exact printDecimal_eq pad (hlen ▸ operands_le_four hd)

theorem printFrom_step (ht : program[s.offset]? = some s.tag) :
    printFrom s.offset (program.drop s.offset) =
      if s.directive = .stop then .ok []
      else if s.directive.padTooWide then .error ⟨s.tag, s.directive.pad, s.offset⟩
      else (printFrom s.after (program.drop s.after)).map (meaning program s ++ ·) := by
  obtain ⟨hlt, htag⟩ := List.getElem?_eq_some_iff.mp ht
  rw [List.drop_eq_getElem_cons hlt, htag, printFrom, List.drop_drop]
  change (if s.directive = .stop then _ else if s.directive.padTooWide = true then _ else _) = _
  congr 2
  rw [← printDirective_eq, ← operands_drop]
  change (printFrom s.after (program.drop s.after)).bind _ = _
  cases printFrom s.after (program.drop s.after) <;> rfl

end Printing

def textsFrom (program : Program) (offset : Nat) : List (Step × List UInt8) :=
  (stepsFrom program offset).map fun s => (s, meaning program s)

section Texts

variable {program : Program} {offset : Nat} {s : Step}

private theorem textsFrom_past (h : program.length ≤ offset) : textsFrom program offset = [] := by
  rw [textsFrom, stepsFrom, dif_neg (Nat.not_lt.mpr h), List.map_nil]

private theorem textsFrom_stop (ht : program[s.offset]? = some s.tag) (h : s.directive = .stop) :
    textsFrom program s.offset = [] := by
  obtain ⟨hlt, htag⟩ := List.getElem?_eq_some_iff.mp ht
  rw [textsFrom, stepsFrom, dif_pos hlt, htag]
  exact congrArg (List.map _) (if_pos h)

private theorem textsFrom_step (ht : program[s.offset]? = some s.tag) (h : s.directive ≠ .stop) :
    textsFrom program s.offset = (s, meaning program s) :: textsFrom program s.after := by
  obtain ⟨hlt, htag⟩ := List.getElem?_eq_some_iff.mp ht
  rw [textsFrom, stepsFrom, dif_pos hlt, htag]
  exact congrArg (List.map _) (if_neg h)

variable {walked : List (Step × List UInt8)}

private theorem Walk.eq (h : Walk program offset walked) : walked = textsFrom program offset := by
  induction h with
  | past hpast => exact (textsFrom_past hpast).symm
  | @stop offset hstop => exact (textsFrom_stop (s := ⟨offset, 0xFF⟩) hstop rfl).symm
  | @step offset count tag text later ht hreads _ ih =>
    obtain ⟨hgo, rfl, rfl⟩ := hreads.eq
    rw [ih]
    exact (textsFrom_step ht hgo).symm

private theorem walk_textsFrom (program : Program) (offset : Nat) :
    Walk program offset (textsFrom program offset) := by
  induction offset using stepsFrom.induct program with
  | case1 offset hlt step hstop =>
    have ht : program[step.offset]? = some step.tag := List.getElem?_eq_getElem hlt
    rw [textsFrom_stop ht hstop]
    rw [ofTag_eq_stop_iff.mp hstop] at ht
    exact .stop ht
  | case2 offset hlt step hgo ih =>
    have ht : program[step.offset]? = some step.tag := List.getElem?_eq_getElem hlt
    rw [textsFrom_step ht hgo]
    exact .step ht (reads_meaning program hgo) ih
  | case3 offset hge =>
    have hpast := Nat.le_of_not_lt hge
    rw [textsFrom_past hpast]
    exact .past hpast

end Texts

/-- What is printed for the steps of a walk: the first rejected one decides. -/
def outcome (walked : List (Step × List UInt8)) : Except PadError (List UInt8) :=
  match walked.find? (·.1.directive.padTooWide) with
  | some (s, _) => .error ⟨s.tag, s.directive.pad, s.offset⟩
  | none => .ok (walked.flatMap Prod.snd)

section Outcomes

variable {s : Step} {text : List UInt8} {walked later : List (Step × List UInt8)}

private theorem outcome_of_rejected (h : s.directive.padTooWide = true) :
    outcome ((s, text) :: later) = .error ⟨s.tag, s.directive.pad, s.offset⟩ := by
  simp only [outcome, List.find?_cons, h]

private theorem outcome_of_accepted (h : ¬ s.directive.padTooWide = true) :
    outcome ((s, text) :: later) = (outcome later).map (text ++ ·) := by
  simp only [outcome, List.find?_cons, h, List.flatMap_cons]
  cases later.find? (·.1.directive.padTooWide) <;> rfl

private theorem outcome_eq_error_iff {e : PadError} :
    outcome walked = .error e ↔ ∃ earlier s text later,
      walked = earlier ++ (s, text) :: later ∧ (∀ x ∈ earlier, ¬ x.1.Rejected) ∧ s.Rejected ∧
      e = ⟨s.tag, s.tag.toNat / 4 % 16, s.offset⟩ := by
  constructor
  · intro h
    rw [outcome] at h
    split at h
    · rename_i s text hfind
      obtain ⟨hwide, earlier, later, hsplit, hearlier⟩ := List.find?_eq_some_iff_append.mp hfind
      have hrejected : s.Rejected := rejected_iff.mp hwide
      refine ⟨earlier, s, text, later, hsplit, ?_, hrejected, ?_⟩
      · intro x hx hx'
        have hnarrow := hearlier x hx
        rw [rejected_iff.mpr hx'] at hnarrow
        exact Bool.noConfusion hnarrow
      · rw [← pad_eq_of_rejected hrejected]
        exact (Except.error.inj h).symm
    · cases h
  · rintro ⟨earlier, s, text, later, rfl, hearlier, hrejected, rfl⟩
    rw [← pad_eq_of_rejected hrejected]
    induction earlier with
    | nil => exact outcome_of_rejected (rejected_iff.mpr hrejected)
    | cons x earlier ih =>
      obtain ⟨hx, hearlier⟩ := List.forall_mem_cons.mp hearlier
      rw [List.cons_append, outcome_of_accepted (mt rejected_iff.mp hx), ih hearlier]
      rfl

private theorem outcome_eq_ok (h : ∀ x ∈ walked, ¬ x.1.Rejected) :
    outcome walked = .ok (walked.flatMap Prod.snd) := by
  induction walked with
  | nil => rfl
  | cons x walked ih =>
    obtain ⟨hx, hwalked⟩ := List.forall_mem_cons.mp h
    rw [outcome_of_accepted (mt rejected_iff.mp hx), ih hwalked]
    rfl

/-- What is left to print is decided by the steps that are left to walk. -/
private theorem printFrom_drop (program : Program) (offset : Nat) :
    printFrom offset (program.drop offset) = outcome (textsFrom program offset) := by
  induction offset using stepsFrom.induct program with
  | case1 offset hlt step hstop =>
    have ht : program[step.offset]? = some step.tag := List.getElem?_eq_getElem hlt
    rw [textsFrom_stop ht hstop]
    exact (printFrom_step ht).trans (if_pos hstop)
  | case2 offset hlt step hgo ih =>
    have ht : program[step.offset]? = some step.tag := List.getElem?_eq_getElem hlt
    rw [textsFrom_step ht hgo]
    apply (printFrom_step ht).trans
    rw [if_neg hgo]
    by_cases hwide : step.directive.padTooWide = true
    · rw [if_pos hwide, outcome_of_rejected hwide]
    · rw [if_neg hwide, outcome_of_accepted hwide, ih]
  | case3 offset hge =>
    have hpast := Nat.le_of_not_lt hge
    rw [textsFrom_past hpast, List.drop_eq_nil_of_le hpast, printFrom]
    rfl

private theorem print_eq_outcome (program : Program) :
    print program = outcome (textsFrom program 0) :=
  printFrom_drop program 0

/-- The two definitions of what a program prints agree. -/
theorem print_eq_reading (program : Program) : print program = reading program := by
  rw [print_eq_outcome, outcome, textsFrom, List.find?_map, List.flatMap_map, reading, steps]
  have hwide : ((fun x : Step × List UInt8 => x.1.directive.padTooWide) ∘
      fun s => (s, meaning program s)) = fun s => s.directive.padTooWide := rfl
  rw [hwide]
  cases (stepsFrom program 0).find? (·.directive.padTooWide) <;> rfl

/-- There is one walk of a program. The first rejected step on it decides the error, and without one
the program prints the texts along it. No operand is too long for the word it is accumulated in. -/
theorem print_reads_format (program : Program) : ∃ walked,
    (∀ other, Walk program 0 other ↔ other = walked) ∧
    (∀ e, print program = .error e ↔ ∃ earlier s text later,
      walked = earlier ++ (s, text) :: later ∧ (∀ x ∈ earlier, ¬ x.1.Rejected) ∧ s.Rejected ∧
      e = ⟨s.tag, s.tag.toNat / 4 % 16, s.offset⟩) ∧
    ((∀ x ∈ walked, ¬ x.1.Rejected) → print program = .ok (walked.flatMap Prod.snd)) ∧
    (∀ bytes : List UInt8, bytes.length ≤ 4 →
      (bytes.foldl (fun (word : UInt32) b => word <<< 8 ||| b.toUInt32) 0).toNat =
        Bytes.bigEndian bytes) := by
  refine ⟨textsFrom program 0, ?_, ?_, ?_, toNat_accumulated⟩
  · intro other
    constructor
    · intro h
      exact h.eq
    · rintro rfl
      exact walk_textsFrom program 0
  · intro e
    rw [print_eq_outcome]
    exact outcome_eq_error_iff
  · intro h
    rw [print_eq_outcome]
    exact outcome_eq_ok h

/-- Operands that look like tags, and operands past the end. -/
theorem print_reads_format_hidden :
    print [0x82, 0xFF, 0xBC, 0x91, 0x00] = .ok [0x46, 0x42, 0x43, 0x20, 0x20, 0x32, 0x35, 0x35] ∧
      print [0x82, 0xFF, 0xBC, 0xBC, 0x00] = .error ⟨0xBC, 15, 3⟩ ∧
      (([0xFF, 0xFF, 0xFF, 0xFF] : List UInt8).foldl
        (fun (word : UInt32) b => word <<< 8 ||| b.toUInt32) 0).toNat = 2 ^ 32 - 1 := by
  have hhex (program : Program) (h : operandValue program ⟨0, 0x82⟩ 2 = 0xFFBC) :
      Reads program ⟨0, 0x82⟩ 2 [0x46, 0x42, 0x43] := by
    have hreads := @Reads.hex program ⟨0, 0x82⟩ 3 rfl (by decide) (by decide)
    rwa [h] at hreads
  have hdecimal (program : Program) (h : operandValue program ⟨3, 0x91⟩ 2 = 0x00FF) :
      Reads program ⟨3, 0x91⟩ 2 [0x20, 0x20, 0x32, 0x35, 0x35] := by
    have hreads := @Reads.decimal program ⟨3, 0x91⟩ 2 4 (by decide) (by decide) rfl rfl
    rwa [h] at hreads
  refine ⟨?_, ?_, ?_⟩
  · obtain ⟨walked, hwalk, -, hok, -⟩ := print_reads_format [0x82, 0xFF, 0xBC, 0x91, 0x00]
    have hwalked : [(Step.mk 0 0x82, [0x46, 0x42, 0x43]),
        (Step.mk 3 0x91, [0x20, 0x20, 0x32, 0x35, 0x35])] = walked :=
      (hwalk _).mp (.step rfl (hhex _ rfl) (.step rfl (hdecimal _ rfl) (.past (by decide))))
    rw [← hwalked] at hok
    exact hok (by decide)
  · obtain ⟨walked, hwalk, herror, -, -⟩ := print_reads_format [0x82, 0xFF, 0xBC, 0xBC, 0x00]
    have hwide := @Reads.decimal [0x82, 0xFF, 0xBC, 0xBC, 0x00] ⟨3, 0xBC⟩ 1 15
      (by decide) (by decide) rfl rfl
    have hwalked : [(Step.mk 0 0x82, [0x46, 0x42, 0x43]), (Step.mk 3 0xBC, _)] = walked :=
      (hwalk _).mp (.step rfl (hhex _ rfl) (.step rfl hwide (.past (by decide))))
    apply (herror _).mpr
    exact ⟨[_], ⟨3, 0xBC⟩, _, [], hwalked.symm, by decide, by decide, rfl⟩
  · obtain ⟨_, -, -, -, hword⟩ := print_reads_format []
    exact hword _ (by decide)

end Outcomes

end LogBench.Program
