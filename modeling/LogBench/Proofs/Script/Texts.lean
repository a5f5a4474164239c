import LogBench.Proofs.Text.Numeral
import LogBench.Script.Text
import Mathlib.Data.List.Forall2

/-!
The texts of operations: which of them stand for an operation, and what is wrong with each of the others.
The text that an operation is written as is read back as that operation.
-/
namespace LogBench.Script

open Numeral Text

def WidthInRange (bits : Nat) : Prop := 0 < bits ∧ bits % 8 = 0 ∧ bits ≤ 512

def CountInRange (count : Nat) : Prop := 1 ≤ count ∧ count ≤ 65536

structure ReadForm (text : List Char) (mode : ReadMode) (width count : List Char) : Prop where
  text_eq : text = mode.name ++ ':' :: width ++ ':' :: count
  width_whole : ':' ∉ width
  count_whole : ':' ∉ count

/-- The operation that a text stands for, or what is wrong with it. The form goes before the numbers, the
size of the numbers before their range, and the width before the count. -/
inductive Verdict (text : List Char) : Except TextError Operation → Prop where
  | status : text = Operation.statusName → Verdict text (.ok .status)
  | read {mode : ReadMode} {width count : List Char} {bits n : Nat} (shape : Shape) :
      ReadForm text mode width count → Denotes width bits → Denotes count n →
      WidthInRange bits → CountInRange n → shape.bits = bits → shape.count = n →
      Verdict text (.ok (.read mode shape))
  | unknown : text ≠ Operation.statusName →
      (∀ mode width count, ¬ ReadForm text mode width count) →
      Verdict text (.error (.unknown text))
  | badNumber {mode : ReadMode} {width count : List Char} : ReadForm text mode width count →
      ((∀ bits ≤ 65535, ¬ Denotes width bits) ∨ (∀ n ≤ 4294967295, ¬ Denotes count n)) →
      Verdict text (.error (.badNumber text))
  | badWidth {mode : ReadMode} {width count : List Char} {bits n : Nat} :
      ReadForm text mode width count → Denotes width bits → bits ≤ 65535 →
      Denotes count n → n ≤ 4294967295 → ¬ WidthInRange bits →
      Verdict text (.error (.badShape text (.badWidth bits)))
  | badCount {mode : ReadMode} {width count : List Char} {bits n : Nat} :
      ReadForm text mode width count → Denotes width bits →
      Denotes count n → n ≤ 4294967295 → WidthInRange bits → ¬ CountInRange n →
      Verdict text (.error (.badShape text (.badCount n)))

section Shapes

variable {bits count : Nat}

private theorem Shape.exists_eq (hb : WidthInRange bits) (hc : CountInRange count) :
    ∃ shape : Shape, shape.bits = bits ∧ shape.count = count := by
  obtain ⟨hpos, hmod, hle⟩ := hb
  refine ⟨⟨bits / 8, count, by omega, by omega, hc.1, hc.2⟩, ?_, rfl⟩
  change 8 * (bits / 8) = bits
  omega

private theorem Shape.ofBits?_badWidth (h : ¬ WidthInRange bits) :
    Shape.ofBits? bits count = .error (.badWidth bits) := by
  apply dif_neg
  rintro ⟨hpos, hmod, hle⟩
  exact h ⟨Nat.pos_of_ne_zero hpos, hmod, hle⟩

private theorem Shape.ofBits?_badCount (hb : WidthInRange bits) (hc : ¬ CountInRange count) :
    Shape.ofBits? bits count = .error (.badCount count) := by
  obtain ⟨hpos, hmod, hle⟩ := hb
  rw [Shape.ofBits?, dif_pos ⟨Nat.ne_of_gt hpos, hmod, hle⟩]
  apply dif_neg
  rintro ⟨hpos, hle⟩
  exact hc ⟨Nat.pos_of_ne_zero hpos, hle⟩

end Shapes

section Forms

variable {text width count : List Char} {mode : ReadMode}

private theorem ReadMode.colon_not_mem_name (mode : ReadMode) : ':' ∉ mode.name := by
  cases mode <;> decide

private theorem ReadMode.ofName?_eq_some_iff :
    ReadMode.ofName? text = some mode ↔ text = mode.name := by
  constructor
  · intro h
    have hname := List.find?_some h
    exact (of_decide_eq_true hname).symm
  · rintro rfl
    cases mode <;> rfl

/-- The form of a read is told by the fields. -/
theorem readForm_iff :
    ReadForm text mode width count ↔ fields ':' text = [mode.name, width, count] := by
  have hjoin : [':'].intercalate [mode.name, width, count] =
      mode.name ++ ':' :: width ++ ':' :: count := by
    simp [List.intercalate_cons_cons]
  rw [fields_eq_iff, hjoin]
  constructor
  · rintro ⟨rfl, hwidth, hcount⟩
    refine ⟨List.cons_ne_nil _ _, ?_, rfl⟩
    simp only [List.forall_mem_cons, List.not_mem_nil, false_implies, implies_true, and_true]
    exact ⟨mode.colon_not_mem_name, hwidth, hcount⟩
  · rintro ⟨-, hwhole, htext⟩
    simp only [List.forall_mem_cons, List.not_mem_nil, false_implies, implies_true, and_true]
      at hwhole
    exact ⟨htext.symm, hwhole.2.1, hwhole.2.2⟩

private theorem ofText?_status : Operation.ofText? Operation.statusName = .ok .status := rfl

private theorem ofText?_of_shape {bits n : Nat} {shape : Shape} (h : ReadForm text mode width count)
    (hb : readBelow? 10 (2 ^ 16) width = some bits) (hn : readBelow? 10 (2 ^ 32) count = some n)
    (hshape : Shape.ofBits? bits n = .ok shape) :
    Operation.ofText? text = .ok (.read mode shape) := by
  rw [Operation.ofText?, readForm_iff.mp h]
  simp only [ReadMode.ofName?_eq_some_iff.mpr rfl, hb, hn, hshape]

private theorem ofText?_of_badShape {bits n : Nat} {cause : ShapeError}
    (h : ReadForm text mode width count)
    (hb : readBelow? 10 (2 ^ 16) width = some bits) (hn : readBelow? 10 (2 ^ 32) count = some n)
    (hshape : Shape.ofBits? bits n = .error cause) :
    Operation.ofText? text = .error (.badShape text cause) := by
  rw [Operation.ofText?, readForm_iff.mp h]
  simp only [ReadMode.ofName?_eq_some_iff.mpr rfl, hb, hn, hshape]

private theorem ofText?_of_badNumber (h : ReadForm text mode width count)
    (hbad : readBelow? 10 (2 ^ 16) width = none ∨ readBelow? 10 (2 ^ 32) count = none) :
    Operation.ofText? text = .error (.badNumber text) := by
  rw [Operation.ofText?, readForm_iff.mp h]
  simp only [ReadMode.ofName?_eq_some_iff.mpr rfl]
  split
  · rename_i hb hn
    rcases hbad with hbad | hbad
    · cases hb.symm.trans hbad
    · cases hn.symm.trans hbad
  · rfl

theorem ofText?_of_unknown (hstatus : text ≠ Operation.statusName)
    (h : ∀ mode width count, ¬ ReadForm text mode width count) :
    Operation.ofText? text = .error (.unknown text) := by
  unfold Operation.ofText?
  split
  · rename_i name hfields
    have hname : name = text := by
      rw [fields_eq_iff, List.intercalate_singleton] at hfields
      exact hfields.2.2
    exact if_neg (hname ▸ hstatus)
  · rename_i name bits count hfields
    cases hmode : ReadMode.ofName? name with
    | none => rfl
    | some mode =>
      rw [ReadMode.ofName?_eq_some_iff] at hmode
      rw [hmode] at hfields
      exact absurd (readForm_iff.mpr hfields) (h mode bits count)
  · rfl

end Forms

section Verdicts

variable {text width count : List Char} {mode : ReadMode} {bits n : Nat}
  {r : Except TextError Operation}

private theorem readBelow?_width (hb : bits ≤ 65535) (h : Denotes width bits) :
    readBelow? 10 (2 ^ 16) width = some bits :=
  readBelow?_ten_eq_some_iff.mpr ⟨h, Nat.lt_succ_of_le hb⟩

private theorem readBelow?_count (hn : n ≤ 4294967295) (h : Denotes count n) :
    readBelow? 10 (2 ^ 32) count = some n :=
  readBelow?_ten_eq_some_iff.mpr ⟨h, Nat.lt_succ_of_le hn⟩

private theorem Verdict.ofText?_eq (h : Verdict text r) : Operation.ofText? text = r := by
  cases h with
  | status htext => rw [htext, ofText?_status]
  | read shape hform hwidth hcount hb hn hbits hshape =>
    have hb' := readBelow?_width (Nat.le_trans hb.2.2 (by decide)) hwidth
    have hn' := readBelow?_count (Nat.le_trans hn.2 (by decide)) hcount
    rw [← hbits] at hb'
    rw [← hshape] at hn'
    exact ofText?_of_shape hform hb' hn' (Shape.ofBits?_bits shape)
  | unknown hstatus hform => exact ofText?_of_unknown hstatus hform
  | badNumber hform hnumber =>
    apply ofText?_of_badNumber hform
    rw [readBelow?_ten_eq_none_iff, readBelow?_ten_eq_none_iff]
    exact hnumber.imp (fun h b hb => h b (Nat.le_of_lt_succ hb)) fun h m hm =>
      h m (Nat.le_of_lt_succ hm)
  | badWidth hform hwidth hb hcount hn hbad =>
    exact ofText?_of_badShape hform (readBelow?_width hb hwidth) (readBelow?_count hn hcount)
      (Shape.ofBits?_badWidth hbad)
  | badCount hform hwidth hcount hn hgood hbad =>
    have hb' := readBelow?_width (Nat.le_trans hgood.2.2 (by decide)) hwidth
    exact ofText?_of_badShape hform hb' (readBelow?_count hn hcount)
      (Shape.ofBits?_badCount hgood hbad)

/-- The rules leave no read out. -/
private theorem ReadForm.exists_verdict (h : ReadForm text mode width count) :
    ∃ r, Verdict text r := by
  by_cases hwidth : ∃ bits, Denotes width bits ∧ bits ≤ 65535
  · by_cases hcount : ∃ n, Denotes count n ∧ n ≤ 4294967295
    · obtain ⟨bits, hbits, hb⟩ := hwidth
      obtain ⟨n, hcount, hn⟩ := hcount
      by_cases hgood : WidthInRange bits
      · by_cases hrange : CountInRange n
        · obtain ⟨shape, hshape, hshape'⟩ := Shape.exists_eq hgood hrange
          exact ⟨_, .read shape h hbits hcount hgood hrange hshape hshape'⟩
        · exact ⟨_, .badCount h hbits hcount hn hgood hrange⟩
      · exact ⟨_, .badWidth h hbits hb hcount hn hgood⟩
    · exact ⟨_, .badNumber h (Or.inr fun n hn hcount' => hcount ⟨n, hcount', hn⟩)⟩
  · exact ⟨_, .badNumber h (Or.inl fun bits hb hwidth' => hwidth ⟨bits, hwidth', hb⟩)⟩

private theorem exists_verdict (text : List Char) : ∃ r, Verdict text r := by
  by_cases hstatus : text = Operation.statusName
  · exact ⟨_, .status hstatus⟩
  · by_cases hform : ∃ mode width count, ReadForm text mode width count
    · obtain ⟨mode, width, count, hform⟩ := hform
      exact hform.exists_verdict
    · exact ⟨_, .unknown hstatus fun mode width count h => hform ⟨mode, width, count, h⟩⟩

private theorem ofText?_eq_iff : Operation.ofText? text = r ↔ Verdict text r := by
  constructor
  · intro h
    obtain ⟨r', hr'⟩ := exists_verdict text
    rwa [← h, hr'.ofText?_eq]
  · exact Verdict.ofText?_eq

/-- Digits hold no colon. -/
private theorem colon_not_mem_decimal (n : Nat) : ':' ∉ decimal n := by
  intro h
  have hdigit := isDigit_of_mem_decimal h
  cases hdigit

private theorem ofText?_text (op : Operation) : Operation.ofText? op.text = .ok op := by
  cases op with
  | status => exact ofText?_status
  | read mode shape =>
    have hform : ReadForm (Operation.read mode shape).text mode (decimal shape.bits)
        (decimal shape.count) :=
      ⟨rfl, colon_not_mem_decimal _, colon_not_mem_decimal _⟩
    have hb : WidthInRange shape.bits := by
      have hpos := shape.bytes_pos
      have hle := shape.bytes_le
      unfold WidthInRange Shape.bits
      omega
    exact (Verdict.read shape hform (denotes_decimal _) (denotes_decimal _) hb
      ⟨shape.count_pos, shape.count_le⟩ rfl rfl).ofText?_eq

end Verdicts

section Lists

variable {texts : List (List Char)} {script : Script} {e : TextError}

private theorem ofTexts?_cons (text : List Char) (texts : List (List Char)) :
    ofTexts? (text :: texts) = (do
      let op ← Operation.ofText? text
      let script ← ofTexts? texts
      return op :: script) :=
  List.mapM_cons

theorem ofTexts?_eq_ok_iff : ofTexts? texts = .ok script ↔
    List.Forall₂ (fun text op => Operation.ofText? text = .ok op) texts script := by
  induction texts generalizing script with
  | nil =>
    rw [List.forall₂_nil_left_iff]
    exact ⟨fun h => (Except.ok.inj h).symm, fun h => h ▸ rfl⟩
  | cons text later ih =>
    rw [List.forall₂_cons_left_iff, ofTexts?_cons]
    simp only [← ih]
    constructor
    · intro h
      cases hop : Operation.ofText? text with
      | error e =>
        rw [hop] at h
        cases h
      | ok op =>
        cases hlater : ofTexts? later with
        | error e =>
          rw [hop, hlater] at h
          cases h
        | ok ops =>
          rw [hop, hlater] at h
          exact ⟨op, ops, rfl, rfl, (Except.ok.inj h).symm⟩
    · rintro ⟨op, ops, hop, hlater, rfl⟩
      rw [hop, hlater]
      rfl

/-- Texts are read from the first on, and a bad one ends the reading. -/
private theorem ofTexts?_of_bad {good later : List (List Char)} {bad : List Char}
    (hgood : ∀ text ∈ good, ∃ op, Operation.ofText? text = .ok op)
    (hbad : Operation.ofText? bad = .error e) : ofTexts? (good ++ bad :: later) = .error e := by
  induction good with
  | nil =>
    rw [List.nil_append, ofTexts?_cons, hbad]
    rfl
  | cons text good ih =>
    obtain ⟨op, hop⟩ := hgood text List.mem_cons_self
    rw [List.cons_append, ofTexts?_cons, hop, ih fun t ht => hgood t (List.mem_cons_of_mem _ ht)]
    rfl

private theorem exists_bad_of_ofTexts? (h : ofTexts? texts = .error e) :
    ∃ good bad later, texts = good ++ bad :: later ∧
      (∀ text ∈ good, ∃ op, Operation.ofText? text = .ok op) ∧ Operation.ofText? bad = .error e := by
  induction texts with
  | nil => cases h
  | cons text later ih =>
    rw [ofTexts?_cons] at h
    cases hop : Operation.ofText? text with
    | error e' =>
      rw [hop] at h
      cases h
      exact ⟨[], text, later, rfl, fun _ ht => absurd ht List.not_mem_nil, hop⟩
    | ok op =>
      have hlater : ofTexts? later = .error e := by
        rw [hop] at h
        cases hl : ofTexts? later with
        | error e' =>
          rw [hl] at h
          exact congrArg Except.error (Except.error.inj h)
        | ok ops =>
          rw [hl] at h
          cases h
      obtain ⟨good, bad, rest, rfl, hgood, hbad⟩ := ih hlater
      exact ⟨text :: good, bad, rest, rfl, List.forall_mem_cons.mpr ⟨⟨op, hop⟩, hgood⟩, hbad⟩

end Lists

/-- Every operation is read back from its text, every text has its verdict, and a list of texts that of
its first bad one. -/
theorem texts_exact :
    (∀ op : Operation, Operation.ofText? op.text = .ok op) ∧
    (∀ text r, Operation.ofText? text = r ↔ Verdict text r) ∧
    (∀ texts script, ofTexts? texts = .ok script ↔
      List.Forall₂ (fun text op => Operation.ofText? text = .ok op) texts script) ∧
    (∀ texts e, ofTexts? texts = .error e ↔
      ∃ good bad later, texts = good ++ bad :: later ∧
        (∀ text ∈ good, ∃ op, Operation.ofText? text = .ok op) ∧
        Operation.ofText? bad = .error e) := by
  refine ⟨ofText?_text, fun _ _ => ofText?_eq_iff, fun _ _ => ofTexts?_eq_ok_iff, ?_⟩
  intro texts e
  constructor
  · exact exists_bad_of_ofTexts?
  · rintro ⟨good, bad, later, rfl, hgood, hbad⟩
    exact ofTexts?_of_bad hgood hbad

/-- Too large a number is no range error, and a bad width hides a bad count. -/
example : Operation.ofText? "read:65536:0".toList = .error (.badNumber "read:65536:0".toList) ∧
    Operation.ofText? "read_err:+12:00".toList =
      .error (.badShape "read_err:+12:00".toList (.badWidth 12)) := by
  decide

end LogBench.Script
