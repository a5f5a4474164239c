import LogBench.Proofs.Record.FileLines
import LogBench.Proofs.Text.Hex
import Mathlib.Data.List.ReduceOption

/-!
The lines of record files: which of them hold a record, which say nothing, and what is wrong with each of the
others. A file holds the records of its lines if none is bad, and else what is wrong is its first bad line.
-/
namespace LogBench.RecordFile

open Numeral Text

/-- A line with its text: what stands before the first `#`, freed of the outer blanks. -/
def Holds (line text : List Char) : Prop :=
  ∃ front, '#' ∉ front ∧ (line = front ∨ ∃ comment, line = front ++ '#' :: comment) ∧
    Trimmed front text

/-- A line with its address text and with all that stands behind its first colon. -/
def Parted (line address back : List Char) : Prop :=
  ∃ front, Holds line (front ++ ':' :: back) ∧ ':' ∉ front ∧ Trimmed front address

/-- An address text without its mark; one mark at most is taken off. -/
inductive Unmarked : List Char → List Char → Prop where
  | small (rest : List Char) : Unmarked ('0' :: 'x' :: rest) rest
  | capital (rest : List Char) : Unmarked ('0' :: 'X' :: rest) rest
  | bare {text : List Char} :
      (∀ rest, text ≠ '0' :: 'x' :: rest ∧ text ≠ '0' :: 'X' :: rest) → Unmarked text text

def DenotesAddress (text : List Char) (address : UInt16) : Prop :=
  ∃ numeral, Unmarked text numeral ∧ DenotesHex numeral address.toNat

/-- The record on a line, nothing, or what is wrong with the line. The address goes before the bytes, and
both go before the program. -/
inductive Verdict (line : List Char) : Except LineError (Option Record) → Prop where
  | silent : Holds line [] → Verdict line (.ok none)
  | noAddress {text : List Char} : Holds line text → text ≠ [] → ':' ∉ text →
      Verdict line (.error .noAddress)
  | illegibleAddress {text back : List Char} : Parted line text back →
      (∀ address, ¬ DenotesAddress text address) → Verdict line (.error (.illegibleAddress text))
  | illegibleBytes {text back bytes : List Char} {address : UInt16} : Parted line text back →
      DenotesAddress text address → Hex.read? back = none → Trimmed back bytes →
      Verdict line (.error (.illegibleBytes bytes))
  | unprintable {text back : List Char} {address : UInt16} {program : Program}
      {cause : Program.PadError} : Parted line text back → DenotesAddress text address →
      Hex.read? back = some program → program.print = .error cause →
      Verdict line (.error (.unprintable cause))
  | record {text back : List Char} (record : Record) : Parted line text back →
      DenotesAddress text record.address → Hex.read? back = some record.program →
      Verdict line (.ok (some record))

/-- A text with its lines. Each ends with a line break of either kind, but for the last one perhaps. -/
inductive Lines : List Char → List (List Char) → Prop where
  | nil : Lines [] []
  | last {line : List Char} : '\n' ∉ line → Lines line [line]
  | cons {line lineBreak rest : List Char} {lines : List (List Char)} : '\n' ∉ line →
      lineBreak = ['\n'] ∨ lineBreak = ['\r', '\n'] → Lines rest lines →
      Lines (line ++ lineBreak ++ rest) (line :: lines)

/-- A line that is written for a record: the address, and the digits of the bytes with blanks among them. -/
def Spells (line : List Char) (record : Record) : Prop :=
  ∃ address bytes, line = address ++ ':' :: bytes ∧ DenotesAddress address record.address ∧
    Hex.Spelled (bytes.filter fun c => c ≠ ' ' ∧ c ≠ '\t') record.program

structure ReadsLines (text : List Char) (lines : List (List Char)) : Prop where
  good : ∀ records, read text = .ok records ↔
    ∃ found, List.Forall₂ (fun line f => Verdict line (.ok f)) lines found ∧
      found.reduceOption = records
  /-- What is wrong is the first bad line, counted from one. -/
  bad : ∀ e, read text = .error e ↔ ∃ good bad later, lines = good ++ bad :: later ∧
    (∀ line ∈ good, ∃ found, Verdict line (.ok found)) ∧
    Verdict bad (.error e.cause) ∧ e.line = good.length + 1
  spelled : ∀ records, List.Forall₂ Spells lines records → read text = .ok records

section Parts

variable {line text back numeral : List Char} {address : UInt16}

private theorem Holds.content_eq (h : Holds line text) : content line = text := by
  obtain ⟨front, hhash, rfl | ⟨comment, rfl⟩, htrim⟩ := h
  · rw [content_of_whole hhash, htrim.trim_eq]
  · rw [content_comment hhash, content_of_whole hhash, htrim.trim_eq]

private theorem holds_content (line : List Char) : Holds line (content line) := by
  by_cases hhash : '#' ∈ line
  · obtain ⟨front, comment, rfl, hfront⟩ := List.eq_append_cons_of_mem hhash
    rw [content_comment hfront, content_of_whole hfront]
    exact ⟨front, hfront, Or.inr ⟨comment, rfl⟩, trimmed_trim front⟩
  · rw [content_of_whole hhash]
    exact ⟨line, hhash, Or.inl rfl, trimmed_trim line⟩

private theorem splitColon?_of_first {front : List Char} (h : ':' ∉ front) (back : List Char) :
    splitColon? (front ++ ':' :: back) = some (front, back) := by
  have hmem : ':' ∈ front ++ ':' :: back := List.mem_append_right _ List.mem_cons_self
  have hfront : ∀ c ∈ front, decide (c ≠ ':') = true := by
    intro c hc
    apply decide_eq_true
    rintro rfl
    exact h hc
  rw [splitColon?, if_pos hmem, List.takeWhile_append_of_pos hfront,
    List.dropWhile_append_of_pos hfront, List.takeWhile_cons_of_neg (by decide),
    List.dropWhile_cons_of_neg (by decide), List.append_nil, List.tail_cons]

private theorem splitColon?_of_none (h : ':' ∉ text) : splitColon? text = none := if_neg h

private theorem Unmarked.dropMark_eq (h : Unmarked text numeral) :
    Address.dropMark addressMarks text = numeral := by
  cases h with
  | small => rfl
  | capital => rfl
  | bare h =>
    have hnone : addressMarks.find? (·.isPrefixOf text) = none := by
      rw [List.find?_eq_none]
      intro mark hmark hprefix
      obtain ⟨rest, rfl⟩ := List.isPrefixOf_iff_prefix.mp hprefix
      rcases List.mem_pair.mp hmark with rfl | rfl
      · exact (h rest).1 rfl
      · exact (h rest).2 rfl
    rw [Address.dropMark, hnone]

private theorem exists_unmarked (text : List Char) : ∃ numeral, Unmarked text numeral := by
  by_cases hsmall : ∃ rest, text = '0' :: 'x' :: rest
  · obtain ⟨rest, rfl⟩ := hsmall
    exact ⟨rest, .small rest⟩
  · by_cases hcapital : ∃ rest, text = '0' :: 'X' :: rest
    · obtain ⟨rest, rfl⟩ := hcapital
      exact ⟨rest, .capital rest⟩
    · exact ⟨text, .bare fun rest => ⟨fun h => hsmall ⟨rest, h⟩, fun h => hcapital ⟨rest, h⟩⟩⟩

private theorem unmarked_iff :
    Unmarked text numeral ↔ Address.dropMark addressMarks text = numeral := by
  constructor
  · exact Unmarked.dropMark_eq
  · rintro rfl
    obtain ⟨numeral, h⟩ := exists_unmarked text
    rwa [h.dropMark_eq]

private theorem read?_eq_some_iff :
    Address.read? addressMarks text = some address ↔ DenotesAddress text address := by
  simp only [Address.read?, readBelow?, DenotesAddress, unmarked_iff, exists_eq_left',
    ← read?_sixteen_eq_some_iff, Option.map_eq_some_iff, Option.filter_eq_some_iff,
    decide_eq_true_eq]
  constructor
  · rintro ⟨n, ⟨hread, hlt⟩, rfl⟩
    rwa [UInt16.toNat_ofNat_of_lt' hlt]
  · intro h
    exact ⟨address.toNat, ⟨h, address.toNat_lt⟩, UInt16.ofNat_toNat⟩

private theorem read?_eq_none_iff :
    Address.read? addressMarks text = none ↔ ∀ address, ¬ DenotesAddress text address := by
  simp only [Option.eq_none_iff_forall_ne_some, ne_eq, read?_eq_some_iff]

end Parts

section Verdicts

variable {line text back : List Char} {r : Except LineError (Option Record)}

private theorem readLine_of_empty (h : Holds line []) : readLine line = .ok none := by
  rw [readLine, h.content_eq]
  rfl

private theorem readLine_of_text (h : Holds line text) (hne : text ≠ []) :
    readLine line = some <$> readContent text := by
  rw [readLine, h.content_eq]
  exact if_neg (mt List.isEmpty_iff.mp hne)

theorem Parted.readLine_eq (h : Parted line text back) : readLine line = some <$>
    match Address.read? addressMarks text with
    | none => .error (.illegibleAddress text)
    | some address =>
      match Hex.read? back with
      | none => .error (.illegibleBytes (trim back))
      | some program =>
        match Record.ofProgram? address program with
        | .error cause => .error (.unprintable cause)
        | .ok record => .ok record := by
  obtain ⟨front, hholds, hcolon, htrim⟩ := h
  rw [readLine_of_text hholds (List.append_ne_nil_of_right_ne_nil _ (List.cons_ne_nil _ _)),
    readContent, splitColon?_of_first hcolon]
  obtain rfl := htrim.trim_eq
  rfl

private theorem Verdict.readLine_eq (h : Verdict line r) : readLine line = r := by
  cases h with
  | silent hholds => exact readLine_of_empty hholds
  | noAddress hholds hne hcolon =>
    rw [readLine_of_text hholds hne, readContent, splitColon?_of_none hcolon]
    rfl
  | illegibleAddress hparted haddress =>
    rw [hparted.readLine_eq, read?_eq_none_iff.mpr haddress]
    rfl
  | illegibleBytes hparted haddress hbytes htrim =>
    rw [hparted.readLine_eq, read?_eq_some_iff.mpr haddress, hbytes, htrim.trim_eq]
    rfl
  | unprintable hparted haddress hbytes hprint =>
    rw [hparted.readLine_eq, read?_eq_some_iff.mpr haddress, hbytes]
    simp only [Record.ofProgram?_of_print_error hprint]
    rfl
  | record record hparted haddress hbytes =>
    rw [hparted.readLine_eq, read?_eq_some_iff.mpr haddress, hbytes]
    simp only [Record.ofProgram?_of_print record.print_eq]
    rfl

/-- The rules leave no line in two parts out. -/
private theorem Parted.exists_verdict (h : Parted line text back) : ∃ r, Verdict line r := by
  by_cases haddress : ∃ address, DenotesAddress text address
  · obtain ⟨address, haddress⟩ := haddress
    cases hbytes : Hex.read? back with
    | none => exact ⟨_, .illegibleBytes h haddress hbytes (trimmed_trim back)⟩
    | some program =>
      cases hprint : Program.print program with
      | error cause => exact ⟨_, .unprintable h haddress hbytes hprint⟩
      | ok output => exact ⟨_, .record ⟨address, program, output, hprint⟩ h haddress hbytes⟩
  · exact ⟨_, .illegibleAddress h fun address haddress' => haddress ⟨address, haddress'⟩⟩

private theorem exists_verdict (line : List Char) : ∃ r, Verdict line r := by
  have hholds := holds_content line
  by_cases hempty : content line = []
  · exact ⟨_, .silent (hempty ▸ hholds)⟩
  · by_cases hcolon : ':' ∈ content line
    · obtain ⟨front, back, htext, hfront⟩ := List.eq_append_cons_of_mem hcolon
      rw [htext] at hholds
      exact Parted.exists_verdict ⟨front, hholds, hfront, trimmed_trim front⟩
    · exact ⟨_, .noAddress hholds hempty hcolon⟩

private theorem readLine_eq_iff : readLine line = r ↔ Verdict line r := by
  constructor
  · intro h
    obtain ⟨r', hr'⟩ := exists_verdict line
    rwa [← h, hr'.readLine_eq]
  · exact Verdict.readLine_eq

end Verdicts

section Files

variable {text line : List Char} {lines : List (List Char)} {records : List Record} {e : FileError}
  {number : Nat}

private theorem readLines_eq_ok_iff : readLines number lines = .ok records ↔
    ∃ found, List.Forall₂ (fun line f => readLine line = .ok f) lines found ∧
      found.reduceOption = records := by
  induction lines generalizing number records with
  | nil =>
    simp only [List.forall₂_nil_left_iff, exists_eq_left]
    exact ⟨Except.ok.inj, congrArg Except.ok⟩
  | cons line lines ih =>
    simp only [List.forall₂_cons_left_iff]
    constructor
    · intro h
      cases hline : readLine line with
      | error cause =>
        rw [readLines_cons_bad hline] at h
        cases h
      | ok found =>
        obtain ⟨later, hlater, rfl⟩ := (readLines_cons_eq_ok_iff hline).mp h
        obtain ⟨rest, hrest, rfl⟩ := ih.mp hlater
        refine ⟨found :: rest, ⟨found, rest, rfl, hrest, rfl⟩, ?_⟩
        cases found <;> rfl
    · rintro ⟨_, ⟨found, rest, hline, hrest, rfl⟩, rfl⟩
      rw [readLines_cons_eq_ok_iff hline]
      refine ⟨_, ih.mpr ⟨rest, hrest, rfl⟩, ?_⟩
      cases found <;> rfl

/-- Good lines are passed over, and what stands behind the first bad one is not looked at. -/
private theorem readLines_of_first_bad {good later : List (List Char)} {bad : List Char}
    {cause : LineError}
    (hgood : ∀ line ∈ good, ∃ found, readLine line = .ok found) (hbad : readLine bad = .error cause) :
    readLines number (good ++ bad :: later) = .error ⟨number + good.length, cause⟩ := by
  induction good generalizing number with
  | nil => exact readLines_cons_bad hbad
  | cons line good ih =>
    obtain ⟨⟨found, hline⟩, hgood⟩ := List.forall_mem_cons.mp hgood
    rw [List.cons_append, readLines_cons_eq_error_iff hline, ih hgood, List.length_cons,
      Nat.add_right_comm, Nat.add_assoc]

private theorem exists_first_bad (h : readLines number lines = .error e) : ∃ good bad later,
    lines = good ++ bad :: later ∧ (∀ line ∈ good, ∃ found, readLine line = .ok found) ∧
      readLine bad = .error e.cause ∧ e.line = number + good.length := by
  induction lines generalizing number with
  | nil => cases h
  | cons line lines ih =>
    cases hline : readLine line with
    | error cause =>
      rw [readLines_cons_bad hline] at h
      cases h
      exact ⟨[], line, lines, rfl, List.forall_mem_nil _, hline, rfl⟩
    | ok found =>
      obtain ⟨good, bad, later, rfl, hgood, hbad, hnumber⟩ :=
        ih ((readLines_cons_eq_error_iff hline).mp h)
      refine ⟨line :: good, bad, later, rfl, List.forall_mem_cons.mpr ⟨⟨found, hline⟩, hgood⟩,
        hbad, ?_⟩
      rw [hnumber, List.length_cons, Nat.add_right_comm, Nat.add_assoc]

private theorem readLines_eq_error_iff : readLines number lines = .error e ↔
    ∃ good bad later, lines = good ++ bad :: later ∧
      (∀ line ∈ good, ∃ found, readLine line = .ok found) ∧
      readLine bad = .error e.cause ∧ e.line = number + good.length := by
  constructor
  · exact exists_first_bad
  · rintro ⟨good, bad, later, rfl, hgood, hbad, hnumber⟩
    rw [readLines_of_first_bad hgood hbad, ← hnumber]

/-- The first half of a line break of two characters is a blank, or stands in the comment. -/
theorem readLine_concat_return (line : List Char) : readLine (line ++ ['\r']) = readLine line := by
  have hcontent : content (line ++ ['\r']) = content line := by
    by_cases hhash : '#' ∈ line
    · obtain ⟨front, comment, rfl, hfront⟩ := List.eq_append_cons_of_mem hhash
      rw [List.append_assoc, List.cons_append, content_comment hfront, content_comment hfront]
    · exact content_concat_return hhash
  rw [readLine, readLine, hcontent]

private theorem Lines.readLines_eq (h : Lines text lines) :
    readLines number (fields '\n' text) = readLines number lines := by
  induction h generalizing number with
  | nil => rfl
  | last hline => rw [fields_of_not_mem hline]
  | @cons line lineBreak rest lines hline hbreak _ ih =>
    obtain ⟨line', hline', hread, htext⟩ : ∃ line', '\n' ∉ line' ∧
        readLine line' = readLine line ∧ line ++ lineBreak ++ rest = line' ++ '\n' :: rest := by
      rcases hbreak with rfl | rfl
      · exact ⟨line, hline, rfl, by rw [List.append_assoc, List.singleton_append]⟩
      · refine ⟨line ++ ['\r'], ?_, readLine_concat_return line, by simp⟩
        rw [List.mem_append, List.mem_singleton]
        exact not_or_intro hline (by decide)
    rw [htext, fields_append_cons, fields_of_not_mem hline', List.singleton_append,
      readLines_congr hread, readLines, readLines, ih]

private theorem Lines.read_eq (h : Lines text lines) : read text = readLines 1 lines :=
  h.readLines_eq

private theorem lines_intercalate {parts : List (List Char)} (hne : parts ≠ [])
    (h : ∀ part ∈ parts, '\n' ∉ part) : Lines (['\n'].intercalate parts) parts := by
  induction parts with
  | nil => exact absurd rfl hne
  | cons part parts ih =>
    rw [List.forall_mem_cons] at h
    cases parts with
    | nil =>
      rw [List.intercalate_singleton]
      exact .last h.1
    | cons next parts =>
      rw [List.intercalate_cons_cons]
      exact .cons h.1 (Or.inl rfl) (ih (List.cons_ne_nil _ _) h.2)

private theorem exists_lines (text : List Char) : ∃ lines, Lines text lines := by
  obtain ⟨hne, hwhole, htext⟩ := fields_eq_iff.mp (rfl : fields '\n' text = _)
  exact ⟨_, htext ▸ lines_intercalate hne hwhole⟩

end Files

section Spelling

variable {line text : List Char} {lines : List (List Char)} {records : List Record} {c : Char}

def Plain (c : Char) : Prop := isBlank c = false ∧ c ≠ '#' ∧ c ≠ ':'

instance (c : Char) : Decidable (Plain c) := inferInstanceAs (Decidable (_ ∧ _))

private theorem plain_of_isHexDigit {d : Nat} (h : IsHexDigit c d) : Plain c := by
  obtain ⟨hd, rfl | rfl⟩ := h
  all_goals
    revert d
    decide

private theorem plain_of_denotesHex {n : Nat} (h : DenotesHex text n) : ∀ c ∈ text, Plain c := by
  obtain ⟨digits, values, htext, -, hdigits, -⟩ := h
  have hplain : ∀ c ∈ digits, Plain c :=
    ((List.forall₂_and_left _ _).mp (hdigits.imp fun _ _ h => ⟨plain_of_isHexDigit h, h⟩)).1
  rcases htext with rfl | rfl
  · exact hplain
  · exact List.forall_mem_cons.mpr ⟨by decide, hplain⟩

private theorem DenotesAddress.plain {address : UInt16} (h : DenotesAddress text address) :
    ∀ c ∈ text, Plain c := by
  obtain ⟨numeral, hmark, hnumeral⟩ := h
  have hplain := plain_of_denotesHex hnumeral
  cases hmark with
  | small =>
    rw [List.forall_mem_cons, List.forall_mem_cons]
    exact ⟨by decide, by decide, hplain⟩
  | capital =>
    rw [List.forall_mem_cons, List.forall_mem_cons]
    exact ⟨by decide, by decide, hplain⟩
  | bare => exact hplain

private theorem plain_of_spelled {bytes : List UInt8} (h : Hex.Spelled text bytes) :
    ∀ c ∈ text, Plain c := by
  intro c hc
  obtain ⟨d, hd⟩ := h.isHexDigit hc
  exact plain_of_isHexDigit hd

/-- Besides digits there are only blanks of two kinds. -/
private theorem blank_or_plain {bytes : List Char} {program : List UInt8}
    (h : Hex.Spelled (bytes.filter fun c => c ≠ ' ' ∧ c ≠ '\t') program) :
    ∀ c ∈ bytes, (c = ' ' ∨ c = '\t') ∨ Plain c := by
  intro c hc
  by_cases hblank : c ≠ ' ' ∧ c ≠ '\t'
  · exact Or.inr (plain_of_spelled h c (List.mem_filter.mpr ⟨hc, decide_eq_true hblank⟩))
  · rw [not_and_or, not_not, not_not] at hblank
    exact Or.inl hblank

private theorem not_isGap_eq (h : (c = ' ' ∨ c = '\t') ∨ Plain c) :
    (!isGap c) = decide (c ≠ ' ' ∧ c ≠ '\t') := by
  rcases h with (rfl | rfl) | hplain
  · rfl
  · rfl
  · have hgap : isGap c = false := by
      cases hc : isGap c with
      | false => rfl
      | true => cases hplain.1.symm.trans (isBlank_of_isGap hc)
    have hne : c ≠ ' ' ∧ c ≠ '\t' := by
      constructor <;> rintro rfl <;> cases hgap
    rw [hgap, decide_eq_true hne]
    rfl

/-- Blanks at the end make no difference to the bytes. -/
private theorem read?_of_spelled {core after : List Char} {program : List UInt8}
    (hafter : ∀ c ∈ after, isBlank c = true)
    (h : Hex.Spelled ((core ++ after).filter fun c => c ≠ ' ' ∧ c ≠ '\t') program) :
    Hex.read? core = some program := by
  have hchars := blank_or_plain h
  have hgaps : after.filter (fun c => !isGap c) = [] := by
    rw [List.filter_eq_nil_iff]
    intro c hc
    rcases hchars c (List.mem_append_right core hc) with (rfl | rfl) | hplain
    · decide
    · decide
    · cases hplain.1.symm.trans (hafter c hc)
  have hcore : core.filter (fun c => !isGap c) =
      (core ++ after).filter fun c => c ≠ ' ' ∧ c ≠ '\t' := by
    rw [← List.filter_congr fun c hc => not_isGap_eq (hchars c hc), List.filter_append, hgaps,
      List.append_nil]
  rw [Hex.read?, hcore, h.readPairs?]

theorem trimmed_of_plain (h : ∀ c ∈ text, Plain c) : Trimmed text text := by
  refine ⟨⟨[], [], (List.append_nil text).symm, List.forall_mem_nil _, List.forall_mem_nil _⟩, ?_, ?_⟩
  · intro c hc
    exact (h c (List.mem_of_mem_head? hc)).1
  · intro c hc
    exact (h c (List.mem_of_mem_getLast? hc)).1

/-- The address and the colon stand in front of all blanks that are cut off. -/
theorem trimmed_parts {address core after : List Char} (haddress : ∀ c ∈ address, Plain c)
    (hafter : ∀ c ∈ after, isBlank c = true)
    (hlast : ∀ c, core.getLast? = some c → isBlank c = false) :
    Trimmed (address ++ ':' :: (core ++ after)) (address ++ ':' :: core) := by
  refine ⟨⟨[], after, ?_, List.forall_mem_nil _, hafter⟩, ?_, ?_⟩
  · rw [List.nil_append, List.append_assoc, List.cons_append]
  · intro c hc
    cases address with
    | nil =>
      cases hc
      rfl
    | cons first rest =>
      cases hc
      exact (haddress _ List.mem_cons_self).1
  · intro c hc
    rw [List.getLast?_append_of_ne_nil _ (List.cons_ne_nil _ _), List.getLast?_cons] at hc
    cases hcore : core.getLast? with
    | none =>
      rw [hcore] at hc
      cases hc
      rfl
    | some d =>
      rw [hcore] at hc
      cases hc
      exact hlast _ hcore

private theorem Spells.verdict {record : Record} (h : Spells line record) :
    Verdict line (.ok (some record)) := by
  obtain ⟨address, bytes, rfl, haddress, hbytes⟩ := h
  have hplain := haddress.plain
  have hhash : '#' ∉ address ++ ':' :: bytes := by
    intro h
    rcases List.mem_append.mp h with h | h
    · exact (hplain _ h).2.1 rfl
    · rcases blank_or_plain hbytes _ (List.mem_of_ne_of_mem (by decide) h) with (h | h) | h
      · cases h
      · cases h
      · exact h.2.1 rfl
  obtain ⟨after, hafter, hback⟩ := exists_trimEnd bytes
  have hparted : Parted (address ++ ':' :: bytes) address
      (bytes.reverse.dropWhile isBlank).reverse := by
    refine ⟨address, ⟨_, hhash, Or.inl rfl, ?_⟩, fun h => (hplain _ h).2.2 rfl,
      trimmed_of_plain hplain⟩
    have hlast (c : Char) (hc : (bytes.reverse.dropWhile isBlank).reverse.getLast? = some c) :
        isBlank c = false := getLast?_trimEnd hc
    have htrimmed := trimmed_parts hplain hafter hlast
    rwa [← hback] at htrimmed
  rw [hback] at hbytes
  exact .record record hparted haddress (read?_of_spelled hafter hbytes)

private theorem readLines_of_spells {number : Nat} (h : List.Forall₂ Spells lines records) :
    readLines number lines = .ok records := by
  rw [readLines_eq_ok_iff]
  refine ⟨records.map some, ?_, ?_⟩
  · rw [List.forall₂_map_right_iff]
    exact h.imp fun _ _ hspells => hspells.verdict.readLine_eq
  · rw [List.reduceOption, List.filterMap_map]
    exact List.filterMap_some

end Spelling

private theorem Lines.readsLines {text : List Char} {lines : List (List Char)}
    (h : Lines text lines) : ReadsLines text lines := by
  refine ⟨fun records => ?_, fun e => ?_, fun records hspells => ?_⟩
  · rw [h.read_eq, readLines_eq_ok_iff]
    simp only [readLine_eq_iff]
  · rw [h.read_eq, readLines_eq_error_iff]
    simp only [readLine_eq_iff, Nat.add_comm 1]
  · rw [h.read_eq, readLines_of_spells hspells]

/-- Every line has its verdict, every file has lines, and these say how it is read. -/
theorem record_lines_exact :
    (∀ line r, readLine line = r ↔ Verdict line r) ∧
    (∀ text, ∃ lines, Lines text lines) ∧
    ∀ text lines, Lines text lines → ReadsLines text lines :=
  ⟨fun _ _ => readLine_eq_iff, exists_lines, fun _ _ => Lines.readsLines⟩

/-- The same record on two lines with different line ends, digits and blanks. -/
theorem record_lines_exact_spellings :
    let lines := ["0X000:4 1".toList, "+0: \t41 ".toList]
    Lines "0X000:4 1\r\n+0: \t41 ".toList lines ∧ List.Forall₂ Spells lines [letter, letter] ∧
      read "0X000:4 1\r\n+0: \t41 ".toList = .ok [letter, letter] := by
  intro lines
  have hfirst : '\n' ∉ "0X000:4 1".toList := by decide
  have hlast : '\n' ∉ "+0: \t41 ".toList := by decide
  have hlines : Lines "0X000:4 1\r\n+0: \t41 ".toList lines :=
    .cons hfirst (Or.inr rfl) (.last hlast)
  have hdigits : Hex.Spelled ['4', '1'] letter.program := .cons (by decide) (by decide) .nil
  have hspells : List.Forall₂ Spells lines [letter, letter] :=
    .cons ⟨"0X000".toList, "4 1".toList, rfl, read?_eq_some_iff.mp rfl, hdigits⟩
      (.cons ⟨"+0".toList, " \t41 ".toList, rfl, read?_eq_some_iff.mp rfl, hdigits⟩ .nil)
  exact ⟨hlines, hspells, (record_lines_exact.2.2 _ _ hlines).spelled _ hspells⟩

/-- A bad address goes before bad bytes, and a second mark is no part of an address. -/
example : readLine "0xg : 4 # 1".toList = .error (.illegibleAddress "0xg".toList) ∧
    readLine "0x0X1:".toList = .error (.illegibleAddress "0x0X1".toList) ∧
    readLine " 1:2: 3 ".toList = .error (.illegibleBytes "2: 3".toList) :=
  ⟨rfl, rfl, rfl⟩

end LogBench.RecordFile
