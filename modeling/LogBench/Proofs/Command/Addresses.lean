import LogBench.Command.Arguments
import LogBench.Proofs.Record.LineGrammar
import Mathlib.Data.Bool.AllAny

/-!
Addresses on the command line against those in record files. A text that a line keeps as it stands is taken
for the same address by both readers, unless its mark is a capital: such a mark only a file may have.
-/
namespace LogBench.Command

open RecordFile (Parted Plain trimmed_of_plain trimmed_parts)

/-- A file of one line, the text and a colon, holds a record at this address. -/
def TakenFromFile (text : List Char) (address : UInt16) : Prop :=
  ∃ record, RecordFile.read (text ++ [':']) = .ok [record] ∧ record.address = address

/-- The two readers take the text for the same address, or neither takes it for one. -/
def ReadAlike (text : String) : Prop :=
  ∀ address, readAddress text = .ok address ↔ TakenFromFile text.toList address

def CapitalMark (text : List Char) : Prop := ['0', 'X'] <+: text

structure AddressReadings (text : String) : Prop where
  accepted : ∀ address, readAddress text = .ok address ↔
    TakenFromFile text.toList address ∧ ¬ CapitalMark text.toList
  alike : ReadAlike text ↔ ¬ ∃ address, TakenFromFile text.toList address ∧ CapitalMark text.toList
  refused : (∀ address, readAddress text ≠ .ok address) →
    readAddress text = .error (.badAddress text)
  refusedInFile : (∀ address, ¬ TakenFromFile text.toList address) →
    RecordFile.read (text.toList ++ [':']) = .error ⟨1, .illegibleAddress text.toList⟩

section Marks

variable {text : List Char} {address : UInt16}

private theorem dropMark_eq_of_not_capital (h : ¬ CapitalMark text) :
    Address.dropMark addressMarks text = Address.dropMark RecordFile.addressMarks text := by
  have hcapital : ['0', 'X'].isPrefixOf text = false := by
    rwa [← Bool.not_eq_true, List.isPrefixOf_iff_prefix]
  have hfind : addressMarks.find? (·.isPrefixOf text) =
      RecordFile.addressMarks.find? (·.isPrefixOf text) := by
    simp only [addressMarks, RecordFile.addressMarks, List.find?_cons, List.find?_nil, hcapital]
  rw [Address.dropMark, Address.dropMark, hfind]

/-- The capital is left to the numeral, and is no digit of it. -/
private theorem read?_of_capital (h : CapitalMark text) :
    Address.read? addressMarks text = none := by
  obtain ⟨rest, rfl⟩ := h
  rfl

private theorem read?_eq_some_iff_of_file : Address.read? addressMarks text = some address ↔
    Address.read? RecordFile.addressMarks text = some address ∧ ¬ CapitalMark text := by
  by_cases h : CapitalMark text
  · rw [read?_of_capital h]
    simp only [h, not_true, and_false, reduceCtorEq]
  · rw [Address.read?, Address.read?, dropMark_eq_of_not_capital h, and_iff_left h]

private theorem readAddress_eq_ok_iff {text : String} :
    readAddress text = .ok address ↔ Address.read? addressMarks text.toList = some address := by
  unfold readAddress
  cases Address.read? addressMarks text.toList with
  | none => exact iff_of_false nofun nofun
  | some a =>
    rw [Option.some_inj]
    exact ⟨Except.ok.inj, congrArg Except.ok⟩

private theorem readAddress_of_refused {text : String}
    (h : ∀ address, readAddress text ≠ .ok address) :
    readAddress text = .error (.badAddress text) := by
  unfold readAddress at h ⊢
  cases ha : Address.read? addressMarks text.toList with
  | none => rfl
  | some a =>
    rw [ha] at h
    exact absurd rfl (h a)

end Marks

section Lines

variable {text : List Char}

def blankRecord (address : UInt16) : Record where
  address := address
  program := []
  output := []
  print_eq := by cbv

private theorem parted_of_plain (h : ∀ c ∈ text, Plain c) : Parted (text ++ [':']) text [] := by
  have hhash : '#' ∉ text ++ [':'] := by
    rw [List.mem_append, List.mem_singleton]
    exact not_or_intro (fun hc => (h _ hc).2.1 rfl) (by decide)
  have htrim : Text.Trimmed (text ++ ':' :: ([] ++ [])) (text ++ ':' :: []) :=
    trimmed_parts h (List.forall_mem_nil _) nofun
  exact ⟨text, ⟨_, hhash, Or.inl rfl, htrim⟩, fun hc => (h _ hc).2.2 rfl, trimmed_of_plain h⟩

/-- A line with an address alone is a record that prints nothing. -/
theorem read_of_plain (h : ∀ c ∈ text, Plain c) : RecordFile.read (text ++ [':']) =
    match Address.read? RecordFile.addressMarks text with
    | some address => .ok [blankRecord address]
    | none => .error ⟨1, .illegibleAddress text⟩ := by
  have hwhole : '\n' ∉ text ++ [':'] := by
    rw [List.mem_append, List.mem_singleton]
    refine not_or_intro (fun hc => ?_) (by decide)
    cases (h _ hc).1
  have hline := (parted_of_plain h).readLine_eq
  rw [RecordFile.read_of_whole hwhole]
  cases ha : Address.read? RecordFile.addressMarks text with
  | none =>
    rw [ha] at hline
    exact RecordFile.readLines_cons_bad hline
  | some address =>
    have hblank : Record.ofProgram? address [] = .ok (blankRecord address) :=
      Record.ofProgram?_of_print (blankRecord address).print_eq address
    have hbytes : Hex.read? [] = some [] := rfl
    rw [ha, hbytes] at hline
    simp only [hblank] at hline
    rw [RecordFile.readLines_cons_good hline]
    rfl

private theorem takenFromFile_iff (h : ∀ c ∈ text, Plain c) (address : UInt16) :
    TakenFromFile text address ↔ Address.read? RecordFile.addressMarks text = some address := by
  rw [TakenFromFile, read_of_plain h]
  cases Address.read? RecordFile.addressMarks text with
  | none =>
    refine iff_of_false ?_ nofun
    rintro ⟨record, hrecord, -⟩
    cases hrecord
  | some a =>
    rw [Option.some_inj]
    constructor
    · rintro ⟨record, hrecord, haddress⟩
      cases hrecord
      exact haddress
    · rintro rfl
      exact ⟨blankRecord a, rfl, rfl⟩

end Lines

/-- For every text without white space, colon or comment. -/
theorem addresses_alike_unless_capital {text : String} (h : ∀ c ∈ text.toList, Plain c) :
    AddressReadings text := by
  have haccepted (address : UInt16) : readAddress text = .ok address ↔
      TakenFromFile text.toList address ∧ ¬ CapitalMark text.toList := by
    rw [readAddress_eq_ok_iff, takenFromFile_iff h, read?_eq_some_iff_of_file]
  refine ⟨haccepted, ?_, readAddress_of_refused, ?_⟩
  · simp only [ReadAlike, haccepted, and_iff_left_iff_imp, not_exists, not_and]
  · intro hnone
    rw [read_of_plain h]
    cases ha : Address.read? RecordFile.addressMarks text.toList with
    | none => rfl
    | some address => exact absurd ((takenFromFile_iff h address).mpr ha) (hnone address)

/-- A mark and a sign, and digits in both cases. -/
theorem addresses_alike_unless_capital_signed : (∀ c ∈ "0x+fF".toList, Plain c) ∧
    AddressReadings "0x+fF" ∧ TakenFromFile "0x+fF".toList 0xFF := by
  have hplain : ∀ c ∈ "0x+fF".toList, Plain c := List.all_iff_forall_prop.mp rfl
  have hreadings := addresses_alike_unless_capital hplain
  exact ⟨hplain, hreadings, ((hreadings.accepted 0xFF).mp rfl).1⟩

/-- Only in a file is this mark taken off. -/
theorem capital_mark_read_otherwise :
    (∀ c ∈ "0X10".toList, Plain c) ∧ ¬ ReadAlike "0X10" ∧
      TakenFromFile "0X10".toList 0x10 ∧ readAddress "0X10" = .error (.badAddress "0X10") := by
  have hplain : ∀ c ∈ "0X10".toList, Plain c := List.all_iff_forall_prop.mp rfl
  have htaken : TakenFromFile "0X10".toList 0x10 := (takenFromFile_iff hplain 0x10).mpr rfl
  have hrefused : readAddress "0X10" = .error (.badAddress "0X10") := rfl
  refine ⟨hplain, fun halike => ?_, htaken, hrefused⟩
  cases hrefused.symm.trans ((halike 0x10).mpr htaken)

end LogBench.Command
