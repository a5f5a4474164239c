import LogBench.Proofs.Bench.Conservation
import LogBench.Proofs.Record.Words
import LogBench.Proofs.Script.Halves
import LogBench.Proofs.Script.Taking
import LogBench.Proofs.Session.Meaning

/-! A read of the full width of an entry brings the words of the records back from a bench, each as
two halves, for as many of the queued records as it asks for. -/
namespace LogBench.Bench
open Session Script

def readCount (records : List Record) (capacity count : Nat) : Nat :=
  min count (min capacity records.length)

/-- A bench whose first records were read, and the report on it. -/
structure ReadBack (records : List Record) (capacity taken : Nat) (f : Finished Target)
    (report : Report) : Prop where
  completion : report.completion = .ok
  ticks : report.ticks = 8 * taken + 5
  length_words : report.words.length = 8 * taken
  word : ∀ i r, i < taken → records[i]? = some r → ∀ j < 4,
    (r.words[j]?).map UInt64.toNat = some (pairAt report.words (8 * i + 2 * j))
  /-- What the words spell of a program that fills them. -/
  program : ∀ i r, i < taken → records[i]? = some r → 32 ≤ r.program.length →
    ((List.range 4).flatMap fun j => Bytes.toBigEndian 8 (pairAt report.words (8 * i + 2 * j))) =
      r.program.take 32
  remaining : f.device.queue.items = ((records.take capacity).drop taken).map (·.entry 4)

structure MeansBack (records : List Record) (capacity taken : Nat) (m : Meaning) : Prop where
  ending : m.ending = .completed
  words : m.words = ((records.take taken).map (·.entry 4)).flatMap (elementWords · fullWidth)
  requests : m.requests = 8 * taken + 2
  items : m.queue.items = ((records.take capacity).drop taken).map (·.entry 4)

variable {records : List Record} {capacity count taken : Nat} {settings : Settings}

private theorem readCount_le_length : readCount records capacity count ≤ records.length :=
  (Nat.min_le_right ..).trans (Nat.min_le_right ..)

private theorem length_takenWords (h : taken ≤ records.length) :
    (((records.take taken).map (·.entry 4)).flatMap (elementWords · fullWidth)).length =
      8 * taken := by
  rw [length_flatMap_elementWords, List.length_map, List.length_take, Nat.min_eq_left h]

private theorem meansBack_load (records : List Record) (capacity : Nat) {shape : Shape}
    (h : shape.bytes = fullWidth) :
    MeansBack records capacity (readCount records capacity shape.count)
      (meaning (load capacity records).target.queue (encode [.read .upTo shape])) := by
  have hload := loaded_load capacity records
  have hread := meaning_read hload.sound.tallied shape
  have htake : (load capacity records).target.queue.items.take shape.count =
      (records.take (readCount records capacity shape.count)).map (·.entry 4) := by
    -- The queue holds no more than there are records, so a count past its end is cut off there.
    rw [hload.items, ← List.map_take, List.take_take, List.take_eq_take_min, Nat.min_assoc]
    rfl
  have hwords := hread.words
  rw [htake, h] at hwords
  refine ⟨hread.ending, hwords, ?_, ?_⟩
  · rw [hread.requests, hwords, length_takenWords readCount_le_length]
  · rw [hread.items, hload.items, ← List.map_drop, List.drop_eq_drop_min]
    congr 2
    rw [List.length_take]
    rfl

/-- The words of the entries that were taken are the halves of the words of the records. -/
private theorem MeansBack.word {m : Meaning} (h : MeansBack records capacity taken m) {i : Nat}
    {r : Record} (hi : i < taken) (hr : records[i]? = some r) {j : Nat} (hj : j < 4) :
    (r.words[j]?).map UInt64.toNat = some (pairAt m.words (8 * i + 2 * j)) := by
  have hlen : j < r.words.length :=
    Nat.lt_of_lt_of_le hj (Program.minWords_le_length_words r.program)
  have hword : (r.entry 4).words[j]? = some r.words[j] := by
    rw [r.getElem?_words_entry hj, List.getElem?_eq_getElem hlen]
  have hentry : ((records.take taken).map (·.entry 4))[i]? = some (r.entry 4) := by
    rw [List.getElem?_map, List.getElem?_take_of_lt hi, hr]
    rfl
  rw [h.words, pairAt_flatMap_elementWords hentry hword, List.getElem?_eq_getElem hlen]
  rfl

private theorem MeansBack.readBack {m : Meaning} {f : Finished Target}
    (h : MeansBack records capacity taken m) (hle : taken ≤ records.length) (he : Executed m f) :
    ReadBack records capacity taken f (reportOn records capacity f) := by
  have hwords : (reportOn records capacity f).words = m.words := congrArg Outcome.words he.outcome
  refine ⟨?_, ?_, ?_, ?_, ?_, ?_⟩
  · change f.outcome.completion = _
    rw [he.outcome, h.ending]
    rfl
  · change f.outcome.ticks = _
    rw [he.outcome, h.requests]
  · rw [hwords, h.words, length_takenWords hle]
  · intro i r hi hr j hj
    rw [hwords, h.word hi hr hj]
  · intro i r hi hr hfull
    rw [hwords, ← Record.wordBytes_take_words hfull]
    exact (Program.wordBytes_take_eq fun j hj => h.word hi hr hj).symm
  · rw [he.queue, h.items]

private theorem ofBits?_full (h : 1 ≤ count) (h' : count ≤ maxCount) : ∃ shape,
    Shape.ofBits? 256 count = .ok shape ∧ shape.bytes = fullWidth ∧ shape.count = count := by
  have hcount : count ≠ 0 ∧ count ≤ maxCount := ⟨Nat.ne_of_gt h, h'⟩
  rw [Shape.ofBits?, dif_pos (by decide), dif_pos hcount]
  exact ⟨_, rfl, rfl, rfl⟩

/-- For every list of records, every capacity, every count of elements, and every budget that pays
for the words and for the ends of the script. -/
theorem drained_records_read_back (records : List Record) (capacity : Nat) (h : 1 ≤ count)
    (hcount : count ≤ maxCount)
    (hbudget : 8 * readCount records capacity count + 2 ≤ settings.budget) : ∃ shape f report,
      Shape.ofBits? 256 count = .ok shape ∧
      drain records [.read .upTo shape] capacity settings = .ok f ∧
      run records [.read .upTo shape] capacity settings = .ok report ∧
      ReadBack records capacity (readCount records capacity count) f report := by
  obtain ⟨shape, hshape, hbytes, rfl⟩ := ofBits?_full h hcount
  have hload := loaded_load capacity records
  have hback := meansBack_load records capacity hbytes
  obtain ⟨f, hf, he⟩ := exists_executed hload.sound hload.response
    (hback.requests.trans_le hbudget)
  exact ⟨shape, f, reportOn records capacity f, hshape, hf, run_of_drain hf,
    hback.readBack readCount_le_length he⟩

/-- Forty letters and signs, more than the words of an entry hold. -/
def page : Record where
  address := 0x2000
  program := (List.range 40).map fun i => UInt8.ofNat (0x41 + i)
  output := (List.range 40).map fun i => UInt8.ofNat (0x41 + i)
  print_eq := by cbv

def line : Record where
  address := 0x20
  program := [0x48, 0x69]
  output := [0x48, 0x69]
  print_eq := by cbv

/-- Two of three queued records are read with the least budget, and a fourth was dropped. -/
theorem drained_records_read_back_lines : ∃ shape f report,
    Shape.ofBits? 256 2 = .ok shape ∧
    drain [page, line, page, line] [.read .upTo shape] 3 { budget := 18 } = .ok f ∧
    run [page, line, page, line] [.read .upTo shape] 3 { budget := 18 } = .ok report ∧
    ReadBack [page, line, page, line] 3 2 f report :=
  drained_records_read_back [page, line, page, line] 3 (by decide) (by decide) (by decide)

end LogBench.Bench
