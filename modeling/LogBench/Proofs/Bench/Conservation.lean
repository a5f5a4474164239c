import LogBench.Proofs.Bench.Loading
import LogBench.Proofs.Queue.StatusWord
import LogBench.Proofs.Session.Deliveries

/-! No record is lost in a bench: it is dropped for want of room, or delivered by the session, or
queued after it. -/
namespace LogBench.Bench
open Link Session

def delivered (records : List Record) (capacity : Nat) (f : Finished Target) : Nat :=
  deliveries (load capacity records).target (requests f.exchanges)

structure Conserves (records : List Record) (capacity : Nat) (f : Finished Target)
    (report : Report) : Prop where
  /-- The exchanges are those of the target with the records. -/
  logged : Logged (load capacity records).target f.exchanges f.device
  ticks : report.ticks = f.exchanges.size
  queued : report.queued = min records.length capacity
  dropped : report.dropped = records.length - min records.length capacity
  overflowed : report.status.overflowed = true ↔ 0 < report.dropped
  underflowed : report.status.underflowed = false
  delivered_le : delivered records capacity f ≤ report.queued
  remaining : f.device.queue.items =
    ((records.take report.queued).drop (delivered records capacity f)).map (·.entry 4)
  entries : report.status.entries =
    min (report.queued - delivered records capacity f) Queue.StatusWord.maxCount
  spaces : report.status.spaces =
    min (capacity - report.queued + delivered records capacity f) Queue.StatusWord.maxCount
  empty : report.status.empty = true ↔ report.queued - delivered records capacity f = 0
  full : report.status.full = true ↔ report.queued - delivered records capacity f = capacity

variable {records : List Record} {script : Script} {capacity : Nat} {settings : Settings}

/-- The target of a bench is idle, so its session starts. -/
theorem exists_drain (records : List Record) (script : Script) (capacity : Nat)
    (settings : Settings) : ∃ f, drain records script capacity settings = .ok f := by
  have hk : (Device.response (load capacity records).target).kind = .idle :=
    (loaded_load capacity records).response
  simp only [drain, invoke, hk, if_true]
  exact ⟨_, rfl⟩

def reportOn (records : List Record) (capacity : Nat) (f : Finished Target) : Report where
  completion := f.outcome.completion
  words := f.outcome.words
  ticks := f.outcome.ticks
  queued := (load capacity records).queued
  dropped := (load capacity records).dropped
  status := .ofWord f.device.queue.occupancy.word

theorem run_of_drain {f : Finished Target} (h : drain records script capacity settings = .ok f) :
    run records script capacity settings = .ok (reportOn records capacity f) := by
  rw [run, h]
  rfl

structure Drawn (capacity : Nat) (records : List Record) (count : Nat) (t : Target) : Prop where
  count_le : count ≤ min records.length capacity
  items : t.queue.items = ((records.take capacity).drop count).map (·.entry 4)
  entries : t.queue.occupancy.entries = min records.length capacity - count
  capacity_eq : t.queue.occupancy.capacity = capacity
  overflowed : t.queue.occupancy.overflowed = decide (capacity < records.length)
  underflowed : t.queue.occupancy.underflowed = false

private theorem Loaded.drawn {t t' : Target} {count : Nat} (h : Loaded capacity records t)
    (htook : Took t t' count) : Drawn capacity records count t' := by
  have hlen := h.length_items
  have hle := htook.count_le
  have htally : t'.queue.occupancy.entries = t'.queue.items.length := htook.sound.tallied
  rw [htook.items, List.length_drop, hlen] at htally
  rw [hlen] at hle
  refine ⟨hle, ?_, htally, htook.drained.capacity.trans h.capacity_eq,
    htook.drained.overflowed.trans h.overflowed, htook.drained.underflowed.trans h.underflowed⟩
  rw [htook.items, h.items, List.map_drop]

private theorem conserves_of_drain {f : Finished Target}
    (h : drain records script capacity settings = .ok f) :
    Conserves records capacity f (reportOn records capacity f) := by
  have hload := loaded_load capacity records
  have hrun : Session.run (load capacity records).target settings (Script.encode script) noIdles
      (settings.budget + 1) = .ok (some f) := by
    rw [run_noIdles]
    exact congrArg (Except.map some) h
  have hrecorded := recorded_of_run hrun
  have hdrawn := hload.drawn (took_of_run hload.sound hrun)
  have hle : delivered records capacity f ≤ _ := hdrawn.count_le
  have hentries : _ = _ - delivered records capacity f := hdrawn.entries
  have hstatus : (reportOn records capacity f).status =
      f.device.queue.occupancy.fields.saturated := Queue.Occupancy.ofWord_word _
  have hqueued : (reportOn records capacity f).queued = min records.length capacity :=
    queued_load capacity records
  have hdropped : (reportOn records capacity f).dropped =
      records.length - min records.length capacity := dropped_load capacity records
  rw [← hqueued] at hle hentries
  refine ⟨hrecorded.logged, hrecorded.ticks, hqueued, hdropped, ?_, ?_, hle, ?_, ?_, ?_, ?_, ?_⟩
  · rw [hstatus, hdropped]
    change f.device.queue.occupancy.overflowed = true ↔ _
    rw [hdrawn.overflowed, decide_eq_true_iff]
    omega
  · rw [hstatus]
    exact hdrawn.underflowed
  · rw [hqueued, Nat.min_comm, ← List.take_eq_take_min]
    exact hdrawn.items
  · rw [hstatus, ← hentries]
    rfl
  · rw [hstatus]
    change min (f.device.queue.occupancy.capacity - f.device.queue.occupancy.entries) _ = _
    rw [hentries, hdrawn.capacity_eq]
    congr 1
    omega
  · rw [hstatus, ← hentries]
    exact decide_eq_true_iff
  · rw [hstatus, ← hentries]
    exact decide_eq_true_iff.trans (by rw [hdrawn.capacity_eq])

/-- For every list of records, every script, every capacity and every budget. -/
theorem records_conserved (records : List Record) (script : Script) (capacity : Nat)
    (settings : Settings) : ∃ f report,
      drain records script capacity settings = .ok f ∧
      run records script capacity settings = .ok report ∧
      Conserves records capacity f report := by
  obtain ⟨f, hf⟩ := exists_drain records script capacity settings
  exact ⟨f, reportOn records capacity f, hf, run_of_drain hf, conserves_of_drain hf⟩

end LogBench.Bench
