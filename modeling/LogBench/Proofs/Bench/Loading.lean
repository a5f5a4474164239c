import LogBench.Bench
import LogBench.Proofs.Target.Reachable
import Mathlib.Data.List.Induction

/-! The target of a bench before its session: the first records are queued in order as far as there
is room, and the target is idle. The records that were queued and those that were refused are counted
one by one, and the counts are those of the queue. -/
namespace LogBench.Bench
open Target

/-- A target that holds what it has room for of some records, and latched whether that was all. -/
structure Loaded (capacity : Nat) (records : List Record) (t : Target) : Prop where
  sound : t.Sound
  phase : t.phase = .idle
  items : t.queue.items = (records.take capacity).map (·.entry 4)
  capacity_eq : t.queue.occupancy.capacity = capacity
  overflowed : t.queue.occupancy.overflowed = decide (capacity < records.length)
  underflowed : t.queue.occupancy.underflowed = false

variable {capacity : Nat} {records : List Record} {t : Target}

theorem Loaded.response (h : Loaded capacity records t) : t.response.kind = .idle := by
  rw [h.sound.reported, h.phase]
  rfl

theorem Loaded.length_items (h : Loaded capacity records t) :
    t.queue.items.length = min records.length capacity := by
  rw [h.items, List.length_map, List.length_take, Nat.min_comm]

private theorem Loaded.hasRoom_iff (h : Loaded capacity records t) :
    t.queue.hasRoom = true ↔ records.length < capacity := by
  have hlen := h.length_items
  have htally : t.queue.occupancy.entries = t.queue.items.length := h.sound.tallied
  rw [Queue.Bounded.hasRoom_iff, htally, hlen, h.capacity_eq]
  omega

private theorem loaded_vacant (capacity : Nat) : Loaded capacity [] (vacant capacity) :=
  ⟨sound_vacant capacity, rfl, by rw [List.take_nil]; rfl, rfl, rfl, rfl⟩

/-- One more record is queued behind the others if there is room, and else latched as refused. -/
private theorem Loaded.offerRecord (h : Loaded capacity records t) (r : Record) :
    Loaded capacity (records ++ [r]) (t.offerRecord r).2 := by
  have hsound : (t.offerRecord r).2.Sound := h.sound.offer (r.entry 4)
  have hlen : (records ++ [r]).length = records.length + 1 := by
    rw [List.length_append, List.length_singleton]
  cases hr : t.queue.hasRoom with
  | true =>
    have hlt := h.hasRoom_iff.mp hr
    have hq : (t.offerRecord r).2.queue = _ :=
      congrArg Prod.snd (Queue.Bounded.push_of_hasRoom hr (r.entry 4))
    refine ⟨hsound, h.phase, ?_, ?_, ?_, ?_⟩
    · rw [hq, h.items, List.take_of_length_le (Nat.le_of_lt hlt),
        List.take_of_length_le (by omega), List.map_append]
      rfl
    · rw [hq]
      exact h.capacity_eq
    · have hfits : ¬ capacity < records.length := by omega
      have hfits' : ¬ capacity < (records ++ [r]).length := by omega
      rw [hq]
      change t.queue.occupancy.overflowed = _
      rw [h.overflowed, decide_eq_false hfits, decide_eq_false hfits']
    · rw [hq]
      exact h.underflowed
  | false =>
    have hge : capacity ≤ records.length := by
      have := mt h.hasRoom_iff.mpr (by rw [hr]; exact Bool.false_ne_true)
      omega
    have hq : (t.offerRecord r).2.queue = _ :=
      congrArg Prod.snd (Queue.Bounded.push_of_full hr (r.entry 4))
    refine ⟨hsound, h.phase, ?_, ?_, ?_, ?_⟩
    · rw [hq, List.take_append_of_le_length hge]
      exact h.items
    · rw [hq]
      exact h.capacity_eq
    · have hover : capacity < (records ++ [r]).length := by omega
      rw [hq, decide_eq_true hover]
    · rw [hq]
      exact h.underflowed

structure Load.Counts (l : Load) (offered : Nat) : Prop where
  queued : l.queued = l.target.queue.items.length
  total : l.queued + l.dropped = offered

namespace Load

variable {l : Load} {offered : Nat}

private theorem offer_of_hasRoom (h : l.target.queue.hasRoom = true) (r : Record) :
    l.offer r = { l with target := (l.target.offerRecord r).2, queued := l.queued + 1 } := by
  simp only [Load.offer, Target.offerRecord, Target.offer, Queue.Bounded.push_of_hasRoom h]

private theorem offer_of_full (h : l.target.queue.hasRoom = false) (r : Record) :
    l.offer r = { l with target := (l.target.offerRecord r).2, dropped := l.dropped + 1 } := by
  simp only [Load.offer, Target.offerRecord, Target.offer, Queue.Bounded.push_of_full h]

private theorem target_offer (l : Load) (r : Record) :
    (l.offer r).target = (l.target.offerRecord r).2 := by
  cases h : l.target.queue.hasRoom with
  | true => rw [offer_of_hasRoom h]
  | false => rw [offer_of_full h]

private theorem Counts.offer (h : l.Counts offered) (r : Record) :
    (l.offer r).Counts (offered + 1) := by
  have htotal := h.total
  cases hr : l.target.queue.hasRoom with
  | true =>
    have hitems : (l.target.offerRecord r).2.queue.items = l.target.queue.items ++ [r.entry 4] :=
      congrArg (fun access => access.2.items) (Queue.Bounded.push_of_hasRoom hr (r.entry 4))
    rw [offer_of_hasRoom hr]
    refine ⟨?_, ?_⟩
    · rw [hitems, List.length_append, List.length_singleton, h.queued]
    · change l.queued + 1 + l.dropped = offered + 1
      omega
  | false =>
    have hitems : (l.target.offerRecord r).2.queue.items = l.target.queue.items :=
      congrArg (fun access => access.2.items) (Queue.Bounded.push_of_full hr (r.entry 4))
    rw [offer_of_full hr]
    refine ⟨?_, ?_⟩
    · rw [hitems]
      exact h.queued
    · change l.queued + (l.dropped + 1) = offered + 1
      omega

end Load

private theorem load_append (capacity : Nat) (records : List Record) (r : Record) :
    load capacity (records ++ [r]) = (load capacity records).offer r := by
  rw [load, List.foldl_append]
  rfl

theorem loaded_load (capacity : Nat) (records : List Record) :
    Loaded capacity records (load capacity records).target := by
  -- By induction from the last record on, which is offered last.
  induction records using List.reverseRecOn with
  | nil => exact loaded_vacant capacity
  | append_singleton records r ih =>
    rw [load_append, Load.target_offer]
    exact ih.offerRecord r

theorem counts_load (capacity : Nat) (records : List Record) :
    (load capacity records).Counts records.length := by
  induction records using List.reverseRecOn with
  | nil => exact ⟨rfl, rfl⟩
  | append_singleton records r ih =>
    rw [load_append, List.length_append]
    exact ih.offer r

theorem queued_load (capacity : Nat) (records : List Record) :
    (load capacity records).queued = min records.length capacity :=
  (counts_load capacity records).queued.trans (loaded_load capacity records).length_items

theorem dropped_load (capacity : Nat) (records : List Record) :
    (load capacity records).dropped = records.length - min records.length capacity := by
  have htotal := (counts_load capacity records).total
  rw [queued_load] at htotal
  omega

end LogBench.Bench
