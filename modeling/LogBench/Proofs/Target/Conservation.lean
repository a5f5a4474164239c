import LogBench.Proofs.Target.History

/-! No entry is lost, duplicated or reordered, whatever a controller drives: what was popped and
what is queued are together what was accepted. -/
namespace LogBench.Target
open Link Script

structure Conserved (capacity : Nat) (h : History) : Prop where
  entries : h.taken ++ h.target.queue.items = h.accepted
  counted : h.target.queue.occupancy.entries = h.target.queue.items.length
  bounded : h.target.queue.occupancy.entries ≤ capacity
  ready : ∀ e, h.target.hasRoom = true ↔ (h.target.offer e).1 = .ok ()
  readyRecord : ∀ r, h.target.hasRoom = true ↔ (h.target.offerRecord r).1 = .ok ()
  overflowed : h.target.queue.occupancy.overflowed = true ↔ h.refused = true
  underflowed : h.target.queue.occupancy.underflowed = false
  /-- The next tick pops nothing, or the entry whose element it answers the last word of. -/
  tick : h.target.step.queue = h.target.queue ∨ ∃ r e, Completes h.target h.target.step r e
  served : h.Served
  /-- A restart within an element finds the entry of the element at the head, and leaves it. -/
  abandoned : ∀ r, h.target.phase = .executing (.read r) → r.offset ≠ 0 →
    h.target.request.command.starts = true →
      h.target.step.phase = .waiting ∧ h.target.step.queue = h.target.queue ∧
      ∃ e later, h.target.queue.items = e :: later ∧
        h.target.begun = (elementWords e r.shape.bytes).take (r.offset / 4)

/-- Holds after every sequence of offers, requests and ticks, with any requests. -/
theorem entries_conserved (capacity : Nat) (actions : List Action) :
    Conserved capacity (History.ofActions capacity actions) := by
  have hf := History.faithful_ofActions capacity actions
  refine ⟨hf.conserved, hf.sound.tallied, ?_, ?_, ?_, ?_, hf.underflowed, ?_, hf.served, ?_⟩
  · have hle := Queue.Occupancy.entries_le (History.ofActions capacity actions).target.queue.occupancy
    rwa [hf.capacity_eq] at hle
  · intro e
    exact (Queue.Bounded.push_accepted_iff e).symm
  · intro r
    exact (Queue.Bounded.push_accepted_iff (r.entry 4)).symm
  · rw [hf.overflowed]
  · rcases hf.sound.keeps_or_pops (step_move _) with hk | hp
    · exact .inl hk.queue
    · exact .inr hp.completes
  · intro r hp h0 hs
    rw [step_of_starts hs fun ending he => by rw [hp] at he; cases he]
    obtain ⟨e, later, hi⟩ := List.exists_cons_of_ne_nil ((hf.sound.reading r hp).head h0)
    exact ⟨rfl, rfl, e, later, hi, begun_of_reading hp (List.head?_eq_some_iff.mpr ⟨later, hi⟩)⟩

end LogBench.Target
