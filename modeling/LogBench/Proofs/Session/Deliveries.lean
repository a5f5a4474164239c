import LogBench.Proofs.Session.Transcript
import LogBench.Proofs.Target.History

/-! What a session takes off the queue of its target: one entry for each element that is delivered to
its last byte, and nothing else. -/
namespace LogBench.Session
open Link Target

def delivers (t t' : Target) : Bool :=
  match t.phase with
  | .executing (.read r) => t'.response.valid ≠ 0 && r.offset + t'.response.valid = r.shape.bytes
  | _ => false

/-- How many elements the ticks with these requests deliver to their last bytes. -/
def deliveries (t : Target) : List Request → Nat
  | [] => 0
  | request :: later =>
    let next : Target := Device.tick (Device.drive t request)
    (delivers (Device.drive t request) next).toNat + deliveries next later

structure Took (t t' : Target) (count : Nat) : Prop where
  sound : t'.Sound
  count_le : count ≤ t.queue.items.length
  items : t'.queue.items = t.queue.items.drop count
  drained : t.queue.Drained t'.queue

private theorem delivers_of_unanswered {t t' : Target} (h : t'.response.valid = 0) :
    delivers t t' = false := by
  unfold delivers
  split
  · rw [h]
    rfl
  · rfl

/-- The tick that answers the last bytes of an element is the one that pops its entry. -/
theorem took_tick {t t' : Target} (h : t.Sound) (hm : Move t t') :
    Took t t' (delivers t t').toNat := by
  refine ⟨h.move hm, ?_, ?_, h.drained hm⟩
  all_goals cases hm with
  | enter => simp [delivers_of_unanswered, enter]
  | decode => simp [delivers_of_unanswered]
  | report hp => simp [delivers, hp]
  | chunk hp _ _ _ hlt => simp [delivers, hp, Nat.ne_of_lt hlt]
  | @element r e hp _ _ he hle =>
    obtain ⟨later, hi⟩ := eq_cons_of_peek? he
    have hlt := (h.reading r hp).offset_lt
    have hvalid : r.shape.bytes - r.offset ≠ 0 := by omega
    have hlast : r.offset + (r.shape.bytes - r.offset) = r.shape.bytes := by omega
    simp [delivers, hp, hvalid, hlast, hi, h.tallied.pop_eq hi]

private theorem took_clocked {t : Target} (h : t.Sound) (requests : List Request) :
    Took t (clocked t requests) (deliveries t requests) := by
  induction requests generalizing t with
  | nil => exact ⟨h, Nat.zero_le _, List.drop_zero.symm, .refl _⟩
  | cons request later ih =>
    have hfirst : Took _ (Device.tick (Device.drive t request)) _ :=
      took_tick (h.drive request) (step_move _)
    have hrest := ih hfirst.sound
    have hle := hfirst.count_le
    have hle' := hrest.count_le
    rw [hfirst.items, List.length_drop] at hle'
    refine ⟨hrest.sound, ?_, ?_, hfirst.drained.trans hrest.drained⟩
    · change (delivers _ _).toNat + deliveries _ later ≤ (Device.drive t request).queue.items.length
      omega
    · exact hrest.items.trans ((congrArg _ hfirst.items).trans List.drop_drop)

/-- Every session, under any policy and budget, leaves the entries behind those it delivered. -/
theorem took_of_run {t : Target} {settings : Settings} {script : List UInt8} {policy : IdlePolicy}
    {fuel : Nat} {f : Finished Target} (h : t.Sound)
    (hf : run t settings script policy fuel = .ok (some f)) :
    Took t f.device (deliveries t (requests f.exchanges)) := by
  rw [(recorded_of_run hf).logged.clocked]
  exact took_clocked h _

end LogBench.Session
