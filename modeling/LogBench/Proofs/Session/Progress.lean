import LogBench.Proofs.Session.Window
import LogBench.Proofs.Target.History

/-! How a session with a target gets on: every turn reads one more of the answers that the target
still has for the script, or it waits, and then one idle pulse less is to come. So a session ends
with the script if its budget pays for the answers, and with the budget if it does not. -/
namespace LogBench.Session
open Link Script Target

/-- What the session will have read in the end: the response on hand, and what the target is to
answer to the rest of the script. -/
def State.outlook (s : State Target) : Meaning :=
  (s.device.outlook (s.pending.drop s.device.response.consumed)).after [s.device.response.word?]

/-- What holds before every turn: the target runs the script, or holds its ending. -/
structure Engaged (s : State Target) : Prop where
  sound : s.device.Sound
  begun : s.device.response.kind ≠ .idle

structure Follows (s s' : State Target) : Prop where
  engaged : Engaged s'
  words : s'.words.toList = s.words.toList ++ s.device.response.word?.toList
  ticks : s'.ticks = s.ticks + 1
  drained : s.device.queue.Drained s'.device.queue

structure Reads (s s' : State Target) : Prop extends Follows s s' where
  outlook : s.outlook = s'.outlook.after [s.device.response.word?]

/-- The tick changes nothing, since the target waits for bytes and none are sent. -/
structure Waits (s s' : State Target) : Prop extends Follows s s' where
  outlook : ∃ m : Meaning, s.outlook = m.after [s.device.response.word?] ∧
    s'.outlook = m.after [none]
  consumed : s'.device.response.consumed = 0

def State.total (s : State Target) : List UInt32 :=
  s.words.toList ++ s.outlook.answers.reduceOption

theorem Reads.total_eq {s s' : State Target} (h : Reads s s') : s'.total = s.total := by
  unfold State.total
  rw [h.words, h.outlook, List.append_assoc]
  exact congrArg _ (reduceOption_cons ..).symm

theorem Waits.total_eq {s s' : State Target} (h : Waits s s') : s'.total = s.total := by
  obtain ⟨m, hs, hs'⟩ := h.outlook
  unfold State.total
  rw [h.words, hs, hs', List.append_assoc]
  exact congrArg _ (reduceOption_cons ..).symm

theorem Engaged.running_or_ended {s : State Target} (h : Engaged s) :
    s.device.response.kind = .running ∨ ∃ ending, s.device.phase = .ended ending ∧
      s.device.response.kind ≠ .running ∧ s.device.response.word? = none ∧
      s.outlook = ⟨ending, [none], s.device.queue⟩ := by
  have hk := h.begun
  by_cases hr : s.device.response.kind = .running
  · exact .inl hr
  · have hq := h.sound.quiet hr
    rw [h.sound.reported] at hk hr
    cases hp : s.device.phase with
    | idle => exact absurd (congrArg Phase.kind hp) hk
    | waiting => exact absurd (congrArg Phase.kind hp) hr
    | executing => exact absurd (congrArg Phase.kind hp) hr
    | ended ending =>
      have hw : s.device.response.word? = none := by rw [hq]; rfl
      refine .inr ⟨ending, rfl, ?_, hw, ?_⟩
      · rw [h.sound.reported]
        exact hr
      · rw [State.outlook, outlook_ended hp, hw]
        rfl

/-- The target runs as long as it has at least the tick to answer that ends the script. -/
theorem Engaged.running_iff {s : State Target} (h : Engaged s) :
    s.device.response.kind = .running ↔ 1 < s.outlook.answers.length := by
  constructor
  · intro hk
    unfold State.outlook
    rcases phase_of_running h.sound hk with hp | ⟨x, hx⟩
    · rw [outlook_waiting hp]
      simp [closed, Meaning.after]
    · rw [outlook_executing hx]
      simp [closed, Meaning.after]
  · intro hlt
    rcases h.running_or_ended with hk | ⟨ending, -, -, -, ho⟩
    · exact hk
    · rw [ho] at hlt
      exact absurd hlt (Nat.lt_irrefl 1)

variable {settings : Settings} {policy : IdlePolicy} {s : State Target}

private theorem follows_pulse (h : Engaged s) (hk : s.device.response.kind = .running)
    (policy : IdlePolicy) (request : Request) (idles budget : Nat) :
    Follows s { (s.heard policy).pulse request with idles, budget } := by
  have hd := s.device_pulse_heard policy request
  refine ⟨⟨?_, ?_⟩, s.words_heard policy, ?_, ?_⟩
  · change ((s.heard policy).pulse request).device.Sound
    rw [hd]
    exact (h.sound.drive request).step
  · change ((s.heard policy).pulse request).device.response.kind ≠ .idle
    rw [hd]
    exact kind_ne_idle_of_running h.sound hk request
  · rw [← s.ticks_heard policy]
    rfl
  · change s.device.queue.Drained ((s.heard policy).pulse request).device.queue
    rw [hd]
    exact (h.sound.drive request).drained (step_move _)

private theorem outlook_eq (s : State Target) (policy : IdlePolicy) :
    s.outlook = (s.device.outlook (s.heard policy).pending).after [s.device.response.word?] := by
  rw [s.pending_heard policy]
  rfl

/-- The outlook of a session moves on with that of its target. -/
private theorem outlook_pulse {request : Request}
    (hf : Foreseen s.device (Device.tick (Device.drive s.device request))
      (s.heard policy).pending) (idles budget : Nat) :
    s.outlook = (State.outlook { (s.heard policy).pulse request with idles, budget }).after
      [s.device.response.word?] := by
  have hd := s.device_pulse_heard policy request
  rw [outlook_eq s policy, hf]
  simp only [State.outlook, State.pulse, s.device_heard policy]

theorem reads_of_data (h : Engaged s) (hk : s.device.response.kind = .running)
    (policy : IdlePolicy) : Reads s (s.heard policy).sendData :=
  { follows_pulse h hk policy _ _ _ with
    outlook := outlook_pulse (foreseen_of_data h.sound hk _) _ _ }

theorem reads_or_waits_of_idle (h : Engaged s) (hk : s.device.response.kind = .running)
    (policy : IdlePolicy) (settings : Settings) :
    Reads s ((s.heard policy).sendIdle settings) ∨ Waits s ((s.heard policy).sendIdle settings) := by
  have hfollows := follows_pulse h hk policy (idleRequest settings (s.heard policy).idles)
    ((s.heard policy).idles - 1) (s.heard policy).budget
  rcases foreseen_of_idle h.sound hk (idleRequest settings (s.heard policy).idles) rfl
    (s.heard policy).pending with hf | ⟨hp, ht⟩
  · exact .inl { hfollows with outlook := outlook_pulse hf _ _ }
  · have hd : ((s.heard policy).sendIdle settings).device =
        (Device.drive s.device (idleRequest settings (s.heard policy).idles)).enter .waiting := by
      rw [← ht, ← s.device_heard policy]
      rfl
    have hbefore : s.outlook =
        (closed (meaning s.device.queue (s.heard policy).pending)).after
          [s.device.response.word?] := by
      rw [outlook_eq s policy, outlook_waiting hp]
    have hafter : ((s.heard policy).sendIdle settings).outlook =
        (closed (meaning s.device.queue (s.heard policy).pending)).after [none] := by
      rw [State.outlook, hd, outlook_waiting rfl]
      rfl
    refine .inr { hfollows with outlook := ⟨_, hbefore, hafter⟩, consumed := ?_ }
    rw [hd]
    rfl

end LogBench.Session
