import LogBench.Proofs.Session.Progress
import Mathlib.Data.List.ReduceOption

/-! Where the loop of a session with a target stops: with the script if the budget pays for all of
its answers, whatever idle pulses are inserted, and with the budget if it does not. -/
namespace LogBench.Session
open Link Script Target

variable {settings : Settings} {s s' f : State Target}

/-- The loop from `s` went through the whole script and stopped in `f`. It has paid for no more
requests than there were answers, and has made at least as many ticks. -/
structure Concluded (s f : State Target) : Prop where
  sound : f.device.Sound
  phase : f.device.phase = .ended s.outlook.ending
  queue : f.device.queue = s.outlook.queue
  words : f.words.toList = s.total
  paid : s.budget + 1 ≤ f.budget + s.outlook.answers.length
  ticks : s.ticks + s.outlook.answers.length ≤ f.ticks + 1

private theorem Concluded.of_reads (h : Concluded s' f) (hr : Reads s s')
    (hb : s.budget ≤ s'.budget + 1) : Concluded s f := by
  have hm := hr.outlook
  have hlen : s.outlook.answers.length = s'.outlook.answers.length + 1 := by
    rw [hm]
    rfl
  have htick := hr.ticks
  have hpaid := h.paid
  have hticks := h.ticks
  refine ⟨h.sound, ?_, ?_, h.words.trans hr.total_eq, by omega, by omega⟩
  · rw [hm]
    exact h.phase
  · rw [hm]
    exact h.queue

private theorem Concluded.of_waits (h : Concluded s' f) (hw : Waits s s')
    (hb : s.budget = s'.budget) : Concluded s f := by
  obtain ⟨m, hm, hm'⟩ := hw.outlook
  have hlen : s.outlook.answers.length = s'.outlook.answers.length := by
    rw [hm, hm']
    rfl
  have htick := hw.ticks
  have hpaid := h.paid
  have hticks := h.ticks
  refine ⟨h.sound, ?_, ?_, h.words.trans hw.total_eq, by omega, by omega⟩
  · rw [h.phase, hm, hm']
    rfl
  · rw [h.queue, hm, hm']
    rfl

private theorem concluded_self (h : Engaged s) {ending : Ending}
    (hp : s.device.phase = .ended ending) (ho : s.outlook = ⟨ending, [none], s.device.queue⟩) :
    Concluded s s := by
  refine ⟨h.sound, ?_, ?_, ?_, ?_, ?_⟩
  · rw [hp, ho]
  · rw [ho]
  · rw [State.total, ho]
    exact (List.append_nil _).symm
  · rw [ho]
    exact Nat.le_refl _
  · rw [ho]
    exact Nat.le_refl _

/-- An ending on hand is kept, whether there is budget left to read it or not. -/
theorem turn_of_ending (policy : IdlePolicy) (hr : s.device.response.kind ≠ .running)
    (hw : s.device.response.word? = none) : turn settings policy s = .last s := by
  by_cases hb : s.budget = 0
  · exact turn_of_spent hb
  · have hc : s.collect s.device.response = s := by simp only [State.collect, hw]
    exact (turn_of_ended hb hr).trans (congrArg Turn.last hc)

/-- A budget for all answers takes the loop to the end of the script, under any policy. -/
theorem exists_concluded (settings : Settings) (policy : IdlePolicy) (n i : Nat)
    (s : State Target) (h : Engaged s) (hn : s.outlook.answers.length = n + 1)
    (hi : (s.heard policy).idles = i) (hb : n ≤ s.budget) :
    ∃ fuel f, loop settings policy fuel s = some f ∧ Concluded s f := by
  -- By induction on the answers to come, and on the idle pulses before the next data request: a
  -- pulse is answered if the target executes, and else leaves one pulse less to insert.
  induction n generalizing s i with
  | zero =>
    rcases h.running_or_ended with hk | ⟨ending, hp, hr, hw, ho⟩
    · exact absurd (h.running_iff.mp hk) (by omega)
    · exact ⟨1, s, loop_last (turn_of_ending policy hr hw), concluded_self h hp ho⟩
  | succ n ihn =>
    induction i generalizing s with
    | zero =>
      have hk := h.running_iff.mpr (by omega)
      have hr := reads_of_data h hk policy
      have hbudget := s.budget_sendData policy
      have hn' : (s.heard policy).sendData.outlook.answers.length = n + 1 := by
        rw [hr.outlook] at hn
        exact Nat.succ.inj hn
      obtain ⟨fuel, f, hl, hc⟩ := ihn _ _ hr.engaged hn' rfl (by omega)
      have ht : turn settings policy s = .next (s.heard policy).sendData :=
        turn_of_data (by omega) hk hi
      exact ⟨fuel + 1, f, (loop_next ht).trans hl, hc.of_reads hr (by omega)⟩
    | succ i ihi =>
      have hk := h.running_iff.mpr (by omega)
      have hbudget := s.budget_sendIdle policy settings
      have ht : turn settings policy s = .next ((s.heard policy).sendIdle settings) :=
        turn_of_idle (by omega) hk (by omega)
      rcases reads_or_waits_of_idle h hk policy settings with hr | hw
      · have hn' : ((s.heard policy).sendIdle settings).outlook.answers.length = n + 1 := by
          rw [hr.outlook] at hn
          exact Nat.succ.inj hn
        obtain ⟨fuel, f, hl, hc⟩ := ihn _ _ hr.engaged hn' rfl (by omega)
        exact ⟨fuel + 1, f, (loop_next ht).trans hl, hc.of_reads hr (by omega)⟩
      · obtain ⟨m, hm, hm'⟩ := hw.outlook
        have hn' : ((s.heard policy).sendIdle settings).outlook.answers.length = n + 1 + 1 := by
          rw [hm']
          rw [hm] at hn
          exact hn
        have hi' : (((s.heard policy).sendIdle settings).heard policy).idles = i := by
          rw [State.idles_heard_of_unconsumed _ _ hw.consumed]
          change (s.heard policy).idles - 1 = i
          omega
        obtain ⟨fuel, f, hl, hc⟩ := ihi _ hw.engaged hn' hi' (by omega)
        exact ⟨fuel + 1, f, (loop_next ht).trans hl, hc.of_waits hw hbudget.symm⟩

/-- The loop from `s` spent its budget before the script ended, and stopped in `f`. -/
structure Spent (s f : State Target) : Prop where
  engaged : Engaged f
  running : f.device.response.kind = .running
  words : f.words.toList =
    s.words.toList ++ (s.outlook.answers.take s.budget).reduceOption
  ticks : f.ticks = s.ticks + s.budget
  drained : s.device.queue.Drained f.device.queue
  outlook : s.outlook = f.outlook.after (s.outlook.answers.take s.budget)

/-- Without idle pulses, a budget for some of the answers is spent on the first of them. -/
theorem exists_spent (settings : Settings) (budget : Nat) (s : State Target) (h : Engaged s)
    (hi : s.idles = 0) (hb : s.budget = budget) (hn : budget + 1 < s.outlook.answers.length) :
    ∃ fuel f, loop settings noIdles fuel s = some f ∧ Spent s f := by
  have hk := h.running_iff.mpr (by omega)
  induction budget generalizing s with
  | zero =>
    refine ⟨1, s, loop_last (turn_of_spent hb), h, hk, ?_, ?_, .refl _, ?_⟩
    · rw [hb, List.take_zero]
      exact (List.append_nil _).symm
    · rw [hb]
      rfl
    · rw [hb]
      rfl
  | succ budget ih =>
    have hr := reads_of_data h hk noIdles
    have hi' := s.idles_heard_noIdles hi
    have hb' : (s.heard noIdles).sendData.budget = budget := by
      rw [s.budget_sendData, hb, Nat.add_sub_cancel]
    have hn' : budget + 1 < (s.heard noIdles).sendData.outlook.answers.length := by
      rw [hr.outlook] at hn
      exact Nat.lt_of_succ_lt_succ hn
    have hk' := hr.engaged.running_iff.mpr (by omega)
    obtain ⟨fuel, f, hl, hf⟩ := ih _ hr.engaged hi' hb' hn' hk'
    have ht : turn settings noIdles s = .next (s.heard noIdles).sendData :=
      turn_of_data (by omega) hk hi'
    have htick := hr.ticks
    have hticks := hf.ticks
    refine ⟨fuel + 1, f, (loop_next ht).trans hl, hf.engaged, hf.running, ?_, by omega,
      hr.drained.trans hf.drained, ?_⟩
    · rw [hf.words, hr.words, hr.outlook, hb, hb', List.append_assoc]
      exact congrArg _ (reduceOption_cons ..).symm
    · have hrest := hf.outlook
      rw [hb'] at hrest
      rw [hr.outlook, hb]
      exact congrArg (Meaning.after · _) hrest

section Start

variable {t : Target} (policy : IdlePolicy) (settings : Settings) (script : List UInt8)

private theorem device_start (hp : t.phase = .idle) :
    (State.start t settings script policy).device =
      { t with phase := .waiting, request := {}, response := { kind := .running } } := by
  have hfirst : Device.tick (Device.drive t { command := .startClear }) =
      (Device.drive t { command := .startClear }).enter .waiting :=
    step_of_starts rfl (ne_ended_of_idle hp)
  change Device.tick (Device.drive (Device.tick (Device.drive t { command := .startClear })) {}) = _
  rw [hfirst]
  rfl

theorem engaged_start (h : t.Sound) (hp : t.phase = .idle) :
    Engaged (.start t settings script policy) := by
  refine ⟨((h.drive { command := .startClear }).step.drive {}).step, ?_⟩
  rw [device_start policy settings script hp]
  exact Kind.noConfusion

/-- The tick before the first turn leaves the whole script to be answered. -/
theorem outlook_start (hp : t.phase = .idle) :
    (State.start t settings script policy).outlook =
      (closed (meaning t.queue script)).after [none] := by
  rw [State.outlook, device_start policy settings script hp, outlook_waiting rfl]
  rfl

theorem total_start (hp : t.phase = .idle) :
    (State.start t settings script policy).total = (meaning t.queue script).words := by
  rw [State.total, outlook_start policy settings script hp]
  simp [State.start, State.ask, State.pulse, closed, Meaning.after, Meaning.words,
    List.reduceOption_append]

theorem length_start (hp : t.phase = .idle) :
    (State.start t settings script policy).outlook.answers.length =
      (meaning t.queue script).requests + 1 := by
  rw [outlook_start policy settings script hp, Meaning.requests_eq]
  simp [closed, Meaning.after]

theorem queue_start (hp : t.phase = .idle) :
    (State.start t settings script policy).device.queue = t.queue := by
  rw [device_start policy settings script hp]

end Start

namespace Completion

def ofEnding : Ending → Completion
  | .completed => .ok
  | .pollFailed => .pollFailed
  | .errored => .errored

theorem ofKind_kind (ending : Ending) : ofKind ending.kind = ofEnding ending := by
  cases ending <;> rfl

theorem ofEnding_ne_unexpected (ending : Ending) : ofEnding ending ≠ .unexpected := by
  cases ending <;> exact Completion.noConfusion

end Completion

/-- The finishing pulse acknowledges an ending, and leaves the target idle. -/
theorem device_finish {ending : Ending} (h : f.device.phase = .ended ending) :
    f.finish.device = Target.enter { f.device with request := {} } .idle := by
  change Target.step _ = _
  simp only [Target.step, Device.drive, h, if_true]

theorem Concluded.finish (h : Concluded s f) :
    f.finish.outcome = ⟨.ofEnding s.outlook.ending, s.total, f.ticks + 1⟩ ∧
      f.finish.device.queue = s.outlook.queue ∧ f.finish.device.response.kind = .idle := by
  have hk : f.device.response.kind = s.outlook.ending.kind := by
    rw [h.sound.reported, h.phase]
    rfl
  have hd := device_finish h.phase
  refine ⟨?_, ?_, ?_⟩
  · rw [← Completion.ofKind_kind, ← hk, ← h.words]
    rfl
  · rw [hd, ← h.queue]
    rfl
  · rw [hd]
    rfl

/-- The answers after the next one. -/
private theorem eq_of_after {m m' : Meaning} {answer : Option UInt32}
    (h : m = m'.after [answer]) : m' = ⟨m.ending, m.answers.tail, m.queue⟩ := by
  rw [h]
  rfl

/-- The target that a session leaves in the middle of a script still has the rest to answer. -/
private theorem Spent.outlook_device (h : Spent s f) :
    f.device.outlook (f.pending.drop f.device.response.consumed) =
      ⟨s.outlook.ending, s.outlook.answers.drop (s.budget + 1), s.outlook.queue⟩ := by
  have hsplit : s.outlook.answers = s.outlook.answers.take s.budget ++ f.outlook.answers :=
    congrArg Meaning.answers h.outlook
  have hcurrent : f.outlook.answers = s.outlook.answers.drop s.budget :=
    (List.append_cancel_left ((List.take_append_drop _ _).trans hsplit)).symm
  have hending : f.outlook.ending = s.outlook.ending := (congrArg Meaning.ending h.outlook).symm
  have hqueue : f.outlook.queue = s.outlook.queue := (congrArg Meaning.queue h.outlook).symm
  have hnext : f.outlook = Meaning.after _ [f.device.response.word?] := rfl
  rw [eq_of_after hnext, hending, hcurrent, hqueue, List.tail_drop]

/-- The finishing pulse may let a target in the middle of a script answer one more time. -/
theorem Spent.finish (h : Spent s f) :
    f.finish.outcome = ⟨.unexpected, f.words.toList, f.ticks + 1⟩ ∧
      f.finish.device.response.kind ≠ .idle ∧
      f.device.queue.Drained f.finish.device.queue ∧
      ∃ bytes more, more ≤ 1 ∧ f.finish.device.outlook bytes =
        ⟨s.outlook.ending, s.outlook.answers.drop (s.budget + 1 + more), s.outlook.queue⟩ := by
  have hs := h.engaged.sound.drive {}
  have hm := step_move (Device.drive f.device {})
  refine ⟨?_, kind_ne_idle_of_running h.engaged.sound h.running {}, hs.drained hm, ?_⟩
  · have hc : Completion.ofKind (Device.response f.device).kind = .unexpected :=
      congrArg Completion.ofKind h.running
    rw [← hc]
    rfl
  · have ho := h.outlook_device
    rcases foreseen_of_idle h.engaged.sound h.running {} rfl
      (f.pending.drop f.device.response.consumed) with hf | ⟨hw, ht⟩
    · rw [hf] at ho
      refine ⟨_, 1, Nat.le_refl 1, (eq_of_after ho.symm).trans ?_⟩
      rw [List.tail_drop]
    · refine ⟨f.pending.drop f.device.response.consumed, 0, Nat.zero_le 1, ?_⟩
      rw [← ho, outlook_waiting hw]
      change (Device.tick (Device.drive f.device {})).outlook _ = _
      rw [ht]
      exact outlook_waiting rfl _

end LogBench.Session
