import LogBench.Proofs.Session.Conclusion

/-! A session without idle pulses computes the meaning of its script, as far as its budget goes. -/
namespace LogBench.Session
open Link Script Target

/-- The outcome of a session whose budget pays for the whole script: that of its meaning. The ticks
are one for each request, two that start the script and one that acknowledges its ending. -/
structure Executed (m : Meaning) (f : Finished Target) : Prop where
  outcome : f.outcome = ⟨.ofEnding m.ending, m.words, m.requests + 3⟩
  queue : f.device.queue = m.queue
  idle : f.device.response.kind = .idle

/-- The outcome of a session whose budget is spent before the script ends. The answer to the last
request is not read, so the words are those among the answers before it. The target is left in the
middle of the script, with the rest of it to answer: all but the answers to the requests of the
budget, and at most one that the finishing pulse was answered with. -/
structure Interrupted (t : Target) (m : Meaning) (budget : Nat) (f : Finished Target) : Prop where
  outcome : f.outcome = ⟨.unexpected, (m.answers.take (budget - 1)).reduceOption, budget + 3⟩
  busy : f.device.response.kind ≠ .idle
  drained : t.queue.Drained f.device.queue
  left : m.queue.items <:+ f.device.queue.items
  rest : ∃ bytes more, more ≤ 1 ∧ f.device.outlook bytes =
    ⟨m.ending, (closed m).answers.drop (budget + more), m.queue⟩

variable {t : Target} {settings : Settings} {script : List UInt8}

theorem exists_executed (h : t.Sound) (hk : t.response.kind = .idle)
    (hb : (meaning t.queue script).requests ≤ settings.budget) :
    ∃ f, invoke t settings script = .ok f ∧ Executed (meaning t.queue script) f := by
  have hp := h.phase_eq_idle hk
  have hlen := length_start noIdles settings script hp
  obtain ⟨fuel, f, hl, hc⟩ := exists_concluded settings noIdles _ _ _
    (engaged_start noIdles settings script h hp) hlen rfl hb
  obtain ⟨houtcome, hqueue, hidle⟩ := hc.finish
  have ho := outlook_start noIdles settings script hp
  have hticks : f.ticks = (meaning t.queue script).requests + 2 := by
    have hspent : f.ticks + f.budget = 2 + settings.budget := ticks_of_loop_noIdles rfl hl
    have hpaid : settings.budget + 1 ≤ f.budget + _ := hc.paid
    have hleast : 2 + _ ≤ f.ticks + 1 := hc.ticks
    omega
  refine ⟨_, invoke_of_loop hk hl, ?_, ?_, hidle⟩
  · rw [houtcome, total_start noIdles settings script hp, ho, hticks]
    rfl
  · rw [hqueue, ho]
    rfl

private theorem take_start (m : Meaning) (budget : Nat) (h : budget < m.requests) :
    (((closed m).after [none]).answers.take budget).reduceOption =
      (m.answers.take (budget - 1)).reduceOption := by
  rw [Meaning.requests_eq] at h
  cases budget with
  | zero => rfl
  | succ budget =>
    change (none :: (m.answers ++ [none]).take budget).reduceOption = _
    rw [reduceOption_cons, List.take_append_of_le_length (by omega)]
    rfl

private theorem exists_interrupted (h : t.Sound) (hk : t.response.kind = .idle)
    (hb : settings.budget < (meaning t.queue script).requests) :
    ∃ f, invoke t settings script = .ok f ∧
      Interrupted t (meaning t.queue script) settings.budget f := by
  have hp := h.phase_eq_idle hk
  have hlen := length_start noIdles settings script hp
  obtain ⟨fuel, f, hl, hs⟩ := exists_spent settings settings.budget _
    (engaged_start noIdles settings script h hp) rfl rfl (by omega)
  obtain ⟨houtcome, hbusy, hdrained, bytes, more, hmore, hrest⟩ := hs.finish
  have ho := outlook_start noIdles settings script hp
  have hwords := hs.words
  rw [ho, Nat.add_right_comm] at hrest
  rw [ho] at hwords
  have hticks : f.ticks = 2 + settings.budget := hs.ticks
  have hfirst := hs.drained
  rw [queue_start noIdles settings script hp] at hfirst
  have hleft : (meaning t.queue script).queue.items <:+ f.finish.device.queue.items := by
    have hsuffix := outlook_suffix f.finish.device bytes
    rw [hrest] at hsuffix
    exact hsuffix
  refine ⟨_, invoke_of_loop hk hl, ?_, hbusy, hfirst.trans hdrained, hleft, bytes, more, hmore,
    hrest⟩
  have hcollected : f.words.toList =
      ((meaning t.queue script).answers.take (settings.budget - 1)).reduceOption :=
    hwords.trans (take_start _ _ hb)
  rw [houtcome, hcollected, hticks, Nat.add_right_comm, Nat.add_comm]

/-- For every target that can be reached and is idle, every script, well formed or not, and every
budget. -/
theorem invoke_computes_meaning (h : t.Reachable) (hk : t.response.kind = .idle)
    (settings : Settings) (script : List UInt8) :
    ∃ f, invoke t settings script = .ok f ∧
      ((meaning t.queue script).requests ≤ settings.budget →
        Executed (meaning t.queue script) f) ∧
      (settings.budget < (meaning t.queue script).requests →
        Interrupted t (meaning t.queue script) settings.budget f) := by
  rcases Nat.lt_or_ge settings.budget (meaning t.queue script).requests with hb | hb
  · obtain ⟨f, hf, hi⟩ := exists_interrupted h.sound hk hb
    exact ⟨f, hf, fun hle => absurd hb (Nat.not_lt.mpr hle), fun _ => hi⟩
  · obtain ⟨f, hf, he⟩ := exists_executed h.sound hk hb
    exact ⟨f, hf, fun _ => he, fun hlt => absurd hlt (Nat.not_lt.mpr hb)⟩

/-- A script that ends within an operation. -/
theorem invoke_computes_meaning_lone :
    lone.Reachable ∧ lone.response.kind = .idle ∧
      ∃ f, invoke lone { budget := 4 } [0x43, 0, 0, 0x41] = .ok f ∧
        ((meaning lone.queue [0x43, 0, 0, 0x41]).requests ≤ 4 →
          Executed (meaning lone.queue [0x43, 0, 0, 0x41]) f) ∧
        (4 < (meaning lone.queue [0x43, 0, 0, 0x41]).requests →
          Interrupted lone (meaning lone.queue [0x43, 0, 0, 0x41]) 4 f) :=
  ⟨reachable_lone, rfl,
    invoke_computes_meaning reachable_lone rfl { budget := 4 } [0x43, 0, 0, 0x41]⟩

end LogBench.Session
