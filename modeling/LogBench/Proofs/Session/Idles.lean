import LogBench.Proofs.Session.Conclusion
import LogBench.Proofs.Session.Transcript

/-! Idle pulses between the data requests change nothing that a script comes to: they only let the
target answer some of it before the next request. -/
namespace LogBench.Session
open Link Script Target

variable {t : Target} {settings : Settings} {script : List UInt8}

/-- The results of a session agree with those of a plain one: it comes to the same with no more
data requests, but may take more ticks. -/
structure Agrees (p f : Finished Target) : Prop where
  completion : f.outcome.completion = p.outcome.completion
  words : f.outcome.words = p.outcome.words
  queue : f.device.queue = p.device.queue
  requests : dataCount f.exchanges ≤ dataCount p.exchanges
  ticks : p.outcome.ticks ≤ f.outcome.ticks

/-- A plain session that sees its script end has a budget for all of the answers. -/
private theorem requests_le_of_completion (h : t.Sound) (hp : t.phase = .idle) {fuel : Nat}
    {s : State Target}
    (hl : loop settings noIdles fuel (.start t settings script noIdles) = some s)
    (hc : s.finish.outcome.completion ≠ .unexpected) :
    (meaning t.queue script).requests ≤ settings.budget := by
  by_contra hlt
  have hlen := length_start noIdles settings script hp
  obtain ⟨fuel', f, hl', hf⟩ := exists_spent settings settings.budget _
    (engaged_start noIdles settings script h hp) rfl rfl (by omega)
  cases loop_unique hl hl'
  exact hc (congrArg Outcome.completion hf.finish.1)

/-- Holds for every policy and every word on the data register of the idle pulses. -/
theorem idles_keep_results (h : t.Reachable) (settings : Settings) (script : List UInt8)
    {p : Finished Target} (hp : invoke t settings script = .ok p)
    (hc : p.outcome.completion ≠ .unexpected) (sentinel : UInt64) (policy : IdlePolicy) :
    ∃ f bound, (∀ fuel, bound ≤ fuel →
      run t { settings with sentinel } script policy fuel = .ok (some f)) ∧ Agrees p f := by
  obtain ⟨hk, fuel, s, hl, rfl⟩ := exists_of_invoke hp
  have hidle := h.sound.phase_eq_idle hk
  have hb := requests_le_of_completion h.sound hidle hl hc
  obtain ⟨fuel', s', hl', hs⟩ := exists_concluded settings noIdles _ _ _
    (engaged_start noIdles settings script h.sound hidle)
    (length_start noIdles settings script hidle) rfl hb
  cases loop_unique hl hl'
  obtain ⟨bound, f, hlf, hf⟩ := exists_concluded { settings with sentinel } policy _ _ _
    (engaged_start policy { settings with sentinel } script h.sound hidle)
    (length_start policy { settings with sentinel } script hidle) rfl hb
  have hstart : (State.start t { settings with sentinel } script policy).outlook =
      (State.start t settings script noIdles).outlook :=
    (outlook_start policy _ script hidle).trans (outlook_start noIdles _ script hidle).symm
  have htotal : (State.start t { settings with sentinel } script policy).total =
      (State.start t settings script noIdles).total :=
    (total_start policy _ script hidle).trans (total_start noIdles _ script hidle).symm
  obtain ⟨houtcome, hqueue, -⟩ := hs.finish
  obtain ⟨houtcome', hqueue', -⟩ := hf.finish
  rw [hstart, htotal] at houtcome'
  rw [hstart] at hqueue'
  -- The plain session pays one request for each answer, the other one at most that many.
  have hspent : s.ticks + s.budget = 2 + settings.budget := ticks_of_loop_noIdles rfl hl
  have hticks : 2 + _ ≤ s.ticks + 1 := hs.ticks
  have hticks' : 2 + _ ≤ f.ticks + 1 := hf.ticks
  have hpaid : settings.budget + 1 ≤ s.budget + _ := hs.paid
  have hpaid' : settings.budget + 1 ≤ f.budget + _ := hf.paid
  rw [hstart] at hticks' hpaid'
  have hcount : dataCount s.exchanges + s.budget = settings.budget := (stopped_of_loop hl).paid
  have hcount' : dataCount f.exchanges + f.budget = settings.budget := (stopped_of_loop hlf).paid
  refine ⟨f.finish, bound, fun more hm => run_of_loop hk (loop_of_le hlf hm), ?_, ?_, ?_, ?_, ?_⟩
  · rw [houtcome, houtcome']
  · rw [houtcome, houtcome']
  · rw [hqueue, hqueue']
  · rw [dataCount_finish, dataCount_finish]
    omega
  · rw [houtcome, houtcome']
    change s.ticks + 1 ≤ f.ticks + 1
    omega

theorem idles_keep_results_lone : ∃ p : Finished Target,
    lone.Reachable ∧ invoke lone { budget := 3 } [0x43, 0, 0] = .ok p ∧
      p.outcome.completion ≠ .unexpected ∧ ∃ f bound,
        (∀ fuel, bound ≤ fuel →
          run lone { budget := 3, sentinel := 7 } [0x43, 0, 0] (· % 3) fuel = .ok (some f)) ∧
          Agrees p f := by
  refine ⟨_, reachable_lone, rfl, by decide, ?_⟩
  exact idles_keep_results reachable_lone { budget := 3 } [0x43, 0, 0] rfl (by decide) 7 (· % 3)

end LogBench.Session
