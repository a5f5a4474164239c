import LogBench.Proofs.Session.Turn

/-! When the loop of a session ends: always, if the device takes no script byte from an idle pulse.
Then only a data request lets the policy ask for more idle pulses, and the budget pays for those. -/
namespace LogBench.Session
open Link

variable {σ : Type u} [Device σ] {settings : Settings} {policy : IdlePolicy} {s : State σ}

private theorem exists_loop_of_next
    (h : ∀ t, Turns settings policy s (.next t) → ∃ fuel f, loop settings policy fuel t = some f) :
    ∃ fuel f, loop settings policy fuel s = some f := by
  have hm := turn_turns settings policy s
  cases ht : turn settings policy s with
  | last f => exact ⟨1, f, loop_last ht⟩
  | next t =>
    rw [ht] at hm
    obtain ⟨fuel, f, hl⟩ := h t hm
    exact ⟨fuel + 1, f, (loop_next ht).trans hl⟩

/-- A loop ends if its turns keep a property under which idle pulses take nothing. -/
theorem exists_loop (settings : Settings) (policy : IdlePolicy) {P : State σ → Prop}
    (next : ∀ s t, P s → Turns settings policy s (.next t) → P t)
    (unconsumed : ∀ s, P s →
      (Device.response ((s.heard policy).sendIdle settings).device).consumed = 0)
    (hs : P s) : ∃ fuel f, loop settings policy fuel s = some f := by
  -- By induction on the budget, and on the idle pulses before the next data request: a pulse takes
  -- nothing, so the policy is not asked and one pulse less is left.
  induction hb : s.budget generalizing s with
  | zero => exact ⟨1, s, loop_last (turn_of_spent hb)⟩
  | succ budget ihb =>
    induction hi : (s.heard policy).idles generalizing s with
    | zero =>
      refine exists_loop_of_next fun t hm => ?_
      have hp := next s t hs hm
      cases hm with
      | data =>
        have hbudget := s.budget_sendData policy
        exact ihb hp (by omega)
      | idle _ _ h0 => exact absurd hi h0
    | succ i ihi =>
      refine exists_loop_of_next fun t hm => ?_
      have hp := next s t hs hm
      cases hm with
      | data _ _ h0 => omega
      | idle =>
        have hbudget := s.budget_sendIdle policy settings
        refine ihi hp (by omega) ?_
        rw [State.idles_heard_of_unconsumed _ _ (unconsumed s hs)]
        change (s.heard policy).idles - 1 = i
        omega

end LogBench.Session
