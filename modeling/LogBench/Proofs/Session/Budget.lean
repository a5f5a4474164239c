import LogBench.Proofs.Session.Lifecycle

/-! What a larger budget changes in a session with a target: nothing if the script has ended within
the smaller one, and else the session goes on from where the smaller one was spent. -/
namespace LogBench.Session
open Link Target

section Device

variable {σ : Type u}

def State.fund (s : State σ) (extra : Nat) : State σ := { s with budget := s.budget + extra }

private theorem collect_fund (s : State σ) (extra : Nat) (r : Response) :
    (s.fund extra).collect r = (s.collect r).fund extra := by
  rw [State.collect, State.collect]
  cases r.word? <;> rfl

private theorem consume_fund (s : State σ) (extra : Nat) (policy : IdlePolicy) (n : Nat) :
    (s.fund extra).consume policy n = (s.consume policy n).fund extra := by
  induction n generalizing s with
  | zero => rfl
  | succ n ih => exact ih ({ s with pending := s.pending.tail }.ask policy)

private theorem fund_budget_ne_zero {s : State σ} (h : s.budget ≠ 0) (extra : Nat) :
    (s.fund extra).budget ≠ 0 := by
  change s.budget + extra ≠ 0
  omega

variable [Device σ] {settings : Settings} {policy : IdlePolicy} {s t f : State σ}

private theorem heard_fund (s : State σ) (extra : Nat) (policy : IdlePolicy) :
    (s.fund extra).heard policy = (s.heard policy).fund extra := by
  rw [State.heard, collect_fund, consume_fund]
  rfl

/-- A turn that goes on does the same with more budget. -/
private theorem turn_fund_next (ht : Turns settings policy s (.next t)) (extra : Nat) :
    turn settings policy (s.fund extra) = .next (t.fund extra) := by
  have hheard := heard_fund s extra policy
  cases ht with
  | data hb hk hi =>
    have hsend : ((s.fund extra).heard policy).sendData = (s.heard policy).sendData.fund extra := by
      have hbudget : (s.heard policy).budget + extra - 1 = (s.heard policy).budget - 1 + extra := by
        rw [s.budget_heard policy]
        omega
      rw [hheard]
      simp only [State.sendData, State.fund, State.pulse, hbudget]
    rw [← hsend]
    refine turn_of_data (fund_budget_ne_zero hb extra) hk ?_
    rw [hheard]
    exact hi
  | idle hb hk hi =>
    have hsend : ((s.fund extra).heard policy).sendIdle settings =
        ((s.heard policy).sendIdle settings).fund extra := by
      rw [hheard]
      rfl
    rw [← hsend]
    refine turn_of_idle (fund_budget_ne_zero hb extra) hk ?_
    rw [hheard]
    exact hi

/-- Where a loop ends with budget left, the loop with more budget ends too. Where it has spent its
budget, the loop with more of it comes by and goes on from there. -/
theorem loop_fund {fuel : Nat} (hl : loop settings policy fuel s = some f) (extra : Nat) :
    (∃ more, loop settings policy more (s.fund extra) = some (f.fund extra)) ∨
      ∀ more g, loop settings policy more (f.fund extra) = some g →
        ∃ more', loop settings policy more' (s.fund extra) = some g := by
  induction fuel generalizing s with
  | zero => cases hl
  | succ fuel ih =>
    have ht := turn_turns settings policy s
    rw [loop] at hl
    cases hu : turn settings policy s with
    | next u =>
      rw [hu] at hl ht
      have hnext := turn_fund_next ht extra
      rcases ih hl with ⟨more, hmore⟩ | hon
      · exact .inl ⟨more + 1, (loop_next hnext).trans hmore⟩
      · refine .inr fun more g hg => ?_
        obtain ⟨more', hmore'⟩ := hon more g hg
        exact ⟨more' + 1, (loop_next hnext).trans hmore'⟩
    | last u =>
      rw [hu] at hl ht
      cases hl
      cases ht with
      | spent => exact .inr fun more g hg => ⟨more, hg⟩
      | ended hb hk =>
        have hlast : turn settings policy (s.fund extra) = .last _ :=
          turn_of_ended (fund_budget_ne_zero hb extra) hk
        exact .inl ⟨1, loop_last (hlast.trans (congrArg Turn.last (collect_fund s extra _)))⟩

/-- Words are collected one after the other, and none is dropped. -/
theorem words_prefix_of_loop {fuel : Nat} (hl : loop settings policy fuel s = some f) :
    s.words.toList <+: f.words.toList := by
  refine loop_keeps (P := fun u => s.words.toList <+: u.words.toList)
    (Q := fun u => s.words.toList <+: u.words.toList) ?_ ?_ (List.prefix_refl _) hl
  · intro u v hu hv
    have hheard : u.words.toList <+: (u.heard policy).words.toList := by
      rw [u.words_heard policy]
      exact List.prefix_append _ _
    cases hv with
    | data => exact hu.trans hheard
    | idle => exact hu.trans hheard
  · intro u v hu hv
    cases hv with
    | spent => exact hu
    | ended =>
      rw [State.words_collect]
      exact hu.trans (List.prefix_append _ _)

/-- The turns do not look at the budget that a session was given. -/
private theorem loop_of_budget (settings : Settings) (budget : Nat) (policy : IdlePolicy)
    (fuel : Nat) (s : State σ) :
    loop { settings with budget } policy fuel s = loop settings policy fuel s := by
  induction fuel generalizing s with
  | zero => rfl
  | succ fuel ih =>
    have ht : turn { settings with budget } policy s = turn settings policy s := rfl
    rw [loop, loop, ht]
    cases turn settings policy s with
    | next t => exact ih t
    | last t => rfl

end Device

/-- A session and one with a larger budget: the words of the first come first in the second, and if
the script has ended in the first, nothing differs: not the outcome, nor the target that is left, the
number of questions to the policy, or any exchange. -/
structure Truncates (f g : Finished Target) : Prop where
  words : f.outcome.words <+: g.outcome.words
  same : f.outcome.completion ≠ .unexpected → g = f

variable {settings : Settings} {policy : IdlePolicy}

/-- The loop with more budget ends, and what was collected before stays in front. -/
private theorem Engaged.exists_truncates {s f : State Target} {fuel : Nat}
    (hl : loop settings policy fuel s = some f) (hf : Engaged f) (extra : Nat) :
    ∃ more g, loop settings policy more (s.fund extra) = some g ∧ Truncates f.finish g.finish := by
  have hsame : Truncates f.finish (f.fund extra).finish := ⟨List.prefix_refl _, fun _ => rfl⟩
  rcases loop_fund hl extra with ⟨more, hmore⟩ | hon
  · exact ⟨more, f.fund extra, hmore, hsame⟩
  · rcases hf.running_or_ended with hk | ⟨ending, -, hk, hw, -⟩
    · have hfund : Engaged (f.fund extra) := ⟨hf.sound, hf.begun⟩
      obtain ⟨rest, g, hg, -⟩ := hfund.exists_loop settings policy
      obtain ⟨more, hmore⟩ := hon rest g hg
      have hwords := words_prefix_of_loop hg
      have hc : f.finish.outcome.completion = .unexpected := congrArg Completion.ofKind hk
      exact ⟨more, g, hmore, hwords, absurd hc⟩
    · -- The budget was spent on the request that ended the script.
      have hlast : loop settings policy 1 (f.fund extra) = some (f.fund extra) :=
        loop_last (turn_of_ending policy hk hw)
      obtain ⟨more, hmore⟩ := hon 1 _ hlast
      exact ⟨more, f.fund extra, hmore, hsame⟩

/-- For every idle target that can be reached, every script and every policy. -/
theorem budget_only_truncates {t : Target} (h : t.Reachable) (hk : t.response.kind = .idle)
    (settings : Settings) (script : List UInt8) (policy : IdlePolicy) {budget : Nat}
    (hle : settings.budget ≤ budget) :
    ∃ f g bound, (∀ fuel, bound ≤ fuel →
      run t settings script policy fuel = .ok (some f) ∧
        run t { settings with budget } script policy fuel = .ok (some g)) ∧ Truncates f g := by
  obtain ⟨extra, rfl⟩ := Nat.exists_eq_add_of_le hle
  have hstart := engaged_start policy settings script h.sound (h.sound.phase_eq_idle hk)
  obtain ⟨fuel, f, hf, hengaged⟩ := hstart.exists_loop settings policy
  obtain ⟨more, g, hg, htruncates⟩ := Engaged.exists_truncates hf hengaged extra
  refine ⟨f.finish, g.finish, max fuel more, fun bound hbound => ⟨?_, ?_⟩, htruncates⟩
  · exact run_of_loop hk (loop_of_le hf (by omega))
  · rw [← loop_of_budget settings (settings.budget + extra)] at hg
    exact run_of_loop hk (loop_of_le hg (by omega))

/-- The smaller budget is spent on the request that ends the script. -/
theorem budget_only_truncates_lone :
    lone.Reachable ∧ lone.response.kind = .idle ∧ 3 ≤ 7 ∧ ∃ f g bound,
      (∀ fuel, bound ≤ fuel →
        run lone { budget := 3 } [0x43, 0, 0] (· % 3) fuel = .ok (some f) ∧
          run lone { budget := 7 } [0x43, 0, 0] (· % 3) fuel = .ok (some g)) ∧ Truncates f g := by
  refine ⟨reachable_lone, rfl, by decide, ?_⟩
  exact budget_only_truncates reachable_lone rfl { budget := 3 } [0x43, 0, 0] (· % 3) (by decide)

end LogBench.Session
