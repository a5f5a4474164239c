import LogBench.Proofs.Session.Conclusion
import LogBench.Proofs.Session.Termination
import LogBench.Proofs.Target.Registers

/-! The sessions that one target sees, and what each leaves to the next one: a target that is idle
again unless the session ended unexpectedly, and from then on one that refuses all of them. -/
namespace LogBench.Session
open Link Target

structure Plan where
  settings : Settings
  script : List UInt8
  policy : IdlePolicy

/-- What a session comes to and the device as it leaves it; `none` if it takes `fuel` turns or more. -/
def conduct {σ : Type u} [Device σ] (device : σ) (plan : Plan) (fuel : Nat) :
    Option (Except NotIdle Outcome × σ) :=
  match run device plan.settings plan.script plan.policy fuel with
  | .ok finished? => finished?.map fun f => (.ok f.outcome, f.device)
  | .error refused => some (.error refused, refused.device)

private theorem conduct_of_not_idle {σ : Type u} [Device σ] {device : σ}
    (h : (Device.response device).kind ≠ .idle) (plan : Plan) (fuel : Nat) :
    conduct device plan fuel = some (.error ⟨(Device.response device).kind⟩, device) := by
  rw [conduct, run_of_not_idle h]

variable {settings : Settings} {policy : IdlePolicy} {s t : State Target}

/-- Every turn of a session keeps its target in the script or at its ending. -/
theorem Engaged.next (h : Engaged s) (ht : Turns settings policy s (.next t)) : Engaged t := by
  cases ht with
  | data _ hk => exact (reads_of_data h hk policy).engaged
  | idle _ hk =>
    rcases reads_or_waits_of_idle h hk policy settings with hr | hw
    · exact hr.engaged
    · exact hw.engaged

private theorem Engaged.last (h : Engaged s) (ht : Turns settings policy s (.last t)) :
    Engaged t := by
  cases ht with
  | spent => exact h
  | ended =>
    rw [State.collect_eq]
    exact ⟨h.sound, h.begun⟩

/-- What a session leaves: a target that is idle exactly if its script has ended. -/
structure Leaves (outcome : Outcome) (t : Target) : Prop where
  sound : t.Sound
  idle_iff : t.response.kind = .idle ↔ outcome.completion ≠ .unexpected

/-- The finishing pulse acknowledges an ending. A script that has not ended takes one more step at
it, and so the target may hold an ending now, but it is not idle. -/
theorem Engaged.finish (h : Engaged s) : Leaves s.finish.outcome s.finish.device := by
  refine ⟨(h.sound.drive {}).step, ?_⟩
  rcases h.running_or_ended with hk | ⟨ending, hp, -⟩
  · have hc : s.finish.outcome.completion = .unexpected := congrArg Completion.ofKind hk
    exact iff_of_false (kind_ne_idle_of_running h.sound hk {}) (absurd hc)
  · have hk : s.device.response.kind = ending.kind := by
      rw [h.sound.reported, hp]
      rfl
    have hc : s.finish.outcome.completion = .ofEnding ending := by
      rw [← Completion.ofKind_kind, ← hk]
      rfl
    refine iff_of_true ?_ ?_
    · rw [device_finish hp]
      rfl
    · rw [hc]
      exact Completion.ofEnding_ne_unexpected ending

/-- A target that runs a script, or holds its ending, lets the loop end and does so there too. -/
theorem Engaged.exists_loop (settings : Settings) (policy : IdlePolicy) (h : Engaged s) :
    ∃ fuel f, loop settings policy fuel s = some f ∧ Engaged f := by
  obtain ⟨fuel, f, hl⟩ := Session.exists_loop settings policy (P := Engaged)
    (fun _ _ => Engaged.next) (fun s _ => consumed_of_idle (s.heard policy).device rfl) h
  exact ⟨fuel, f, hl, loop_keeps (fun _ _ => Engaged.next) (fun _ _ => Engaged.last) h hl⟩

private theorem exists_conduct {t : Target} (h : t.Sound) (hk : t.response.kind = .idle)
    (plan : Plan) : ∃ bound outcome t', (∀ fuel, bound ≤ fuel →
      conduct t plan fuel = some (.ok outcome, t')) ∧ Leaves outcome t' := by
  obtain ⟨bound, s, hl, hlast⟩ :=
    (engaged_start plan.policy plan.settings plan.script h (h.phase_eq_idle hk)).exists_loop
      plan.settings plan.policy
  refine ⟨bound, s.finish.outcome, s.finish.device, fun fuel hle => ?_, hlast.finish⟩
  rw [conduct, run_of_loop hk (loop_of_le hl hle)]
  rfl

inductive Event where
  | offer (e : Entry 4)
  | offerRecord (r : Record)
  | session (plan : Plan)

def Event.plan? : Event → Option Plan
  | session plan => some plan
  | _ => none

structure Visit where
  plan : Plan
  before : Target
  result : Except NotIdle Outcome
  after : Target

namespace Visit

def Ran (v : Visit) : Prop := ∃ outcome, v.result = .ok outcome

def Unexpected (v : Visit) : Prop :=
  ∃ outcome, v.result = .ok outcome ∧ outcome.completion = .unexpected

structure Refused (v : Visit) : Prop where
  busy : v.before.response.kind ≠ .idle
  result : v.result = .error ⟨v.before.response.kind⟩
  unchanged : v.after = v.before

end Visit

def series (fuel : Nat) : Target → List Event → Option (List Visit)
  | _, [] => some []
  | t, .offer e :: later => series fuel (t.offer e).2 later
  | t, .offerRecord r :: later => series fuel (t.offerRecord r).2 later
  | t, .session plan :: later =>
    (conduct t plan fuel).bind fun (result, after) =>
      (series fuel after later).map (⟨plan, t, result, after⟩ :: ·)

private theorem series_session {fuel : Nat} {t after : Target} {plan : Plan}
    {result : Except NotIdle Outcome} {later : List Event} {visits : List Visit}
    (hc : conduct t plan fuel = some (result, after))
    (hs : series fuel after later = some visits) :
    series fuel t (.session plan :: later) = some (⟨plan, t, result, after⟩ :: visits) := by
  simp only [series, hc, hs, Option.bind_some, Option.map_some]

/-- Sessions run up to the first one that ends unexpectedly, and all later ones are refused. -/
inductive Orderly : List Visit → Prop
  | nil : Orderly []
  | ran {v : Visit} {later : List Visit} :
      v.Ran → ¬ v.Unexpected → Orderly later → Orderly (v :: later)
  | stuck {v : Visit} {later : List Visit} :
      v.Unexpected → (∀ w ∈ later, w.Refused) → Orderly (v :: later)

/-- Offers do not free a target that is not idle, so it refuses each session of a series. -/
private theorem exists_series_of_not_idle {t : Target} (h : t.response.kind ≠ .idle)
    (events : List Event) : ∃ visits, (∀ fuel, series fuel t events = some visits) ∧
      visits.map Visit.plan = events.filterMap Event.plan? ∧ ∀ v ∈ visits, v.Refused := by
  induction events generalizing t with
  | nil => exact ⟨[], fun _ => rfl, rfl, List.forall_mem_nil _⟩
  | cons event later ih =>
    cases event with
    | offer e => exact ih (t := (t.offer e).2) h
    | offerRecord r => exact ih (t := (t.offerRecord r).2) h
    | session plan =>
      obtain ⟨visits, hs, hplans, hrefused⟩ := ih h
      refine ⟨_, fun fuel => series_session (conduct_of_not_idle h plan fuel) (hs fuel),
        congrArg (plan :: ·) hplans, ?_⟩
      exact List.forall_mem_cons.mpr ⟨⟨h, rfl, rfl⟩, hrefused⟩

private theorem exists_series {t : Target} (h : t.Sound) (hk : t.response.kind = .idle)
    (events : List Event) : ∃ bound visits, (∀ fuel, bound ≤ fuel →
      series fuel t events = some visits) ∧
      visits.map Visit.plan = events.filterMap Event.plan? ∧ Orderly visits := by
  -- By induction on the events, for all sound idle targets: a session that ends as expected leaves
  -- such a target again, and after the first one that does not, none of the rest runs.
  induction events generalizing t with
  | nil => exact ⟨0, [], fun _ _ => rfl, rfl, .nil⟩
  | cons event later ih =>
    cases event with
    | offer e => exact ih (t := (t.offer e).2) (h.offer e) hk
    | offerRecord r => exact ih (t := (t.offerRecord r).2) (h.offer (r.entry 4)) hk
    | session plan =>
      obtain ⟨bound, outcome, t', hc, hleaves⟩ := exists_conduct h hk plan
      by_cases hu : outcome.completion = .unexpected
      · have hbusy : t'.response.kind ≠ .idle := fun hi => hleaves.idle_iff.mp hi hu
        obtain ⟨visits, hs, hplans, hrefused⟩ := exists_series_of_not_idle hbusy later
        exact ⟨bound, _, fun fuel hle => series_session (hc fuel hle) (hs fuel),
          congrArg (plan :: ·) hplans, .stuck ⟨outcome, rfl, hu⟩ hrefused⟩
      · obtain ⟨bound', visits, hs, hplans, horderly⟩ :=
          ih hleaves.sound (hleaves.idle_iff.mpr hu)
        have hran : Visit.Ran ⟨plan, t, .ok outcome, t'⟩ := ⟨outcome, rfl⟩
        refine ⟨max bound bound', _,
          fun fuel hle => series_session (hc fuel (by omega)) (hs fuel (by omega)),
          congrArg (plan :: ·) hplans, .ran hran ?_ horderly⟩
        rintro ⟨outcome', ho, hu'⟩
        cases ho
        exact hu hu'

/-- A session with an idle target ends, whatever its script, policy and budget, and the target is
then idle exactly if the script has ended. All other sessions are refused. -/
theorem session_lifecycle {t : Target} (h : t.Reachable) :
    (∀ plan : Plan,
      (t.response.kind ≠ .idle → ∀ fuel,
        conduct t plan fuel = some (.error ⟨t.response.kind⟩, t)) ∧
      (t.response.kind = .idle → ∃ bound outcome t',
        (∀ fuel, bound ≤ fuel → conduct t plan fuel = some (.ok outcome, t')) ∧
          (t'.response.kind = .idle ↔ outcome.completion ≠ .unexpected))) ∧
    (t.response.kind = .idle → ∀ events, ∃ bound visits,
      (∀ fuel, bound ≤ fuel → series fuel t events = some visits) ∧
        visits.map Visit.plan = events.filterMap Event.plan? ∧ Orderly visits) := by
  refine ⟨fun plan => ⟨fun hk fuel => conduct_of_not_idle hk plan fuel, fun hk => ?_⟩,
    fun hk events => exists_series h.sound hk events⟩
  obtain ⟨bound, outcome, t', hc, hleaves⟩ := exists_conduct h.sound hk plan
  exact ⟨bound, outcome, t', hc, hleaves.idle_iff⟩

def Event.sample : List Event :=
  [.session ⟨{ budget := 1 }, [0x43, 0, 0], noIdles⟩, .offer ⟨1, #v[0, 0, 0, 0]⟩,
    .session ⟨{}, [], noIdles⟩]

theorem session_lifecycle_lone : lone.Reachable ∧ lone.response.kind = .idle ∧
    (∃ bound outcome t', (∀ fuel, bound ≤ fuel →
      conduct lone ⟨{}, [0x43, 0, 0], (· % 3)⟩ fuel = some (.ok outcome, t')) ∧
        (t'.response.kind = .idle ↔ outcome.completion ≠ .unexpected)) ∧
    ∃ bound visits, (∀ fuel, bound ≤ fuel → series fuel lone Event.sample = some visits) ∧
      visits.map Visit.plan = Event.sample.filterMap Event.plan? ∧ Orderly visits := by
  obtain ⟨hplan, hseries⟩ := session_lifecycle reachable_lone
  exact ⟨reachable_lone, rfl, (hplan _).2 rfl, hseries rfl Event.sample⟩

example : (series 3 lone Event.sample).map (·.map Visit.result) =
    some [.ok ⟨.unexpected, [], 4⟩, .error ⟨.running⟩] := rfl

end LogBench.Session
