import LogBench.Proofs.Session.Transcript
import LogBench.Proofs.Target.History

/-! Whether a session collects the words of all the responses that it samples: always, but for the
last response where the budget is spent. -/
namespace LogBench.Session
open Link Script Target

namespace Finished

variable {σ : Type u}

def Complete (f : Finished σ) : Prop := f.outcome.words = f.sampled.filterMap Response.word?

/-- The last sampled response came with the last data request of the budget, and has a word. -/
def CutShort (f : Finished σ) (budget : Nat) : Prop :=
  dataCount f.exchanges = budget ∧
    ∃ last word, f.sampled.getLast? = some last ∧ last.word? = some word

end Finished

variable {σ : Type u} [Device σ]

private theorem Recorded.complete_iff {device : σ} {settings : Settings} {f : Finished σ}
    (h : Recorded device settings f) : f.Complete ↔ ¬ f.CutShort settings.budget := by
  have hw := h.words
  obtain ⟨last, hl, -⟩ := h.completion
  unfold Finished.Complete Finished.CutShort
  rw [← hw, List.self_eq_append_right, Finished.missed, hl]
  by_cases hb : dataCount f.exchanges = settings.budget
  · cases hword : last.word? <;> simp [hb, hword]
  · simp [hb]

private def clockActions (requests : List Request) : List Action :=
  requests.flatMap fun request => [.drive request, .tick]

private theorem foldl_clockActions (h : History) (requests : List Request) :
    ((clockActions requests).foldl History.extend h).target = clocked h.target requests ∧
      ((clockActions requests).foldl History.extend h).accepted = h.accepted ∧
      ((clockActions requests).foldl History.extend h).answered =
        h.answered ++ ((exchangesOf h.target requests).map Prod.snd).filterMap Response.word? := by
  induction requests generalizing h with
  | nil => exact ⟨rfl, rfl, (List.append_nil _).symm⟩
  | cons request later ih =>
    obtain ⟨htarget, haccepted, hanswered⟩ :=
      ih ((h.extend (.drive request)).extend .tick)
    refine ⟨htarget, haccepted, hanswered.trans ?_⟩
    simp only [History.extend, History.ticked, exchangesOf, List.append_assoc]
    rw [List.map_cons, ← List.singleton_append, List.filterMap_append]
    congr 2

private theorem dropLast_exchangesOf (device : σ) (requests : List Request) (last : Request) :
    (exchangesOf device (requests ++ [last])).dropLast = exchangesOf device requests := by
  rw [exchangesOf_append, List.dropLast_concat]

/-- The words that the ticks of a session answer are those of the sampled responses: the tick that
starts the script answers none. -/
private theorem sampled_eq {t : Target} {settings : Settings} {f : Finished Target}
    (hf : Recorded t settings f) (hp : t.phase = .idle) :
    ((exchangesOf t (requests f.exchanges).dropLast).map Prod.snd).filterMap Response.word? =
      f.sampled.filterMap Response.word? := by
  obtain ⟨later, hlater⟩ := hf.framed
  have hr : requests f.exchanges =
      ({ command := .startClear } :: {} :: later) ++ [({} : Request)] := hlater
  have hd : (requests f.exchanges).dropLast = { command := .startClear } :: {} :: later := by
    rw [hr, List.dropLast_concat]
  have hs : f.sampled = ((exchangesOf t (requests f.exchanges).dropLast).map Prod.snd).tail := by
    unfold Finished.sampled responses
    rw [hf.logged.exchanged, hd, hr, ← List.tail_dropLast, ← List.map_dropLast, dropLast_exchangesOf]
  have hstart : Device.tick (Device.drive t { command := .startClear }) =
      (Device.drive t { command := .startClear }).enter .waiting :=
    step_of_starts rfl (ne_ended_of_idle hp)
  rw [hs, hd, exchangesOf, List.map_cons, List.tail_cons, hstart]
  exact List.filterMap_cons_none rfl

/-- A session loses at most the word of the last sampled response, and it does so exactly where it
is cut short there. So the elements that a target answers in full while the session goes on are
collected up to that word. -/
theorem words_collected (settings : Settings) (script : List UInt8) (policy : IdlePolicy)
    (fuel : Nat) :
    (∀ (σ : Type u) [Device σ] (device : σ) (f : Finished σ),
      run device settings script policy fuel = .ok (some f) →
        Recorded device settings f ∧ (f.Complete ↔ ¬ f.CutShort settings.budget)) ∧
    ∀ (t : Target) (f : Finished Target), t.Reachable →
      run t settings script policy fuel = .ok (some f) → ∃ served : List (Entry 4 × Nat),
        t.queue.items =
          served.map Prod.fst ++ (clocked t (requests f.exchanges).dropLast).queue.items ∧
        (served.flatMap fun p => elementWords p.1 p.2).Sublist
          (f.outcome.words ++ f.missed settings.budget) := by
  constructor
  · intro σ _ device f h
    have hf := recorded_of_run h
    exact ⟨hf, hf.complete_iff⟩
  · intro t f hr h
    have hf := recorded_of_run h
    have hk := (exists_of_run h).1
    have hh := (hr.faithful hk).foldl (clockActions (requests f.exchanges).dropLast)
    obtain ⟨htarget, haccepted, hanswered⟩ := foldl_clockActions
      { target := t, accepted := t.queue.items, refused := t.queue.occupancy.overflowed }
      (requests f.exchanges).dropLast
    obtain ⟨served, earlier, hserved, hwords, hsub⟩ := hh.served
    have hc := hh.conserved
    rw [haccepted, htarget] at hc
    refine ⟨served, ?_, ?_⟩
    · rw [hserved]
      exact hc.symm
    · rw [hf.words, ← sampled_eq hf (hr.sound.phase_eq_idle hk)]
      rw [hanswered, List.nil_append] at hwords
      rw [hwords]
      exact hsub.trans (List.sublist_append_left _ _)

theorem words_collected_lone : ∃ f : Finished Target,
    run lone { budget := 2 } [0x43, 0, 0] noIdles 3 = .ok (some f) ∧ lone.Reachable ∧
      (f.Complete ↔ ¬ f.CutShort 2) ∧ ∃ served : List (Entry 4 × Nat),
        lone.queue.items =
          served.map Prod.fst ++ (clocked lone (requests f.exchanges).dropLast).queue.items ∧
        (served.flatMap fun p => elementWords p.1 p.2).Sublist
          (f.outcome.words ++ f.missed 2) := by
  refine ⟨_, rfl, reachable_lone, ?_, ?_⟩
  · exact ((words_collected { budget := 2 } [0x43, 0, 0] noIdles 3).1 Target lone _ rfl).2
  · exact (words_collected.{0} { budget := 2 } [0x43, 0, 0] noIdles 3).2 lone _ reachable_lone rfl

/-- A read of one word within a budget of two requests: the word comes with the second of them. The
entry is gone, and its word is not collected. -/
theorem word_lost_lone : ∃ f : Finished Target,
    run lone { budget := 2 } [0x43, 0, 0] noIdles 3 = .ok (some f) ∧ lone.Reachable ∧
      (clocked lone (requests f.exchanges).dropLast).queue.items = [] ∧
      f.sampled.filterMap Response.word? = [0x11223344] ∧ f.outcome.words = [] ∧
      ¬ f.Complete := by
  refine ⟨_, rfl, reachable_lone, ?_, ?_, ?_, ?_⟩
  · decide
  · decide
  · decide
  · unfold Finished.Complete
    decide

end LogBench.Session
