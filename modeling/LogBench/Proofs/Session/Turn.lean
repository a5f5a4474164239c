import LogBench.Session.Run

/-! What one turn of a session can do, said once, and how a loop of turns is reasoned about: by a
property of the states that every turn but the last keeps. -/
namespace LogBench.Session
open Link

theorem carriesBytes_dataRequest (pending : List UInt8) :
    (dataRequest pending).command.carriesBytes = true := by
  unfold dataRequest
  split <;> rfl

namespace State

variable {σ : Type u}

/-- Only the script, the idle pulses and the questions change where bytes are dropped. -/
theorem consume_eq (s : State σ) (policy : IdlePolicy) (n : Nat) :
    s.consume policy n = { s with
      pending := s.pending.drop n
      idles := (s.consume policy n).idles
      questions := s.questions + n } := by
  induction n generalizing s with
  | zero => rfl
  | succ n ih =>
    rw [consume, ih]
    simp only [ask, List.drop_tail, Nat.add_right_comm s.questions 1 n, Nat.add_assoc]

theorem words_collect (s : State σ) (r : Response) :
    (s.collect r).words.toList = s.words.toList ++ r.word?.toList := by
  unfold collect
  cases r.word? with
  | none => exact (List.append_nil _).symm
  | some word => exact Array.toList_push

theorem collect_eq (s : State σ) (r : Response) :
    s.collect r = { s with words := (s.collect r).words } := by
  unfold collect
  split <;> rfl

variable [Device σ]

/-- The state once the response is read: its word is collected, and the script bytes that the
target took are dropped. -/
def heard (s : State σ) (policy : IdlePolicy) : State σ :=
  (s.collect (Device.response s.device)).consume policy (Device.response s.device).consumed

def sendData (s : State σ) : State σ :=
  { s.pulse (dataRequest s.pending) with budget := s.budget - 1 }

def sendIdle (s : State σ) (settings : Settings) : State σ :=
  { s.pulse (idleRequest settings s.idles) with idles := s.idles - 1 }

variable (s : State σ) (policy : IdlePolicy)

theorem device_heard : (s.heard policy).device = s.device := by
  rw [heard, consume_eq, collect_eq]

theorem device_pulse_heard (request : Request) :
    ((s.heard policy).pulse request).device = Device.tick (Device.drive s.device request) := by
  rw [← s.device_heard policy]
  rfl

theorem words_heard :
    (s.heard policy).words.toList = s.words.toList ++ (Device.response s.device).word?.toList := by
  rw [heard, consume_eq, words_collect]

theorem ticks_heard : (s.heard policy).ticks = s.ticks := by
  rw [heard, consume_eq, collect_eq]

theorem exchanges_heard : (s.heard policy).exchanges = s.exchanges := by
  rw [heard, consume_eq, collect_eq]

theorem pending_heard :
    (s.heard policy).pending = s.pending.drop (Device.response s.device).consumed := by
  rw [heard, consume_eq, collect_eq]

theorem budget_heard : (s.heard policy).budget = s.budget := by
  rw [heard, budget_consume, budget_collect]

theorem idles_heard_noIdles (h : s.idles = 0) : (s.heard noIdles).idles = 0 :=
  idles_consume_noIdles _ ((idles_collect s _).trans h) _

theorem idles_heard_of_unconsumed (h : (Device.response s.device).consumed = 0) :
    (s.heard policy).idles = s.idles := by
  rw [heard, h]
  exact idles_collect s _

theorem budget_sendData : (s.heard policy).sendData.budget = s.budget - 1 := by
  rw [← s.budget_heard policy]
  rfl

theorem budget_sendIdle (settings : Settings) :
    ((s.heard policy).sendIdle settings).budget = s.budget := by
  rw [← s.budget_heard policy]
  rfl

end State

variable {σ : Type u} [Device σ] {settings : Settings} {policy : IdlePolicy} {s t : State σ}

theorem turn_of_spent (h : s.budget = 0) : turn settings policy s = .last s := by
  simp only [turn, h, if_true]

theorem turn_of_ended (hb : s.budget ≠ 0) (hk : (Device.response s.device).kind ≠ .running) :
    turn settings policy s = .last (s.collect (Device.response s.device)) := by
  simp only [turn, hb, hk, if_false]

theorem turn_of_data (hb : s.budget ≠ 0) (hk : (Device.response s.device).kind = .running)
    (hi : (s.heard policy).idles = 0) :
    turn settings policy s = .next (s.heard policy).sendData := by
  unfold State.heard at hi
  simp only [turn, hb, hk, hi, if_false, if_true]
  rfl

theorem turn_of_idle (hb : s.budget ≠ 0) (hk : (Device.response s.device).kind = .running)
    (hi : (s.heard policy).idles ≠ 0) :
    turn settings policy s = .next ((s.heard policy).sendIdle settings) := by
  unfold State.heard at hi
  simp only [turn, hb, hk, hi, if_false, if_true]
  rfl

inductive Turns (settings : Settings) (policy : IdlePolicy) (s : State σ) : Turn σ → Prop
  | spent : s.budget = 0 → Turns settings policy s (.last s)
  | ended : s.budget ≠ 0 → (Device.response s.device).kind ≠ .running →
      Turns settings policy s (.last (s.collect (Device.response s.device)))
  | data : s.budget ≠ 0 → (Device.response s.device).kind = .running →
      (s.heard policy).idles = 0 → Turns settings policy s (.next (s.heard policy).sendData)
  | idle : s.budget ≠ 0 → (Device.response s.device).kind = .running →
      (s.heard policy).idles ≠ 0 →
      Turns settings policy s (.next ((s.heard policy).sendIdle settings))

theorem turn_turns (settings : Settings) (policy : IdlePolicy) (s : State σ) :
    Turns settings policy s (turn settings policy s) := by
  by_cases hb : s.budget = 0
  · rw [turn_of_spent hb]
    exact .spent hb
  · by_cases hk : (Device.response s.device).kind = .running
    · by_cases hi : (s.heard policy).idles = 0
      · rw [turn_of_data hb hk hi]
        exact .data hb hk hi
      · rw [turn_of_idle hb hk hi]
        exact .idle hb hk hi
    · rw [turn_of_ended hb hk]
      exact .ended hb hk

theorem loop_next {fuel : Nat} (h : turn settings policy s = .next t) :
    loop settings policy (fuel + 1) s = loop settings policy fuel t := by
  rw [loop, h]

theorem loop_last {fuel : Nat} (h : turn settings policy s = .last t) :
    loop settings policy (fuel + 1) s = some t := by
  rw [loop, h]

/-- What every turn but the last keeps, and the last one turns into `Q`, makes `Q` hold where a
loop ends. -/
theorem loop_keeps {P Q : State σ → Prop}
    (next : ∀ s t, P s → Turns settings policy s (.next t) → P t)
    (last : ∀ s t, P s → Turns settings policy s (.last t) → Q t)
    {fuel : Nat} (hs : P s) (h : loop settings policy fuel s = some t) : Q t := by
  induction fuel generalizing s with
  | zero => cases h
  | succ fuel ih =>
    have ht := turn_turns settings policy s
    rw [loop] at h
    cases hu : turn settings policy s with
    | next u =>
      rw [hu] at h ht
      exact ih (next s u hs ht) h
    | last u =>
      rw [hu] at h ht
      cases h
      exact last s t hs ht

/-- A refusal hands the device back as it was. -/
theorem run_of_not_idle {device : σ} (h : (Device.response device).kind ≠ .idle)
    (settings : Settings) (script : List UInt8) (policy : IdlePolicy) (fuel : Nat) :
    run device settings script policy fuel =
      .error { observed := (Device.response device).kind, device } :=
  if_neg h

theorem exists_of_run {device : σ} {script : List UInt8} {fuel : Nat} {f : Finished σ}
    (h : run device settings script policy fuel = .ok (some f)) :
    (Device.response device).kind = .idle ∧ ∃ s,
      loop settings policy fuel (.start device settings script policy) = some s ∧ f = s.finish := by
  by_cases hk : (Device.response device).kind = .idle
  · simp only [run, hk, if_true, Except.ok.injEq, Option.map_eq_some_iff] at h
    obtain ⟨s, hl, hf⟩ := h
    exact ⟨hk, s, hl, hf.symm⟩
  · rw [run_of_not_idle hk] at h
    cases h

/-- All loops from one state that end, end in one state. -/
theorem loop_unique {fuel more : Nat} {u : State σ} (ht : loop settings policy fuel s = some t)
    (hu : loop settings policy more s = some u) : t = u := by
  have ht' := loop_of_le ht (Nat.le_max_left fuel more)
  have hu' := loop_of_le hu (Nat.le_max_right fuel more)
  exact Option.some.inj (ht'.symm.trans hu')

theorem exists_of_invoke {device : σ} {script : List UInt8} {f : Finished σ}
    (h : invoke device settings script = .ok f) :
    (Device.response device).kind = .idle ∧ ∃ fuel s,
      loop settings noIdles fuel (.start device settings script noIdles) = some s ∧
        f = s.finish := by
  have hr := run_noIdles device settings script
  rw [h] at hr
  obtain ⟨hk, s, hl, hf⟩ := exists_of_run hr
  exact ⟨hk, _, s, hl, hf⟩

theorem run_of_loop {device : σ} {script : List UInt8} {fuel : Nat}
    (hk : (Device.response device).kind = .idle)
    (hl : loop settings policy fuel (.start device settings script policy) = some s) :
    run device settings script policy fuel = .ok (some s.finish) := by
  simp only [run, hk, if_true, hl, Option.map_some]

theorem invoke_of_loop {device : σ} {script : List UInt8} {fuel : Nat}
    (hk : (Device.response device).kind = .idle)
    (hl : loop settings noIdles fuel (.start device settings script noIdles) = some s) :
    invoke device settings script = .ok s.finish := by
  simp only [invoke, hk, if_true]
  congr 2
  exact loop_unique (Option.some_get _).symm hl

/-- Without idle pulses a session takes one tick for each unit of the budget. -/
theorem ticks_of_loop_noIdles {fuel : Nat} (h : s.idles = 0)
    (hl : loop settings noIdles fuel s = some t) :
    t.ticks + t.budget = s.ticks + s.budget := by
  refine loop_keeps
    (P := fun u => u.idles = 0 ∧ u.ticks + u.budget = s.ticks + s.budget)
    (Q := fun u => u.ticks + u.budget = s.ticks + s.budget) ?_ ?_ ⟨h, rfl⟩ hl
  · intro u v hu hv
    have hi := u.idles_heard_noIdles hu.1
    cases hv with
    | data hb =>
      refine ⟨hi, ?_⟩
      have hticks : (u.heard noIdles).sendData.ticks = u.ticks + 1 := by
        rw [← u.ticks_heard noIdles]
        rfl
      have hbudget := u.budget_sendData noIdles
      omega
    | idle _ _ h0 => exact absurd hi h0
  · intro u v hu hv
    cases hv with
    | spent => exact hu.2
    | ended =>
      rw [State.collect_eq]
      exact hu.2

end LogBench.Session
