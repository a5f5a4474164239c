import LogBench.Session.State

/-!
Sessions run to their end. Each turn of the controller ends in one tick. A data request costs one
unit of the budget, and an idle pulse costs nothing.
-/
namespace LogBench.Session
open Link

inductive Turn (σ : Type u) where
  | next (s : State σ)
  | last (s : State σ)

variable {σ : Type u} [Device σ]

/-- One turn: reads the response, and sends the next idle pulse or data request. There is no next
turn once the budget is spent or the target reports anything but that it is running. -/
def turn (settings : Settings) (policy : IdlePolicy) (s : State σ) : Turn σ :=
  if s.budget = 0 then .last s
  else
    let response := Device.response s.device
    let s := s.collect response
    if response.kind = .running then
      let s := s.consume policy response.consumed
      if s.idles = 0 then .next { s.pulse (dataRequest s.pending) with budget := s.budget - 1 }
      else .next { s.pulse (idleRequest settings s.idles) with idles := s.idles - 1 }
    else .last s

/-- The state after the last turn, if there are fewer than `fuel` turns before it. -/
def loop (settings : Settings) (policy : IdlePolicy) : Nat → State σ → Option (State σ)
  | 0, _ => none
  | fuel + 1, s =>
    match turn settings policy s with
    | .next s => loop settings policy fuel s
    | .last s => some s

/-- More fuel keeps the answer of a loop that has ended. -/
theorem loop_of_le {settings : Settings} {policy : IdlePolicy} {fuel more : Nat} {s t : State σ}
    (h : loop settings policy fuel s = some t) (hle : fuel ≤ more) :
    loop settings policy more s = some t := by
  induction fuel generalizing s more with
  | zero => simp [loop] at h
  | succ fuel ih =>
    obtain ⟨more, rfl⟩ : ∃ m, more = m + 1 := ⟨more - 1, by omega⟩
    rw [loop] at h ⊢
    cases ht : turn settings policy s with
    | last u => simpa [ht] using h
    | next u =>
      rw [ht] at h
      exact ih h (by omega)

/-- The outcome of a session that ran, and what it leaves: the device, the number of questions asked
of the policy, and the exchanges. -/
structure Finished (σ : Type u) where
  outcome : Outcome
  device : σ
  questions : Nat
  exchanges : Array (Request × Response)

/-- Maps the last report to a completion, and lets an idle pulse acknowledge it. -/
def State.finish (s : State σ) : Finished σ :=
  let completion := Completion.ofKind (Device.response s.device).kind
  let s := s.pulse {}
  { outcome := ⟨completion, s.words.toList, s.ticks⟩
    device := s.device
    questions := s.questions
    exchanges := s.exchanges }

/-- A session under an idle policy; `none` if it takes `fuel` turns or more. A device that is not
idle is sent nothing. -/
def run (device : σ) (settings : Settings) (script : List UInt8) (policy : IdlePolicy)
    (fuel : Nat) : Except (Refused σ) (Option (Finished σ)) :=
  let observed := (Device.response device).kind
  if observed = .idle then
    .ok ((loop settings policy fuel (.start device settings script policy)).map State.finish)
  else .error { observed, device }

/-- Without idle pulses every turn but the last costs a unit of the budget. -/
theorem isSome_loop_noIdles (settings : Settings) (s : State σ) (h : s.idles = 0) (fuel : Nat)
    (hf : s.budget < fuel) : (loop settings noIdles fuel s).isSome := by
  induction fuel generalizing s with
  | zero => omega
  | succ fuel ih =>
    rw [loop]
    cases ht : turn settings noIdles s with
    | last t => rfl
    | next t =>
      have hi := State.idles_consume_noIdles (s.collect (Device.response s.device))
        (by rw [State.idles_collect, h]) (Device.response s.device).consumed
      have hb : s.budget ≠ 0 := fun h0 => by simp [turn, h0] at ht
      have hr : (Device.response s.device).kind = .running := by
        by_cases hr : (Device.response s.device).kind = .running
        · exact hr
        · simp [turn, hb, hr] at ht
      simp only [turn, hb, hr, hi, if_false, if_true, Turn.next.injEq] at ht
      subst ht
      apply ih
      · exact hi
      · simp only [State.budget_consume, State.budget_collect]
        omega

/-- A session without idle pulses; its budget bounds the number of turns. -/
def invoke (device : σ) (settings : Settings) (script : List UInt8) :
    Except (Refused σ) (Finished σ) :=
  let observed := (Device.response device).kind
  if observed = .idle then
    let s := State.start device settings script noIdles
    .ok ((loop settings noIdles (s.budget + 1) s).get
      (isSome_loop_noIdles settings s rfl _ (Nat.lt_succ_self _))).finish
  else .error { observed, device }

theorem run_noIdles (device : σ) (settings : Settings) (script : List UInt8) :
    run device settings script noIdles (settings.budget + 1) =
      (invoke device settings script).map some := by
  by_cases h : (Device.response device).kind = .idle
  · simp only [run, invoke, h, if_true, Except.map]
    congr 1
    exact (congrArg (Option.map State.finish) (Option.some_get _).symm).trans (Option.map_some ..)
  · simp [run, invoke, h, Except.map]

end LogBench.Session
