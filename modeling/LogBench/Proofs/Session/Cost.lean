import LogBench.Proofs.Session.Framing
import LogBench.Proofs.Session.Termination
import LogBench.Proofs.Target.Registers

/-! What a session costs: data requests, which the budget bounds, and the idle pulses between them,
which the policy bounds as long as the device takes no byte from an idle pulse. -/
namespace LogBench.Session
open Link Target

section Device

variable {σ : Type u} [Device σ]

/-- The device takes no script byte from an idle pulse, whatever it was sent before. -/
def Abstains (device : σ) : Prop :=
  ∀ (earlier : List Request) (request : Request), request.command = .idle →
    (Device.response (clocked device (earlier ++ [request]))).consumed = 0

def dataRequests (sent : List Request) : Nat :=
  sent.countP fun request => request.command.carriesBytes

def idlePulses (sent : List Request) : Nat :=
  sent.countP fun request => request.command = .idle

/-- What a session cost, with the requests in the middle as its body. -/
structure Costs (settings : Settings) (policy : IdlePolicy) (f : Finished σ)
    (body : List Request) : Prop where
  framed : requests f.exchanges = { command := .startClear } :: {} :: (body ++ [({} : Request)])
  paid : dataRequests body ≤ settings.budget
  ticks : f.outcome.ticks = 3 + dataRequests body + idlePulses body
  /-- A bound on the answers that the policy was asked for. -/
  idles : ∀ bound, (∀ n < f.questions, policy n ≤ bound) →
    idlePulses body ≤ (dataRequests body + 1) * bound

/-- The session comes to an end: it is refused by a device that is not idle, and from some amount of
fuel on it runs to its last turn, at its cost, with one that is. -/
inductive Ends (device : σ) (settings : Settings) (script : List UInt8) (policy : IdlePolicy) : Prop
  | refused (h : (Device.response device).kind ≠ .idle)
      (hrun : ∀ fuel, run device settings script policy fuel =
        .error { observed := (Device.response device).kind, device })
  | finished (h : (Device.response device).kind = .idle) {f : Finished σ} {body : List Request}
      {bound : Nat} (hrun : ∀ fuel, bound ≤ fuel →
        run device settings script policy fuel = .ok (some f)) (hcosts : Costs settings policy f body)

variable {device : σ} {settings : Settings} {policy : IdlePolicy} {script : List UInt8}
  {s t : State σ}

private theorem consumed_pulse (ha : Abstains device)
    (hl : Logged device s.exchanges s.device) {request : Request} (hr : request.command = .idle) :
    (Device.response ((s.heard policy).pulse request).device).consumed = 0 := by
  have h := ha (requests s.exchanges) request hr
  rw [clocked_append, ← hl.clocked] at h
  rw [s.device_pulse_heard policy request]
  exact h

/-- How far the policy pays for the idle pulses so far and those to come, and for those so far alone
if a byte was taken by the last request. The one more is the pulse before the first turn. -/
def Rationed (policy : IdlePolicy) (s : State σ) : Prop :=
  ∀ bound, (∀ n < s.questions, policy n ≤ bound) →
    idlePulses (requests s.exchanges) + s.idles ≤ (dataCount s.exchanges + 1) * bound + 1 ∧
    ((Device.response s.device).consumed ≠ 0 →
      idlePulses (requests s.exchanges) ≤ dataCount s.exchanges * bound + 1)

private theorem rationed_start (ha : Abstains device) :
    Rationed policy (.start device settings script policy) := by
  intro bound hbound
  have hfirst : policy 0 ≤ bound := hbound 0 Nat.one_pos
  have hcount : dataCount (State.start device settings script policy).exchanges = 0 := rfl
  have hidle : idlePulses (requests (State.start device settings script policy).exchanges) = 1 :=
    rfl
  constructor
  · change _ + policy 0 ≤ _
    rw [hcount, hidle]
    omega
  · intro hc
    exact absurd (ha [{ command := .startClear }] {} rfl) hc

private theorem idlePulses_push (exchanges : Array (Request × Response)) (x : Request × Response) :
    idlePulses (requests (exchanges.push x)) =
      idlePulses (requests exchanges) + if x.1.command = .idle then 1 else 0 := by
  rw [requests_push]
  simp only [idlePulses, List.countP_append, List.countP_singleton, decide_eq_true_eq]

/-- The last answer of the policy pays for the pulses to come after a byte was taken; else they are
paid for before. -/
private theorem Rationed.heard (h : Rationed policy s) {bound : Nat}
    (hbound : ∀ n < (s.heard policy).questions, policy n ≤ bound) :
    idlePulses (requests s.exchanges) + (s.heard policy).idles ≤
      (dataCount s.exchanges + 1) * bound + 1 := by
  rw [s.questions_heard policy] at hbound
  obtain ⟨hsum, hfresh⟩ := h bound fun n hn => hbound n (by omega)
  by_cases hc : (Device.response s.device).consumed = 0
  · rw [s.idles_heard_of_unconsumed policy hc]
    exact hsum
  · have hle := hfresh hc
    have hlast := hbound (s.questions + ((Device.response s.device).consumed - 1)) (by omega)
    rw [s.idles_heard_of_consumed policy hc, Nat.succ_mul]
    omega

private theorem Rationed.next (ha : Abstains device) (hl : Logged device s.exchanges s.device)
    (h : Rationed policy s) (ht : Turns settings policy s (.next t)) : Rationed policy t := by
  have hx := s.exchanges_heard policy
  intro bound hbound
  cases ht with
  | data _ _ hi =>
    have hsum := h.heard hbound
    have hcount : dataCount (s.heard policy).sendData.exchanges = dataCount s.exchanges + 1 := by
      rw [← hx]
      exact (dataCount_push ..).trans (congrArg _ (if_pos (carriesBytes_dataRequest _)))
    have hidle : idlePulses (requests (s.heard policy).sendData.exchanges) =
        idlePulses (requests s.exchanges) := by
      have hne : (dataRequest (s.heard policy).pending).command ≠ .idle := by
        intro h0
        have hc := carriesBytes_dataRequest (s.heard policy).pending
        rw [h0] at hc
        cases hc
      rw [← hx]
      exact (idlePulses_push ..).trans (congrArg _ (if_neg hne))
    have hnone : (s.heard policy).sendData.idles = 0 := hi
    rw [hcount, hidle, hnone, Nat.succ_mul (dataCount s.exchanges + 1)]
    exact ⟨by omega, fun _ => by omega⟩
  | idle _ _ hi =>
    have hsum := h.heard hbound
    have hcount : dataCount ((s.heard policy).sendIdle settings).exchanges =
        dataCount s.exchanges := by
      rw [← hx]
      exact dataCount_push ..
    have hidle : idlePulses (requests ((s.heard policy).sendIdle settings).exchanges) =
        idlePulses (requests s.exchanges) + 1 := by
      rw [← hx]
      exact idlePulses_push ..
    have hless : ((s.heard policy).sendIdle settings).idles = (s.heard policy).idles - 1 := rfl
    rw [hcount, hidle, hless]
    refine ⟨by omega, fun hc => absurd ?_ hc⟩
    exact consumed_pulse ha hl rfl

private theorem Rationed.last (h : Rationed policy s) (ht : Turns settings policy s (.last t)) :
    Rationed policy t := by
  cases ht with
  | spent => exact h
  | ended =>
    rw [State.collect_eq]
    exact h

/-- What is sent between the data requests are idle pulses. -/
private theorem length_of_paced {seen : List Response} {body : List Request}
    (h : Paced settings script policy seen body) :
    body.length = dataRequests body + idlePulses body := by
  have hother : ∀ request ∈ body,
      ¬ request.command.carriesBytes = true ↔ decide (request.command = .idle) = true := by
    intro request hmem
    obtain ⟨j, hj, rfl⟩ := List.getElem_of_mem hmem
    have hsent := h.2 j hj
    generalize body[j] = request at hsent
    cases hsent with
    | idle => exact iff_of_true Bool.false_ne_true rfl
    | data _ hshows =>
      rw [hshows.command]
      split
      · exact iff_of_false (absurd rfl) Bool.false_ne_true
      · exact iff_of_false (absurd rfl) Bool.false_ne_true
  rw [List.length_eq_countP_add_countP fun request : Request => request.command.carriesBytes]
  refine congrArg _ (List.countP_congr fun request hmem => ?_)
  rw [decide_eq_true_eq]
  exact hother request hmem

private theorem costs_of_loop (ha : Abstains device) {fuel : Nat}
    (hl : loop settings policy fuel (.start device settings script policy) = some s) :
    ∃ body, Costs settings policy s.finish body := by
  have hclosing : Closing device settings script policy s :=
    loop_keeps (fun _ _ => Framing.next) (fun _ _ => Framing.last)
      (framing_start device settings script policy) hl
  have hrationed : Rationed policy s :=
    loop_keeps (P := fun u => Underway device settings u ∧ Rationed policy u)
      (fun _ _ h ht => ⟨h.1.next ht, h.2.next ha h.1.logged ht⟩) (fun _ _ h ht => h.2.last ht)
      ⟨underway_start device settings script policy, rationed_start ha⟩ hl
  obtain ⟨body, hframed⟩ := hclosing.framed
  have hrequests : requests s.exchanges = { command := .startClear } :: {} :: body := by
    have h := hframed.framed
    rw [requests_finish] at h
    exact List.append_cancel_right h
  have hcount : dataCount s.exchanges = dataRequests body := by
    rw [dataCount_eq, hrequests]
    rfl
  refine ⟨body, hframed.framed, hframed.paid, ?_, ?_⟩
  · rw [hframed.ticks, hframed.framed, List.length_cons, List.length_cons, List.length_append,
      length_of_paced hframed.paced]
    change _ + 1 + 1 + 1 = _
    omega
  · intro bound hbound
    obtain ⟨hsum, -⟩ := hrationed bound hbound
    have hidle : idlePulses (requests s.exchanges) = idlePulses body + 1 := by
      rw [hrequests]
      exact (List.countP_cons_of_neg Bool.false_ne_true).trans (List.countP_cons_of_pos rfl)
    rw [hcount, hidle] at hsum
    omega

private theorem ends_of_abstains (ha : Abstains device) (settings : Settings) (script : List UInt8)
    (policy : IdlePolicy) : Ends device settings script policy := by
  by_cases hk : (Device.response device).kind = .idle
  · obtain ⟨bound, s, hl⟩ := exists_loop settings policy (P := Underway device settings)
      (fun _ _ => Underway.next) (fun _ h => consumed_pulse ha h.logged rfl)
      (underway_start device settings script policy)
    obtain ⟨body, hcosts⟩ := costs_of_loop ha hl
    exact .finished hk (fun fuel hle => run_of_loop hk (loop_of_le hl hle)) hcosts
  · exact .refused hk (run_of_not_idle hk settings script policy)

end Device

private theorem abstains (t : Target) : Abstains t := by
  intro earlier request hr
  rw [clocked_append]
  exact consumed_of_idle _ hr

/-- For every device that takes no byte from an idle pulse, and so for every target, whether it can
be reached or not; for every script and budget, and every policy, also one that always asks for
idle pulses. -/
theorem session_ends_at_cost (settings : Settings) (script : List UInt8) (policy : IdlePolicy) :
    (∀ (σ : Type u) [Device σ] (device : σ), Abstains device →
      Ends device settings script policy) ∧
    ∀ t : Target, Abstains t ∧ Ends t settings script policy := by
  constructor
  · intro σ _ device ha
    exact ends_of_abstains ha settings script policy
  · intro t
    exact ⟨abstains t, ends_of_abstains (abstains t) settings script policy⟩

/-- A policy that asks for two idle pulses each time. -/
theorem session_ends_at_cost_lone :
    Abstains lone ∧ lone.response.kind = .idle ∧
      Ends lone { budget := 2 } [0x43, 0, 0] (fun _ => 2) := by
  obtain ⟨hdevice, htarget⟩ := session_ends_at_cost.{0} { budget := 2 } [0x43, 0, 0] fun _ => 2
  have ha := (htarget lone).1
  exact ⟨ha, rfl, hdevice Target lone ha⟩

end LogBench.Session
