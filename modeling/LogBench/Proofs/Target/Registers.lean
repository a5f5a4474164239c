import LogBench.Proofs.Script.Elements
import LogBench.Proofs.Target.Reachable
import Mathlib.Data.List.Chain

/-! The response register of a target in any run, whatever is offered and driven between the ticks:
what a response can say of the request that was sampled for it, and of the response before. -/
namespace LogBench.Target
open Link Script

/-- The request that an action samples, and the response that it leaves; only a tick has them. -/
def exchangeBy (t : Target) : Action → List (Request × Response)
  | .tick => [(t.request, (Device.tick t).response)]
  | _ => []

def exchanges (t : Target) : List Action → List (Request × Response)
  | [] => []
  | a :: later => t.exchangeBy a ++ (t.act a).exchanges later

structure Lawful (request : Request) (r : Response) : Prop where
  sizes : r.consumed = 0 ∨ r.consumed = 1 ∨ r.consumed = 3
  /-- Bytes are only taken off a data request, and then they are all of the operation at its front. -/
  taken : r.consumed ≠ 0 → r.kind = .running ∧ request.command.carriesBytes = true ∧
    ∃ op rest, request.bytes = Operation.encode op ++ rest ∧ r.consumed = op.encode.length
  valid_le : r.valid ≤ responseBytes
  answered : r.valid ≠ 0 → r.kind = .running ∧ r.consumed = 0
  masked : r.data.toNat < 256 ^ r.valid

/-- How a response succeeds another one, where the request was sampled between them. -/
structure Succeeds (r : Response) (request : Request) (r' : Response) : Prop where
  /-- No two ticks in a row take bytes. -/
  apart : r.consumed = 0 ∨ r'.consumed = 0
  idle : r.kind = .idle → r'.kind = .idle ∨ r'.kind = .running
  running : r.kind = .running → r'.kind = .running ∨ r'.kind.isEnding = true
  ending : r.kind.isEnding = true → r'.kind = r.kind ∨ r'.kind = .idle
  acknowledged : r.kind.isEnding = true → (r'.kind = .idle ↔ request.command = .idle)

/-- The registers of a target after the exchanges of a run, the initial registers first. -/
structure Regular (t : Target) (log : List (Request × Response)) : Prop where
  reported : t.response.kind = t.phase.kind
  current : ∃ earlier request, log = earlier ++ [(request, t.response)]
  lawful : ∀ x ∈ log, Lawful x.1 x.2
  chained : log.IsChain fun x y => Succeeds x.2 y.1 y.2
  /-- An operation is executed from the tick on after the one that took it. -/
  executes : t.response.consumed ≠ 0 → ∃ x, t.phase = .executing x

private theorem lawful_enter (t : Target) (request : Request) (phase : Phase) :
    Lawful request (t.enter phase).response where
  sizes := .inl rfl
  taken h := absurd rfl h
  valid_le := Nat.zero_le _
  answered h := absurd rfl h
  masked := Nat.one_pos

/-- A word is answered with no byte taken. -/
private theorem lawful_word (request : Request) {valid : Nat} {data : UInt32}
    (hle : valid ≤ responseBytes) (hlt : data.toNat < 256 ^ valid) :
    Lawful request { kind := .running, valid, data } where
  sizes := .inl rfl
  taken h := absurd rfl h
  valid_le := hle
  answered _ := ⟨rfl, rfl⟩
  masked := hlt

private theorem Move.lawful {t t' : Target} (hm : Move t t') : Lawful t.request t'.response := by
  cases hm with
  | enter => exact lawful_enter ..
  | @decode op _ hb hf =>
    obtain ⟨rest, hrest⟩ := exists_append_of_frontOperation hf
    refine ⟨?_, fun _ => ⟨rfl, hb, op, rest, hrest, op.length_encode.symm⟩, Nat.zero_le _,
      fun h => absurd rfl h, Nat.one_pos⟩
    cases op with
    | status => exact .inr (.inl rfl)
    | read => exact .inr (.inr rfl)
  | report => exact lawful_word _ (Nat.le_refl 4) (UInt32.toNat_lt _)
  | chunk => exact lawful_word _ (Nat.le_refl 4) (payloadWord_lt _ _ (Nat.le_refl 4))
  | @element r _ _ _ _ _ hle =>
    have hn : r.shape.bytes - r.offset ≤ 4 := by omega
    exact lawful_word _ hn (payloadWord_lt _ _ hn)

/-- A target takes no byte from an idle pulse, in whatever state it is. -/
theorem consumed_of_idle (t : Target) {request : Request} (hr : request.command = .idle) :
    (Device.tick (Device.drive t request)).response.consumed = 0 := by
  have hl := (step_move (Device.drive t request)).lawful
  by_contra hc
  have hb : request.command.carriesBytes = true := (hl.taken hc).2.1
  rw [hr] at hb
  exact Bool.false_ne_true hb

/-- Bytes are only taken by a target that waits for them, and it executes what it took. -/
theorem Move.of_consumed {t t' : Target} (hm : Move t t') (h : t'.response.consumed ≠ 0) :
    t.phase = .waiting ∧ ∃ op, frontOperation t.request.bytes = .ok op ∧
      t'.phase = .executing (.ofOperation op) := by
  cases hm with
  | decode hp _ hf => exact ⟨hp, _, hf, rfl⟩
  | _ => exact absurd rfl h

private theorem Move.kind_of_idle {t t' : Target} (hm : Move t t') (hp : t.phase = .idle) :
    t'.response.kind = .idle ∨ t'.response.kind = .running := by
  cases hm with
  | enter he =>
    cases he with
    | sleep => exact .inl rfl
    | start => exact .inr rfl
    | acknowledge h | hold h | skip h | await h | close h | cut h | reject h | refuse h | runDry h =>
      cases hp.symm.trans h
  | decode h | report h | chunk h | element h => cases hp.symm.trans h

private theorem Move.kind_of_ended {t t' : Target} (hm : Move t t') {ending : Ending}
    (hp : t.phase = .ended ending) :
    t'.response.kind = if t.request.command = .idle then .idle else ending.kind := by
  cases hm with
  | enter he =>
    cases he with
    | start h => exact absurd hp (h ending)
    | acknowledge _ hc => exact (if_pos hc).symm
    | hold h hc =>
      cases hp.symm.trans h
      exact (if_neg hc).symm
    | sleep h | skip h | await h | close h | cut h | reject h | refuse h | runDry h =>
      cases hp.symm.trans h
  | decode h | report h | chunk h | element h => cases hp.symm.trans h

private theorem ending_kind_ne_idle (ending : Ending) : ending.kind ≠ .idle := by
  cases ending <;> exact Kind.noConfusion

private theorem isEnding_of_ne {kind : Kind} (hi : kind ≠ .idle) (hr : kind ≠ .running) :
    kind.isEnding = true := by
  cases kind with
  | idle => exact absurd rfl hi
  | running => exact absurd rfl hr
  | _ => rfl

/-- Where a target reports an ending it holds one. -/
private theorem Sound.phase_of_isEnding {t : Target} (h : t.Sound)
    (hk : t.response.kind.isEnding = true) : ∃ ending, t.phase = .ended ending := by
  rw [h.reported] at hk
  cases hp : t.phase with
  | ended ending => exact ⟨ending, rfl⟩
  | _ =>
    rw [hp] at hk
    cases hk

private theorem Sound.succeeds {t t' : Target} (h : t.Sound)
    (hx : t.response.consumed ≠ 0 → ∃ x, t.phase = .executing x) (hm : Move t t') :
    Succeeds t.response t.request t'.response where
  apart := by
    by_cases h0 : t'.response.consumed = 0
    · exact .inr h0
    · refine .inl (not_not.mp fun h1 => ?_)
      obtain ⟨x, hp⟩ := hx h1
      cases hp.symm.trans (hm.of_consumed h0).1
  idle hk := hm.kind_of_idle (h.phase_eq_idle hk)
  running hk := by
    have hne : t'.response.kind ≠ .idle := by
      rcases phase_of_running h hk with hp | ⟨x, hp⟩
      · exact hm.kind_ne_idle (by simp [hp]) (by simp [hp])
      · exact hm.kind_ne_idle (by simp [hp]) (by simp [hp])
    by_cases hr : t'.response.kind = .running
    · exact .inl hr
    · exact .inr (isEnding_of_ne hne hr)
  ending hk := by
    obtain ⟨ending, hp⟩ := h.phase_of_isEnding hk
    rw [hm.kind_of_ended hp, h.reported, hp]
    split
    · exact .inr rfl
    · exact .inl rfl
  acknowledged hk := by
    obtain ⟨ending, hp⟩ := h.phase_of_isEnding hk
    rw [hm.kind_of_ended hp]
    by_cases hc : t.request.command = .idle
    · rw [if_pos hc]
      exact iff_of_true rfl hc
    · rw [if_neg hc]
      exact iff_of_false (ending_kind_ne_idle ending) hc

theorem exchangeBy_of_ne_tick {t : Target} {a : Action} (ha : a ≠ .tick) : t.exchangeBy a = [] := by
  cases a with
  | tick => exact absurd rfl ha
  | _ => rfl

/-- Only a tick changes what a target reports and what it does. -/
theorem act_of_ne_tick {t : Target} {a : Action} (ha : a ≠ .tick) :
    (t.act a).response = t.response ∧ (t.act a).phase = t.phase := by
  cases a with
  | tick => exact absurd rfl ha
  | _ => exact ⟨rfl, rfl⟩

theorem items_act_of_ne_tick {t : Target} {a : Action} (ha : a ≠ .tick) :
    t.queue.items <+: (t.act a).queue.items := by
  cases a with
  | tick => exact absurd rfl ha
  | offer e => exact t.queue.prefix_push e
  | offerRecord r => exact t.queue.prefix_push (r.entry 4)
  | drive request => exact List.prefix_refl _

variable {t : Target} {log : List (Request × Response)}

private theorem Regular.tick (hr : Regular t log) (h : t.Sound) :
    Regular (Device.tick t) (log ++ [(t.request, (Device.tick t).response)]) := by
  have hm : Move t (Device.tick t) := t.step_move
  obtain ⟨earlier, request, hlog⟩ := hr.current
  refine ⟨h.step.reported, ⟨log, t.request, rfl⟩, fun x hx => ?_, ?_, fun h0 => ?_⟩
  · rcases List.mem_append.mp hx with hx | hx
    · exact hr.lawful x hx
    · cases List.mem_singleton.mp hx
      exact hm.lawful
  · refine hr.chained.append (List.isChain_singleton _) fun x hx y hy => ?_
    rw [hlog, List.getLast?_concat] at hx
    cases hx
    cases hy
    exact h.succeeds hr.executes hm
  · obtain ⟨-, op, -, hp⟩ := hm.of_consumed h0
    exact ⟨_, hp⟩

private theorem Regular.act (hr : Regular t log) (h : t.Sound) (a : Action) :
    Regular (t.act a) (log ++ t.exchangeBy a) := by
  by_cases ha : a = .tick
  · rw [ha]
    exact hr.tick h
  · obtain ⟨hresponse, hphase⟩ := act_of_ne_tick (t := t) ha
    rw [exchangeBy_of_ne_tick ha, List.append_nil]
    refine ⟨?_, ?_, hr.lawful, hr.chained, ?_⟩
    · rw [hresponse, hphase]
      exact hr.reported
    · rw [hresponse]
      exact hr.current
    · rw [hresponse, hphase]
      exact hr.executes

private theorem Regular.foldl (hr : Regular t log) (h : t.Sound) (actions : List Action) :
    Regular (List.foldl Target.act t actions) (log ++ t.exchanges actions) := by
  induction actions generalizing t log with
  | nil =>
    rw [exchanges, List.append_nil]
    exact hr
  | cons a later ih =>
    rw [exchanges, ← List.append_assoc]
    exact ih (hr.act h a) (h.act a)

private theorem regular_vacant (capacity : Nat) : Regular (vacant capacity) [({}, {})] where
  reported := rfl
  current := ⟨[], {}, rfl⟩
  lawful x hx := by
    cases List.mem_singleton.mp hx
    exact lawful_enter (vacant capacity) {} .idle
  chained := List.isChain_singleton _
  executes h := absurd rfl h

/-- Holds after every sequence of offers, requests and ticks, with any requests. -/
theorem registers_regular (capacity : Nat) (actions : List Action) :
    Regular (actions.foldl act (vacant capacity))
      (({}, {}) :: (vacant capacity).exchanges actions) :=
  (regular_vacant capacity).foldl (sound_vacant capacity) actions

end LogBench.Target
