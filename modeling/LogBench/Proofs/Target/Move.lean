import LogBench.Target

/-! What one tick can do to a target, said once: each later invariant is a case analysis over the
moves and opens neither the step nor the execution. -/
namespace LogBench.Target
open Link

abbrev Continues (t : Target) : Prop := t.request.command.starts = false

/-- A read that is refused outright, since it asks for more entries than there are. -/
def Reading.Refused (r : Reading) (t : Target) : Prop :=
  r.started = false ∧ r.mode = .exactly ∧ t.queue.occupancy.entries < r.shape.count

def Reading.afterChunk (r : Reading) : Reading :=
  { r with started := true, offset := r.offset + 4 }

def Reading.afterElement (r : Reading) : Phase :=
  if 1 < r.left then .executing (.read { r with started := true, left := r.left - 1, offset := 0 })
  else .waiting

/-- The phases that a tick may enter with neither a byte taken nor a byte answered. -/
inductive Enters (t : Target) : Phase → Prop
  | sleep : t.phase = .idle → t.Continues → Enters t .idle
  | start : (∀ ending, t.phase ≠ .ended ending) → t.request.command.starts = true →
      Enters t .waiting
  | acknowledge {ending : Ending} : t.phase = .ended ending → t.request.command = .idle →
      Enters t .idle
  | hold {ending : Ending} : t.phase = .ended ending → t.request.command ≠ .idle →
      Enters t (.ended ending)
  | skip : t.phase = .waiting → t.Continues → t.request.command.carriesBytes = false →
      Enters t .waiting
  | await {needed available : Nat} : t.phase = .waiting → t.request.command = .data →
      Script.frontOperation t.request.bytes = .error (.truncated needed available) →
      Enters t .waiting
  | close {needed : Nat} : t.phase = .waiting → t.request.command = .dataLast →
      Script.frontOperation t.request.bytes = .error (.truncated needed 0) →
      Enters t (.ended .completed)
  | cut {needed available : Nat} : t.phase = .waiting → t.request.command = .dataLast →
      Script.frontOperation t.request.bytes = .error (.truncated needed available) →
      available ≠ 0 → Enters t (.ended .errored)
  | reject {opcode : UInt8} : t.phase = .waiting → t.request.command.carriesBytes = true →
      Script.frontOperation t.request.bytes = .error (.undefined opcode) →
      Enters t (.ended .errored)
  | refuse {r : Reading} : t.phase = .executing (.read r) → t.Continues → r.Refused t →
      Enters t (.ended .pollFailed)
  | runDry {r : Reading} : t.phase = .executing (.read r) → t.Continues → ¬ r.Refused t →
      t.queue.peek? = none → Enters t (.ended .completed)

inductive Move (t : Target) : Target → Prop
  | enter {phase : Phase} : Enters t phase → Move t (t.enter phase)
  | decode {op : Script.Operation} : t.phase = .waiting → t.request.command.carriesBytes = true →
      Script.frontOperation t.request.bytes = .ok op →
      Move t { t with
        phase := .executing (.ofOperation op)
        response := { kind := .running, consumed := op.size } }
  | report : t.phase = .executing .status → t.Continues →
      Move t { t with
        phase := .waiting
        response := { kind := .running, valid := 4, data := t.queue.occupancy.word } }
  | chunk {r : Reading} {e : Entry 4} : t.phase = .executing (.read r) → t.Continues →
      ¬ r.Refused t → t.queue.peek? = some e → r.offset + 4 < r.shape.bytes →
      Move t { t with
        phase := .executing (.read r.afterChunk)
        response := { kind := .running, valid := 4, data := payloadWord e r.offset 4 } }
  | element {r : Reading} {e : Entry 4} : t.phase = .executing (.read r) → t.Continues →
      ¬ r.Refused t → t.queue.peek? = some e → r.shape.bytes ≤ r.offset + 4 →
      Move t { t with
        queue := t.queue.pop.2
        phase := r.afterElement
        response :=
          { kind := .running
            valid := r.shape.bytes - r.offset
            data := payloadWord e r.offset (r.shape.bytes - r.offset) } }

private theorem accept_move {t : Target} (hp : t.phase = .waiting) (hc : t.Continues) :
    Move t t.accept := by
  unfold accept
  cases hb : t.request.command.carriesBytes with
  | false => exact .enter (.skip hp hc hb)
  | true =>
    simp only [if_true]
    cases hf : Script.frontOperation t.request.bytes with
    | ok op => exact .decode hp hb hf
    | error cause =>
      cases cause with
      | undefined opcode => exact .enter (.reject hp hb hf)
      | truncated needed available =>
        by_cases hl : t.request.command = .dataLast
        · by_cases ha : available = 0
          · subst ha
            simpa [hl] using Move.enter (.close hp hl hf)
          · simpa [hl, ha] using Move.enter (.cut hp hl hf ha)
        · have hd : t.request.command = .data := by
            cases h : t.request.command <;> simp_all [Command.carriesBytes]
          simpa [hl] using Move.enter (.await hp hd hf)

private theorem answer_move {t : Target} {r : Reading} {e : Entry 4}
    (hp : t.phase = .executing (.read r)) (hc : t.Continues) (hr : ¬ r.Refused t)
    (he : t.queue.peek? = some e) : Move t (t.answer r e) := by
  by_cases hm : r.offset + 4 < r.shape.bytes
  · have hn : min responseBytes (r.shape.bytes - r.offset) = 4 := by
      unfold responseBytes
      omega
    have ha : t.answer r e = { t with
        phase := .executing (.read r.afterChunk)
        response := { kind := .running, valid := 4, data := payloadWord e r.offset 4 } } := by
      simp only [answer, hn, Reading.afterChunk]
      rw [if_pos hm]
    rw [ha]
    exact .chunk hp hc hr he hm
  · have hn : min responseBytes (r.shape.bytes - r.offset) = r.shape.bytes - r.offset := by
      unfold responseBytes
      omega
    have ha : t.answer r e = { t with
        queue := t.queue.pop.2
        phase := r.afterElement
        response :=
          { kind := .running
            valid := r.shape.bytes - r.offset
            data := payloadWord e r.offset (r.shape.bytes - r.offset) } } := by
      simp only [answer, hn, Reading.afterElement]
      rw [if_neg (by omega)]
      split <;> rfl
    rw [ha]
    exact .element hp hc hr he (Nat.not_lt.mp hm)

private theorem read_move {t : Target} {r : Reading} (hp : t.phase = .executing (.read r))
    (hc : t.Continues) : Move t (t.execute (.read r)) := by
  simp only [execute]
  by_cases hr : r.started = false ∧ r.mode = .exactly ∧ t.queue.occupancy.entries < r.shape.count
  · rw [if_pos hr]
    exact .enter (.refuse hp hc hr)
  · rw [if_neg hr]
    cases he : t.queue.peek? with
    | none => exact .enter (.runDry hp hc hr he)
    | some e => exact answer_move hp hc hr he

/-- A start command restarts whatever has not ended. -/
theorem step_of_starts {t : Target} (hs : t.request.command.starts = true)
    (he : ∀ ending, t.phase ≠ .ended ending) : t.step = t.enter .waiting := by
  cases hp : t.phase with
  | ended ending => exact absurd hp (he ending)
  | _ => simp only [step, hp, hs, if_true]

/-- An idle command lets go of an ending, and any other command holds it. -/
private theorem ended_move {t : Target} {ending : Ending} (hp : t.phase = .ended ending) :
    Move t t.step := by
  by_cases hi : t.request.command = .idle
  · have hstep : t.step = t.enter .idle := by simp only [step, hp, hi, if_true]
    rw [hstep]
    exact .enter (.acknowledge hp hi)
  · have hstep : t.step = t.enter (.ended ending) := by simp only [step, hp, hi, if_false]
    rw [hstep]
    exact .enter (.hold hp hi)

/-- Every tick is one of the moves. -/
theorem step_move (t : Target) : Move t t.step := by
  by_cases he : ∃ ending, t.phase = .ended ending
  · obtain ⟨ending, hp⟩ := he
    exact ended_move hp
  · have he' : ∀ ending, t.phase ≠ .ended ending := not_exists.mp he
    cases hs : t.request.command.starts with
    | true =>
      rw [step_of_starts hs he']
      exact .enter (.start he' hs)
    | false =>
      unfold step
      cases hp : t.phase with
      | ended ending => exact absurd hp (he' ending)
      | idle =>
        simp only [hs, Bool.false_eq_true, if_false]
        exact .enter (.sleep hp hs)
      | waiting =>
        simp only [hs, Bool.false_eq_true, if_false]
        exact accept_move hp hs
      | executing x =>
        simp only [hs, Bool.false_eq_true, if_false]
        cases x with
        | status => exact .report hp hs
        | read r => exact read_move hp hs

/-- The phases that are entered without a word do not execute. -/
theorem Enters.not_executing {t : Target} {x : Execution} : ¬ Enters t (.executing x) := by
  rintro ⟨⟩

theorem Move.kind_ne_idle {t t' : Target} (hm : Move t t') (hi : t.phase ≠ .idle)
    (he : ∀ ending, t.phase ≠ .ended ending) : t'.response.kind ≠ .idle := by
  cases hm with
  | enter h =>
    cases h with
    | sleep hp => exact absurd hp hi
    | acknowledge hp => exact absurd hp (he _)
    | hold hp => exact absurd hp (he _)
    | _ => exact Kind.noConfusion
  | _ => exact Kind.noConfusion

theorem ne_ended_of_idle {t : Target} (h : t.phase = .idle) (ending : Ending) :
    t.phase ≠ .ended ending := by
  rw [h]
  exact Phase.noConfusion

end LogBench.Target
