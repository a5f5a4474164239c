import LogBench.Proofs.Script.Elements
import LogBench.Proofs.Target.Reachable
import Mathlib.Data.List.Infix

/-! What a target in the middle of a script is still to answer, how the script will end and which
entries will be left: the meaning of the rest of the script. A tick answers the next part of it. -/
namespace LogBench.Target
open Link Script

def Reading.outlook (r : Reading) (queue : Queue.Bounded (Entry 4)) (bytes : List UInt8) :
    Meaning :=
  if r.started = false ∧ r.mode = .exactly ∧ queue.items.length < r.shape.count then
    ⟨.pollFailed, [], queue⟩
  else
    match takeElements r.shape.bytes r.left queue with
    | (words, queue, true) => ⟨.completed, (words.drop (r.offset / 4)).map some, queue⟩
    | (words, queue, false) => (meaning queue bytes).after ((words.drop (r.offset / 4)).map some)

def Execution.outlook (queue : Queue.Bounded (Entry 4)) (bytes : List UInt8) :
    Execution → Meaning
  | .status => (meaning queue bytes).after [some queue.occupancy.word]
  | .read r => r.outlook queue bytes

/-- The meaning with one more answer, with no word, for the tick that ends the script. -/
def closed (m : Meaning) : Meaning := { m with answers := m.answers ++ [none] }

/-- The meaning of the rest of a script, of which the target has yet to take the given bytes. -/
def outlook (t : Target) (bytes : List UInt8) : Meaning :=
  match t.phase with
  | .idle | .waiting => closed (meaning t.queue bytes)
  | .executing x => closed (x.outlook t.queue bytes)
  | .ended ending => ⟨ending, [], t.queue⟩

theorem closed_after (m : Meaning) (earlier : List (Option UInt32)) :
    closed (m.after earlier) = (closed m).after earlier := by
  simp only [closed, Meaning.after, List.append_assoc]

theorem outlook_waiting {t : Target} (h : t.phase = .waiting) (bytes : List UInt8) :
    t.outlook bytes = closed (meaning t.queue bytes) := by
  simp only [outlook, h]

theorem outlook_executing {t : Target} {x : Execution} (h : t.phase = .executing x)
    (bytes : List UInt8) : t.outlook bytes = closed (x.outlook t.queue bytes) := by
  simp only [outlook, h]

theorem outlook_ended {t : Target} {ending : Ending} (h : t.phase = .ended ending)
    (bytes : List UInt8) : t.outlook bytes = ⟨ending, [], t.queue⟩ := by
  simp only [outlook, h]

/-- A decoded operation is answered once with no word before it is executed. -/
theorem meaning_of_decoded {bytes : List UInt8} {op : Operation}
    (h : frontOperation bytes = .ok op) (queue : Queue.Bounded (Entry 4)) :
    meaning queue bytes =
      ((Execution.ofOperation op).outlook queue (bytes.drop op.size)).after [none] := by
  cases bytes with
  | nil => cases h
  | cons b rest =>
    rw [meaning, h]
    cases op with
    | status => rfl
    | read mode shape =>
      simp only [Execution.ofOperation, Execution.outlook, Reading.outlook, true_and]
      split
      · rfl
      · simp only [Nat.zero_div, List.drop_zero]
        generalize takeElements shape.bytes shape.count queue = taken
        obtain ⟨words, left, short⟩ := taken
        cases short <;> rfl

theorem meaning_of_rejected {b : UInt8} {rest : List UInt8} {cause : OpcodeError}
    (h : frontOperation (b :: rest) = .error cause) (queue : Queue.Bounded (Entry 4)) :
    meaning queue (b :: rest) = ⟨.errored, [], queue⟩ := by
  rw [meaning, h]

theorem takeElements_of_empty {queue : Queue.Bounded (Entry 4)} (h : queue.peek? = none)
    (bytes count : Nat) : takeElements bytes (count + 1) queue = ([], queue, true) := by
  rw [takeElements, h]

theorem takeElements_of_head {queue : Queue.Bounded (Entry 4)} {e : Entry 4}
    (h : queue.peek? = some e) (bytes count : Nat) :
    takeElements bytes (count + 1) queue =
      (elementWords e bytes ++ (takeElements bytes count queue.pop.2).1,
        (takeElements bytes count queue.pop.2).2) := by
  rw [takeElements, h]

/-- Two stages of a read, of which the later one has one word less to answer. -/
private theorem Reading.outlook_succ {r r' : Reading} {queue queue' : Queue.Bounded (Entry 4)}
    {word : UInt32}
    (hr : ¬ (r.started = false ∧ r.mode = .exactly ∧ queue.items.length < r.shape.count))
    (hs : r'.started = true)
    (hw : (takeElements r.shape.bytes r.left queue).1.drop (r.offset / 4) =
      word :: (takeElements r'.shape.bytes r'.left queue').1.drop (r'.offset / 4))
    (hq : (takeElements r.shape.bytes r.left queue).2 =
      (takeElements r'.shape.bytes r'.left queue').2) (bytes : List UInt8) :
    r.outlook queue bytes = (r'.outlook queue' bytes).after [some word] := by
  have hr' : ¬ (r'.started = false ∧ r'.mode = .exactly ∧
      queue'.items.length < r'.shape.count) := fun h => by rw [hs] at h; cases h.1
  unfold Reading.outlook
  rw [if_neg hr, if_neg hr']
  generalize takeElements r.shape.bytes r.left queue = taken at hw hq ⊢
  generalize takeElements r'.shape.bytes r'.left queue' = taken' at hw hq ⊢
  obtain ⟨words, left, short⟩ := taken
  obtain ⟨words', left', short'⟩ := taken'
  cases hq
  cases short with
  | true => simp only [hw, List.map_cons, Meaning.after, List.singleton_append]
  | false => simp only [hw, List.map_cons, Meaning.after, List.cons_append, List.nil_append]

private theorem refused_iff {t : Target} (h : t.queue.Tallied) (r : Reading) :
    r.Refused t ↔
      r.started = false ∧ r.mode = .exactly ∧ t.queue.items.length < r.shape.count := by
  unfold Reading.Refused
  rw [h]

/-- The tick from `t` to `t'` was in line with the outlook: it was answered with the next of the
answers. -/
def Foreseen (t t' : Target) (bytes : List UInt8) : Prop :=
  t.outlook bytes = (t'.outlook (bytes.drop t'.response.consumed)).after [t'.response.word?]

private theorem foreseen_chunk {t : Target} {r : Reading} {e : Entry 4} (h : t.Sound)
    (hp : t.phase = .executing (.read r)) (ha : ¬ r.Refused t) (he : t.queue.peek? = some e)
    (hlt : r.offset + 4 < r.shape.bytes) (bytes : List UInt8) :
    r.outlook t.queue bytes =
      (r.afterChunk.outlook t.queue bytes).after [some (payloadWord e r.offset 4)] := by
  have hs := h.reading r hp
  obtain ⟨count, hcount⟩ : ∃ n, r.left = n + 1 := Nat.exists_eq_add_one.mpr hs.left_pos
  have hlen := length_elementWords e r.shape.bytes
  have hdrop := drop_elementWords e hs.offset_mod hs.offset_lt
  rw [show min 4 (r.shape.bytes - r.offset) = 4 by omega] at hdrop
  have hstarted : r.afterChunk.started = true := rfl
  refine Reading.outlook_succ (mt (refused_iff h.tallied r).mpr ha) hstarted ?_ rfl bytes
  simp only [Reading.afterChunk, hcount, takeElements_of_head he,
    show (r.offset + 4) / 4 = r.offset / 4 + 1 by omega]
  rw [List.drop_append_of_le_length (by omega), List.drop_append_of_le_length (by omega), hdrop]
  rfl

private theorem foreseen_element {t : Target} {r : Reading} {e : Entry 4} (h : t.Sound)
    (hp : t.phase = .executing (.read r)) (ha : ¬ r.Refused t) (he : t.queue.peek? = some e)
    (hle : r.shape.bytes ≤ r.offset + 4) {t' : Target} (hp' : t'.phase = r.afterElement)
    (hq' : t'.queue = t.queue.pop.2) (bytes : List UInt8) :
    closed (r.outlook t.queue bytes) = (t'.outlook bytes).after
      [some (payloadWord e r.offset (r.shape.bytes - r.offset))] := by
  have hs := h.reading r hp
  have hlt := hs.offset_lt
  have hmod := hs.offset_mod
  obtain ⟨count, hcount⟩ : ∃ n, r.left = n + 1 := Nat.exists_eq_add_one.mpr hs.left_pos
  have hlen := length_elementWords e r.shape.bytes
  have hdrop := drop_elementWords e hmod hlt
  have hnil : (elementWords e r.shape.bytes).drop (r.offset / 4 + 1) = [] :=
    List.drop_of_length_le (by omega)
  rw [show min 4 (r.shape.bytes - r.offset) = r.shape.bytes - r.offset by omega, hnil] at hdrop
  by_cases hl : 1 < r.left
  · rw [Reading.afterElement, if_pos hl] at hp'
    rw [outlook_executing hp', hq', ← closed_after]
    refine congrArg closed
      (Reading.outlook_succ (mt (refused_iff h.tallied r).mpr ha) rfl ?_ ?_ bytes)
    · simp only [hcount, takeElements_of_head he, Nat.add_sub_cancel, Nat.zero_div, List.drop_zero]
      rw [List.drop_append_of_le_length (by omega), hdrop]
      rfl
    · simp only [hcount, takeElements_of_head he, Nat.add_sub_cancel]
  · rw [Reading.afterElement, if_neg hl] at hp'
    have h0 : count = 0 := by omega
    rw [outlook_waiting hp', hq', ← closed_after, Reading.outlook, if_neg (mt (refused_iff h.tallied r).mpr ha), hcount, h0,
      takeElements_of_head he]
    simp only [takeElements, List.append_nil, hdrop]
    rfl

/-- While a target executes, every tick that does not restart it is foreseen. -/
theorem Sound.foreseen_of_executing {t t' : Target} (h : t.Sound) {x : Execution}
    (hx : t.phase = .executing x) (hc : t.Continues) (hm : Move t t') (bytes : List UInt8) :
    Foreseen t t' bytes := by
  unfold Foreseen
  rw [outlook_executing hx]
  cases hm with
  | enter he =>
    cases he with
    | start _ hs => rw [hc] at hs; cases hs
    | refuse hp _ hr =>
      cases hx.symm.trans hp
      rw [Execution.outlook, Reading.outlook, if_pos ((refused_iff h.tallied _).mp hr)]
      rfl
    | @runDry r hp _ hr hn =>
      cases hx.symm.trans hp
      obtain ⟨count, hcount⟩ : ∃ n, r.left = n + 1 :=
        Nat.exists_eq_add_one.mpr (h.reading r hp).left_pos
      rw [Execution.outlook, Reading.outlook, if_neg (mt (refused_iff h.tallied r).mpr hr),
        hcount, takeElements_of_empty hn]
      simp only [List.drop_nil, List.map_nil]
      rfl
    | sleep hp | acknowledge hp | hold hp | skip hp | await hp | close hp | cut hp | reject hp =>
      cases hx.symm.trans hp
  | decode hp => cases hx.symm.trans hp
  | report hp =>
    cases hx.symm.trans hp
    rw [word?_full, Execution.outlook, closed_after]
    rfl
  | @chunk r e hp _ ha he hlt =>
    cases hx.symm.trans hp
    rw [word?_payloadWord e r.offset (by decide) (by decide), outlook_executing rfl,
      ← closed_after]
    exact congrArg closed (foreseen_chunk h hp ha he hlt bytes)
  | @element r e hp _ ha he hle =>
    cases hx.symm.trans hp
    have hlt := (h.reading r hp).offset_lt
    rw [word?_payloadWord e r.offset (by omega) (by omega)]
    exact foreseen_element h hp ha he hle rfl rfl bytes

private theorem pop_suffix (queue : Queue.Bounded (Entry 4)) :
    queue.pop.2.items <:+ queue.items := by
  unfold Queue.Bounded.pop
  repeat' split
  · rename_i hi
    rw [hi]
    exact List.suffix_cons ..
  · exact List.suffix_refl _
  · exact List.suffix_refl _

private theorem takeElements_suffix (bytes count : Nat) (queue : Queue.Bounded (Entry 4)) :
    (takeElements bytes count queue).2.1.items <:+ queue.items := by
  induction count generalizing queue with
  | zero => exact List.suffix_refl _
  | succ count ih =>
    cases h : queue.peek? with
    | none => rw [takeElements_of_empty h]
    | some e =>
      rw [takeElements_of_head h]
      exact (ih queue.pop.2).trans (pop_suffix queue)

private theorem Execution.outlook_suffix {bytes : List UInt8}
    (h : ∀ queue, (meaning queue bytes).queue.items <:+ queue.items) (x : Execution)
    (queue : Queue.Bounded (Entry 4)) : (x.outlook queue bytes).queue.items <:+ queue.items := by
  cases x with
  | status => exact h queue
  | read r =>
    have ht := takeElements_suffix r.shape.bytes r.left queue
    change (r.outlook queue bytes).queue.items <:+ queue.items
    unfold Reading.outlook
    split
    · exact List.suffix_refl _
    · generalize takeElements r.shape.bytes r.left queue = taken at ht ⊢
      obtain ⟨words, left, short⟩ := taken
      cases short with
      | true => exact ht
      | false => exact (h left).trans ht

private theorem meaning_suffix (queue : Queue.Bounded (Entry 4)) (bytes : List UInt8) :
    (meaning queue bytes).queue.items <:+ queue.items := by
  -- By strong induction on the length, since an operation takes one byte or three.
  induction hn : bytes.length using Nat.strongRecOn generalizing queue bytes with
  | ind n ih =>
    cases bytes with
    | nil => rw [meaning]
    | cons b rest =>
      cases hf : frontOperation (b :: rest) with
      | error cause => rw [meaning_of_rejected hf]
      | ok op =>
        rw [meaning_of_decoded hf]
        refine Execution.outlook_suffix (fun later => ih _ ?_ later _ rfl) _ queue
        have := op.size_pos
        rw [← hn, List.length_drop, List.length_cons]
        omega

/-- What is left of the queue in the end is a tail of what is there now. -/
theorem outlook_suffix (t : Target) (bytes : List UInt8) :
    (t.outlook bytes).queue.items <:+ t.queue.items := by
  unfold outlook
  split
  · exact meaning_suffix ..
  · exact meaning_suffix ..
  · exact Execution.outlook_suffix (fun queue => meaning_suffix queue bytes) _ _
  · exact List.suffix_refl _

end LogBench.Target
