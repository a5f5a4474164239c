import LogBench.Proofs.Script.Elements
import LogBench.Proofs.Target.Reachable
import Mathlib.Tactic.ByContra

/-! What becomes of the entries of a target: a tick leaves the queue alone, or it answers the last
word of an element and pops the entry that the element was read from. -/
namespace LogBench.Target
open Link Script

/-- The words already answered of the element that is being read. -/
def begun (t : Target) : List UInt32 :=
  match t.phase, t.queue.peek? with
  | .executing (.read r), some e => (elementWords e r.shape.bytes).take (r.offset / 4)
  | _, _ => []

/-- The tick from `t` to `t'` ends an element: it answers the last word of the element, after the
words that earlier ticks answered of it, and pops its entry. -/
structure Completes (t t' : Target) (r : Reading) (e : Entry 4) : Prop where
  reading : t.phase = .executing (.read r)
  continues : t.Continues
  popped : t.queue.items = e :: t'.queue.items
  answered : ∃ last, t'.response.word? = some last ∧
    elementWords e r.shape.bytes = t.begun ++ [last]

theorem begun_of_reading {t : Target} {r : Reading} {e : Entry 4}
    (hp : t.phase = .executing (.read r)) (he : t.queue.peek? = some e) :
    t.begun = (elementWords e r.shape.bytes).take (r.offset / 4) := by
  simp only [begun, hp, he]

private theorem begun_eq_nil {t : Target} (h : ∀ r, t.phase = .executing (.read r) → r.offset = 0) :
    t.begun = [] := by
  unfold begun
  split
  · rename_i r e hp he
    rw [h r hp]
    exact List.take_zero
  · rfl

private theorem begun_afterElement {t : Target} {r : Reading} (hp : t.phase = r.afterElement) :
    t.begun = [] := by
  apply begun_eq_nil
  intro r' hr
  rw [hp] at hr
  unfold Reading.afterElement at hr
  split at hr
  · cases hr
    rfl
  · cases hr

/-- An offer leaves the element under way alone: it appends behind the head, and where there is no
head nothing is answered yet. -/
private theorem Sound.begun_offer {t : Target} (h : t.Sound) (e : Entry 4) :
    (t.offer e).2.begun = t.begun := by
  cases hi : t.queue.items with
  | nil =>
    have h0 : ∀ r, t.phase = .executing (.read r) → r.offset = 0 := by
      intro r hr
      by_contra hne
      exact (h.reading r hr).head hne hi
    rw [begun_eq_nil h0]
    exact begun_eq_nil h0
  | cons a later =>
    have hp : (t.queue.push e).2.peek? = t.queue.peek? := by
      cases hr : t.queue.hasRoom with
      | true => rw [Queue.Bounded.push_of_hasRoom hr]; simp [Queue.Bounded.peek?, hi]
      | false => rw [Queue.Bounded.push_of_full hr]; rfl
    change (match t.phase, (t.queue.push e).2.peek? with
      | .executing (.read r), some e => (elementWords e r.shape.bytes).take (r.offset / 4)
      | _, _ => []) = _
    rw [hp]
    rfl

structure Keeps (t t' : Target) : Prop where
  queue : t'.queue = t.queue
  begun : t'.begun = [] ∨ ∃ word, t'.response.word? = some word ∧ t'.begun = t.begun ++ [word]

/-- The effect of a tick that pops: only the head and the count of the queue change. -/
structure Pops (t t' : Target) : Prop where
  completes : ∃ r e, Completes t t' r e
  begun : t'.begun = []
  capacity : t'.queue.occupancy.capacity = t.queue.occupancy.capacity
  overflowed : t'.queue.occupancy.overflowed = t.queue.occupancy.overflowed
  underflowed : t'.queue.occupancy.underflowed = t.queue.occupancy.underflowed

theorem Sound.keeps_or_pops {t t' : Target} (h : t.Sound) (hm : Move t t') :
    Keeps t t' ∨ Pops t t' := by
  cases hm with
  | @enter phase hp =>
    refine .inl ⟨rfl, .inl (begun_eq_nil fun r hr => ?_)⟩
    cases (show phase = _ from hr)
    exact absurd hp Enters.not_executing
  | @decode op =>
    refine .inl ⟨rfl, .inl (begun_eq_nil fun r hr => ?_)⟩
    cases op with
    | status => cases hr
    | read mode shape =>
      cases hr
      rfl
  | report => exact .inl ⟨rfl, .inl rfl⟩
  | @chunk r e hp hc ha he hlt =>
    refine .inl ⟨rfl, .inr ⟨_, word?_payloadWord e r.offset (by decide) (by decide), ?_⟩⟩
    have hs := h.reading r hp
    have hmin : min 4 (r.shape.bytes - r.offset) = 4 := by omega
    have ht := take_elementWords e hs.offset_mod hs.offset_lt
    rw [hmin] at ht
    rw [begun_of_reading hp he, ← ht]
    refine (begun_of_reading (r := r.afterChunk) (e := e) ?_ ?_).trans ?_
    · rfl
    · exact he
    · simp only [Reading.afterChunk, show (r.offset + 4) / 4 = r.offset / 4 + 1 by omega]
  | @element r e hp hc ha he hle =>
    obtain ⟨later, hi⟩ := eq_cons_of_peek? he
    have hq := h.tallied.pop_eq hi
    have hs := h.reading r hp
    have hlt := hs.offset_lt
    refine .inr ⟨⟨r, e, hp, hc, ?_, _, word?_payloadWord e r.offset (by omega) (by omega), ?_⟩,
      begun_afterElement rfl, ?_, ?_, ?_⟩
    · simp only [hq, hi]
    · rw [begun_of_reading hp he]
      exact (take_elementWords_last e hs.offset_mod hlt hle).symm
    all_goals simp only [hq]

/-- A tick does nothing to the queue but pop from it. -/
theorem Sound.drained {t t' : Target} (h : t.Sound) (hm : Move t t') :
    t.queue.Drained t'.queue := by
  rcases h.keeps_or_pops hm with hk | hp
  · rw [hk.queue]
    exact .refl _
  · obtain ⟨r, e, hc⟩ := hp.completes
    refine ⟨?_, hp.capacity, hp.overflowed, hp.underflowed⟩
    rw [hc.popped]
    exact List.suffix_cons ..

/-- A target with what became of it: the entries it accepted, whether it refused one, the entries
that its ticks took off the queue, and the words that they answered. -/
structure History where
  target : Target
  accepted : List (Entry 4) := []
  refused : Bool := false
  taken : List (Entry 4) := []
  answered : List UInt32 := []

def takenBy (t : Target) : List (Entry 4) :=
  t.queue.items.take (t.queue.items.length - t.step.queue.items.length)

theorem takenBy_of_kept {t : Target} (h : (Device.tick t).queue = t.queue) : takenBy t = [] := by
  change t.step.queue = t.queue at h
  simp [takenBy, h]

theorem takenBy_of_popped {t : Target} {e : Entry 4}
    (h : t.queue.items = e :: (Device.tick t).queue.items) : takenBy t = [e] := by
  change t.queue.items = e :: t.step.queue.items at h
  simp [takenBy, h]

namespace History

def offered (h : History) (e : Entry 4) : Except Queue.QueueError Unit × Target → History
  | (.ok (), target) => { h with target, accepted := h.accepted ++ [e] }
  | (.error _, target) => { h with target, refused := true }

def ticked (h : History) : History :=
  { h with
    target := Device.tick h.target
    taken := h.taken ++ takenBy h.target
    answered := h.answered ++ (Device.tick h.target).response.word?.toList }

def extend (h : History) : Action → History
  | .offer e => h.offered e (h.target.offer e)
  | .offerRecord r => h.offered (r.entry 4) (h.target.offerRecord r)
  | .drive request => { h with target := Device.drive h.target request }
  | .tick => h.ticked

def ofActions (capacity : Nat) (actions : List Action) : History :=
  actions.foldl extend { target := vacant capacity }

/-- Every entry taken was answered in full, in words of the width that its read asked for, and
the words of an element under way are the last ones answered. -/
def Served (h : History) : Prop :=
  ∃ (served : List (Entry 4 × Nat)) (earlier : List UInt32),
    served.map Prod.fst = h.taken ∧ h.answered = earlier ++ h.target.begun ∧
      (served.flatMap fun p => elementWords p.1 p.2).Sublist earlier

structure Faithful (h : History) (capacity : Nat) : Prop where
  sound : h.target.Sound
  capacity_eq : h.target.queue.occupancy.capacity = capacity
  conserved : h.taken ++ h.target.queue.items = h.accepted
  overflowed : h.target.queue.occupancy.overflowed = h.refused
  underflowed : h.target.queue.occupancy.underflowed = false
  served : h.Served

variable {h : History} {capacity : Nat}

private theorem Faithful.start {t : Target} (h : t.Sound) (hb : t.begun = [])
    (hu : t.queue.occupancy.underflowed = false) :
    Faithful { target := t, accepted := t.queue.items, refused := t.queue.occupancy.overflowed }
      t.queue.occupancy.capacity :=
  ⟨h, rfl, rfl, rfl, hu, [], [], rfl, by simp [hb], List.Sublist.refl _⟩

/-- An offer either appends its entry to the queue, or is counted as refused. -/
private theorem Faithful.offered (hf : h.Faithful capacity) (e : Entry 4) :
    (h.offered e (h.target.offer e)).Faithful capacity := by
  have hs := hf.sound.offer e
  have hb := hf.sound.begun_offer e
  obtain ⟨served, earlier, hserved, hanswered, hsub⟩ := hf.served
  rw [← hb] at hanswered
  cases hr : h.target.queue.hasRoom with
  | true =>
    have hp : h.target.offer e = (.ok (), (h.target.offer e).2) := by
      simp only [Target.offer, Queue.Bounded.push_of_hasRoom hr]
    have hq : (h.target.offer e).2.queue = _ :=
      congrArg Prod.snd (Queue.Bounded.push_of_hasRoom hr e)
    rw [hp]
    refine ⟨hs, ?_, ?_, ?_, ?_, served, earlier, hserved, hanswered, hsub⟩
    · simp only [History.offered, hq, hf.capacity_eq]
    · simp only [History.offered, hq, ← hf.conserved, List.append_assoc]
    · simp only [History.offered, hq, hf.overflowed]
    · simp only [History.offered, hq, hf.underflowed]
  | false =>
    have hp : h.target.offer e = (.error (.overflow h.target.queue.capacity),
        (h.target.offer e).2) := by
      simp only [Target.offer, Queue.Bounded.push_of_full hr]
    have hq : (h.target.offer e).2.queue = _ :=
      congrArg Prod.snd (Queue.Bounded.push_of_full hr e)
    rw [hp]
    refine ⟨hs, ?_, ?_, ?_, ?_, served, earlier, hserved, hanswered, hsub⟩
    · simp only [History.offered, hq, hf.capacity_eq]
    · simp only [History.offered, hq, hf.conserved]
    · simp only [History.offered, hq]
    · simp only [History.offered, hq, hf.underflowed]

theorem taken_extend_of_ne_tick (h : History) {a : Action} (ha : a ≠ .tick) :
    (h.extend a).taken = h.taken := by
  cases a with
  | tick => exact absurd rfl ha
  | drive => rfl
  | _ =>
    simp only [extend, offered]
    split <;> rfl

/-- The words that a tick answers extend those of the element under way, or complete it. -/
private theorem Faithful.ticked (hf : h.Faithful capacity) : h.ticked.Faithful capacity := by
  obtain ⟨served, earlier, hserved, hanswered, hsub⟩ := hf.served
  have hs := hf.sound.step
  rcases hf.sound.keeps_or_pops h.target.step_move with hk | hp
  · have hq : (Device.tick h.target).queue = h.target.queue := hk.queue
    refine ⟨hs, ?_, ?_, ?_, ?_, ?_⟩
    · simp only [History.ticked, hq, hf.capacity_eq]
    · simp only [History.ticked, takenBy_of_kept hk.queue, List.append_nil, hq, hf.conserved]
    · simp only [History.ticked, hq, hf.overflowed]
    · simp only [History.ticked, hq, hf.underflowed]
    · rcases hk.begun with hnil | ⟨word, hword, hbegun⟩
      · refine ⟨served, h.ticked.answered, ?_, ?_, ?_⟩
        · simp only [History.ticked, takenBy_of_kept hk.queue, List.append_nil, hserved]
        · exact (List.append_nil _).symm.trans (congrArg _ hnil.symm)
        · simp only [History.ticked, hanswered, List.append_assoc]
          exact hsub.trans (List.sublist_append_left _ _)
      · refine ⟨served, earlier, ?_, ?_, hsub⟩
        · simp only [History.ticked, takenBy_of_kept hk.queue, List.append_nil, hserved]
        · change h.answered ++ h.target.step.response.word?.toList = _ ++ h.target.step.begun
          rw [hanswered, hword, hbegun, Option.toList_some, List.append_assoc]
  · obtain ⟨r, e, hc⟩ := hp.completes
    obtain ⟨last, hlast, hwords⟩ := hc.answered
    have ha : h.ticked.answered = earlier ++ elementWords e r.shape.bytes := by
      change h.answered ++ h.target.step.response.word?.toList = _
      rw [hanswered, hlast, hwords, Option.toList_some, List.append_assoc]
    refine ⟨hs, ?_, ?_, ?_, ?_, served ++ [(e, r.shape.bytes)], h.ticked.answered, ?_, ?_, ?_⟩
    · exact hp.capacity.trans hf.capacity_eq
    · change (h.taken ++ takenBy h.target) ++ h.target.step.queue.items = h.accepted
      rw [takenBy_of_popped hc.popped, List.append_assoc, List.singleton_append, ← hc.popped,
        hf.conserved]
    · exact hp.overflowed.trans hf.overflowed
    · exact hp.underflowed.trans hf.underflowed
    · simp only [History.ticked, takenBy_of_popped hc.popped, List.map_append, hserved]
      rfl
    · exact (List.append_nil _).symm.trans (congrArg _ hp.begun.symm)
    · rw [ha, List.flatMap_append]
      simpa using hsub

private theorem Faithful.extend (hf : h.Faithful capacity) (a : Action) :
    (h.extend a).Faithful capacity := by
  cases a with
  | offer e => exact hf.offered e
  | offerRecord r => exact hf.offered (r.entry 4)
  | drive request =>
    exact ⟨hf.sound.drive request, hf.capacity_eq, hf.conserved, hf.overflowed, hf.underflowed,
      hf.served⟩
  | tick => exact hf.ticked

theorem Faithful.foldl (hf : h.Faithful capacity) (actions : List Action) :
    (actions.foldl History.extend h).Faithful capacity := by
  induction actions generalizing h with
  | nil => exact hf
  | cons a actions ih => exact ih (hf.extend a)

theorem faithful_ofActions (capacity : Nat) (actions : List Action) :
    (ofActions capacity actions).Faithful capacity :=
  (Faithful.start (sound_vacant capacity) rfl rfl).foldl actions

theorem target_extend (h : History) (a : Action) : (h.extend a).target = h.target.act a := by
  cases a with
  | offer e =>
    simp only [History.extend, History.offered, act]
    split <;> simp [*]
  | offerRecord r =>
    simp only [History.extend, History.offered, act]
    split <;> simp [*]
  | _ => rfl

private theorem target_foldl (h : History) (actions : List Action) :
    (actions.foldl extend h).target = List.foldl act h.target actions := by
  induction actions generalizing h with
  | nil => rfl
  | cons a actions ih => rw [List.foldl_cons, List.foldl_cons, ih, target_extend]

end History

/-- A reachable target that reports itself idle starts a history of its own. -/
theorem Reachable.faithful {t : Target} (h : t.Reachable) (hk : t.response.kind = .idle) :
    History.Faithful
      { target := t, accepted := t.queue.items, refused := t.queue.occupancy.overflowed }
      t.queue.occupancy.capacity := by
  have hp := h.sound.phase_eq_idle hk
  refine .start h.sound (begun_eq_nil fun r hr => ?_) ?_
  · rw [hp] at hr
    cases hr
  · obtain ⟨capacity, actions, rfl⟩ := h
    have ht : (History.ofActions capacity actions).target = actions.foldl act (vacant capacity) :=
      History.target_foldl _ actions
    rw [← ht]
    exact (History.faithful_ofActions capacity actions).underflowed

end LogBench.Target
