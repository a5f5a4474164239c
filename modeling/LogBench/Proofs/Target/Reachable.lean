import LogBench.Proofs.Queue.Tally
import LogBench.Proofs.Target.Move

/-! The targets that can be reached from a vacant one, by entries offered, requests driven and
ticks in any order, and what holds of all of them. -/
namespace LogBench.Target
open Link

inductive Action where
  | offer (e : Entry 4)
  | offerRecord (r : Record)
  | drive (request : Request)
  | tick

def act (t : Target) : Action → Target
  | .offer e => (t.offer e).2
  | .offerRecord r => (t.offerRecord r).2
  | .drive request => Device.drive t request
  | .tick => Device.tick t

def Reachable (t : Target) : Prop :=
  ∃ capacity actions, t = List.foldl act (vacant capacity) actions

/-- The counters of a read stay in their ranges, and the entries that it relies on are queued. -/
structure Reading.Sound (r : Reading) (queue : Queue.Bounded (Entry 4)) : Prop where
  offset_lt : r.offset < r.shape.bytes
  offset_mod : r.offset % 4 = 0
  left_pos : 0 < r.left
  left_le : r.left ≤ r.shape.count
  fresh : r.started = false → r.offset = 0 ∧ r.left = r.shape.count
  head : r.offset ≠ 0 → queue.items ≠ []
  enough : r.started = true → r.mode = .exactly → r.left ≤ queue.items.length

structure Sound (t : Target) : Prop where
  tallied : t.queue.Tallied
  reported : t.response.kind = t.phase.kind
  /-- Only a running target takes bytes or answers them. -/
  quiet : t.response.kind ≠ .running → t.response = { kind := t.response.kind }
  reading : ∀ r, t.phase = .executing (.read r) → r.Sound t.queue

/-- Only an idle target reports that it is idle. -/
theorem Sound.phase_eq_idle {t : Target} (h : t.Sound) (hk : t.response.kind = .idle) :
    t.phase = .idle := by
  rw [h.reported] at hk
  cases hp : t.phase with
  | idle => rfl
  | ended ending => cases ending <;> simp [hp, Phase.kind, Ending.kind] at hk
  | _ => simp [hp, Phase.kind] at hk

theorem phase_of_running {t : Target} (h : t.Sound) (hk : t.response.kind = .running) :
    t.phase = .waiting ∨ ∃ x, t.phase = .executing x := by
  rw [h.reported] at hk
  cases hp : t.phase with
  | waiting => exact .inl rfl
  | executing x => exact .inr ⟨x, rfl⟩
  | idle => rw [hp] at hk; cases hk
  | ended ending => cases ending <;> simp [hp, Phase.kind, Ending.kind] at hk

/-- Whatever a running target is sent, it does not report itself idle after the next tick. -/
theorem kind_ne_idle_of_running {t : Target} (h : t.Sound) (hk : t.response.kind = .running)
    (request : Request) : (Device.tick (Device.drive t request)).response.kind ≠ .idle := by
  have hm := step_move (Device.drive t request)
  rcases phase_of_running h hk with hp | ⟨x, hp⟩
  · exact hm.kind_ne_idle (by simp [Device.drive, hp]) (by simp [Device.drive, hp])
  · exact hm.kind_ne_idle (by simp [Device.drive, hp]) (by simp [Device.drive, hp])

theorem eq_cons_of_peek? {q : Queue.Bounded (Entry 4)} {e : Entry 4} (h : q.peek? = some e) :
    ∃ later, q.items = e :: later :=
  List.head?_eq_some_iff.mp h

/-- The reads that pass their check find all the entries that they ask for. -/
private theorem left_le_of_accepted {t : Target} {r : Reading} (h : r.Sound t.queue)
    (ht : t.queue.Tallied) (hr : ¬ r.Refused t) (hm : r.mode = .exactly) :
    r.left ≤ t.queue.items.length := by
  cases hs : r.started with
  | true => exact h.enough hs hm
  | false =>
    have hn : ¬ t.queue.occupancy.entries < r.shape.count := fun hlt => hr ⟨hs, hm, hlt⟩
    rw [ht] at hn
    have := h.left_le
    omega

private theorem sound_ofOperation {op : Script.Operation} {r : Reading}
    (h : Execution.ofOperation op = .read r) (queue : Queue.Bounded (Entry 4)) :
    r.Sound queue := by
  cases op with
  | status => cases h
  | read mode shape =>
    cases h
    exact ⟨shape.bytes_pos, rfl, shape.count_pos, Nat.le_refl _, fun _ => ⟨rfl, rfl⟩,
      fun h0 => absurd rfl h0, fun hs => nomatch hs⟩

private theorem sound_afterChunk {t : Target} {r : Reading} {e : Entry 4} (h : r.Sound t.queue)
    (ht : t.queue.Tallied) (hr : ¬ r.Refused t) (he : t.queue.peek? = some e)
    (hlt : r.offset + 4 < r.shape.bytes) : r.afterChunk.Sound t.queue where
  offset_lt := hlt
  offset_mod := by
    have := h.offset_mod
    simp only [Reading.afterChunk]
    omega
  left_pos := h.left_pos
  left_le := h.left_le
  fresh hs := nomatch hs
  head _ := by
    obtain ⟨later, hl⟩ := eq_cons_of_peek? he
    simp [hl]
  enough _ hm := show r.left ≤ _ from left_le_of_accepted h ht hr hm

private theorem sound_afterElement {t : Target} {r r' : Reading} {e : Entry 4}
    (h : r.Sound t.queue) (ht : t.queue.Tallied) (hr : ¬ r.Refused t)
    (he : t.queue.peek? = some e) (ha : r.afterElement = .executing (.read r')) :
    r'.Sound t.queue.pop.2 := by
  unfold Reading.afterElement at ha
  split at ha
  case isFalse => cases ha
  case isTrue hl =>
    cases ha
    obtain ⟨later, hi⟩ := eq_cons_of_peek? he
    have hle := h.left_le
    refine ⟨r.shape.bytes_pos, rfl, ?_, ?_, (nomatch ·), fun h0 => absurd rfl h0,
      fun _ hm => ?_⟩
    · change 0 < r.left - 1
      omega
    · change r.left - 1 ≤ r.shape.count
      omega
    · have hn := left_le_of_accepted h ht hr hm
      rw [hi, List.length_cons] at hn
      rw [ht.pop_eq hi]
      change r.left - 1 ≤ later.length
      omega

theorem sound_vacant (capacity : Nat) : (vacant capacity).Sound where
  tallied := Queue.Bounded.tallied_vacant capacity
  reported := rfl
  quiet _ := rfl
  reading _ h := nomatch h

/-- Offers append entries and change nothing else, so a read keeps the entries it relies on. -/
theorem Sound.offer {t : Target} (h : t.Sound) (e : Entry 4) : (t.offer e).2.Sound where
  tallied := h.tallied.push e
  reported := h.reported
  quiet := h.quiet
  reading r hr := by
    have hs := h.reading r hr
    obtain ⟨more, hmore⟩ := t.queue.prefix_push e
    refine { hs with head := fun h0 => ?_, enough := fun h1 h2 => ?_ }
    · change (t.queue.push e).2.items ≠ []
      rw [← hmore]
      exact List.append_ne_nil_of_left_ne_nil (hs.head h0) more
    · change r.left ≤ (t.queue.push e).2.items.length
      rw [← hmore, List.length_append]
      exact Nat.le_add_right_of_le (hs.enough h1 h2)

theorem Sound.drive {t : Target} (h : t.Sound) (request : Request) :
    (Device.drive t request).Sound :=
  ⟨h.tallied, h.reported, h.quiet, h.reading⟩

theorem Sound.move {t t' : Target} (h : t.Sound) (hm : Move t t') : t'.Sound := by
  refine ⟨?_, ?_, ?_, fun r hr => ?_⟩
  · cases hm with
    | element _ _ _ he =>
      obtain ⟨later, hi⟩ := eq_cons_of_peek? he
      exact h.tallied.pop hi
    | _ => exact h.tallied
  · cases hm with
    | @element r =>
      change Kind.running = r.afterElement.kind
      unfold Reading.afterElement
      split <;> rfl
    | _ => rfl
  · cases hm with
    | enter => exact fun _ => rfl
    | _ => exact fun hk => absurd rfl hk
  · cases hm with
    | @enter phase hp =>
      cases (show phase = _ from hr)
      exact absurd hp Enters.not_executing
    | decode => exact sound_ofOperation (Phase.executing.inj hr) _
    | report => cases hr
    | chunk hp _ ha he hlt =>
      cases hr
      exact sound_afterChunk (h.reading _ hp) h.tallied ha he hlt
    | element hp _ ha he => exact sound_afterElement (h.reading _ hp) h.tallied ha he hr

theorem Sound.step {t : Target} (h : t.Sound) : t.step.Sound := h.move t.step_move

theorem Sound.act {t : Target} (h : t.Sound) (a : Action) : (t.act a).Sound := by
  cases a with
  | offer e => exact h.offer e
  | offerRecord r => exact h.offer (r.entry 4)
  | drive request => exact h.drive request
  | tick => exact h.step

theorem Sound.foldl {t : Target} (h : t.Sound) (actions : List Action) :
    (List.foldl Target.act t actions).Sound := by
  induction actions generalizing t with
  | nil => exact h
  | cons a later ih => exact ih (h.act a)

theorem Reachable.sound {t : Target} (h : t.Reachable) : t.Sound := by
  obtain ⟨capacity, actions, rfl⟩ := h
  exact (sound_vacant capacity).foldl actions

def lone : Target := ((vacant 1).offer ⟨0, #v[0x11223344, 0, 0, 0]⟩).2

theorem reachable_lone : lone.Reachable :=
  ⟨1, [.offer ⟨0, #v[0x11223344, 0, 0, 0]⟩], rfl⟩

end LogBench.Target
