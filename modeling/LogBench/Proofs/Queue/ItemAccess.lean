import LogBench.Proofs.Queue.Tally
import Mathlib.Data.List.Induction
import Mathlib.Data.List.Infix

/-! A bounded queue is a plain list of limited length, whatever is pushed and popped: the count and the
items stay in step, and each latch tells whether an access of its kind has ever been refused. -/
namespace LogBench.Queue.Bounded

variable {α : Type u}

inductive Access (α : Type u) where
  | push (item : α)
  | pop
  deriving DecidableEq, Repr

namespace Access

/-- What an access makes of a list that has room for `capacity` items. -/
def onList (capacity : Nat) (items : List α) : Access α → List α
  | push item => if items.length < capacity then items ++ [item] else items
  | pop => items.tail

def onQueue (q : Bounded α) : Access α → Bounded α
  | push item => (q.push item).2
  | pop => q.pop.2

def Refused (q : Bounded α) : Access α → Prop
  | push item => ∃ e, (q.push item).1 = .error e
  | pop => ∃ e, q.pop.1 = .error e

end Access

def listAfter (capacity : Nat) (accesses : List (Access α)) : List α :=
  accesses.foldl (Access.onList capacity) []

def queueAfter (capacity : Nat) (accesses : List (Access α)) : Bounded α :=
  accesses.foldl Access.onQueue (vacant capacity)

/-- All that a queue is: it holds the items and counts them, and its latches are as given. -/
structure Holds (q : Bounded α) (capacity : Nat) (list : List α) (overflowed underflowed : Bool) :
    Prop where
  items : q.items = list
  counted : q.occupancy.entries = list.length
  capacity : q.capacity = capacity
  overflowed : q.occupancy.overflowed = overflowed
  underflowed : q.occupancy.underflowed = underflowed

/-- What a push does to a queue that holds some items. A refused one changes nothing but its latch. -/
structure Pushes (capacity : Nat) (q : Bounded α) (items : List α) (item : α) : Prop where
  accepted : (q.push item).1 = .ok () ↔ items.length < capacity
  served : items.length < capacity → Holds (q.push item).2 capacity (items ++ [item])
    q.occupancy.overflowed q.occupancy.underflowed
  refused : capacity ≤ items.length → q.push item = (.error (.overflow capacity),
    { q with occupancy := { q.occupancy with overflowed := true } })

structure Pops (capacity : Nat) (q : Bounded α) (items : List α) : Prop where
  accepted : (∃ item, q.pop.1 = .ok item) ↔ items ≠ []
  served : ∀ item later, items = item :: later → q.pop.1 = .ok item ∧
    Holds q.pop.2 capacity later q.occupancy.overflowed q.occupancy.underflowed
  refused : items = [] → q.pop = (.error .underflow,
    { q with occupancy := { q.occupancy with underflowed := true } })
  /-- An item that can be counted out is there to be popped. -/
  present : q.occupancy.pop.1 = .ok () → ∃ item, q.pop.1 = .ok item

structure Follows (capacity : Nat) (q : Bounded α) (items : List α) : Prop where
  holds : Holds q capacity items q.occupancy.overflowed q.occupancy.underflowed
  peek : q.peek? = items.head?
  bounded : items.length ≤ capacity
  push : ∀ item, Pushes capacity q items item
  pop : Pops capacity q items

section Steps

variable {q : Bounded α}

private theorem Tallied.holds (h : q.Tallied) :
    Holds q q.capacity q.items q.occupancy.overflowed q.occupancy.underflowed :=
  ⟨rfl, h, rfl, rfl, rfl⟩

private theorem Tallied.hasRoom_iff (h : q.Tallied) :
    q.hasRoom = true ↔ q.items.length < q.capacity := by
  rw [Bounded.hasRoom_iff, h]
  rfl

private theorem Tallied.push_served (h : q.Tallied) (item : α)
    (hroom : q.items.length < q.capacity) :
    Holds (q.push item).2 q.capacity (q.items ++ [item]) q.occupancy.overflowed
      q.occupancy.underflowed := by
  have hpush := push_of_hasRoom (h.hasRoom_iff.mpr hroom) item
  have htallied := h.push item
  rw [hpush] at htallied ⊢
  exact htallied.holds

private theorem Tallied.push_refused (h : q.Tallied) (item : α)
    (hfull : q.capacity ≤ q.items.length) : q.push item = (.error (.overflow q.capacity),
      { q with occupancy := { q.occupancy with overflowed := true } }) := by
  apply push_of_full
  rw [← Bool.not_eq_true, h.hasRoom_iff]
  exact Nat.not_lt.mpr hfull

private theorem Tallied.pushes (h : q.Tallied) (item : α) : Pushes q.capacity q q.items item :=
  ⟨(push_accepted_iff item).trans h.hasRoom_iff, h.push_served item, h.push_refused item⟩

private theorem Tallied.pop_served (h : q.Tallied) {item : α} {later : List α}
    (hi : q.items = item :: later) : q.pop.1 = .ok item ∧
      Holds q.pop.2 q.capacity later q.occupancy.overflowed q.occupancy.underflowed := by
  have htallied := h.pop hi
  rw [h.pop_eq hi] at htallied ⊢
  exact ⟨rfl, htallied.holds⟩

private theorem Tallied.pop_refused (h : q.Tallied) (hi : q.items = []) :
    q.pop = (.error .underflow,
      { q with occupancy := { q.occupancy with underflowed := true } }) := by
  have hn : q.occupancy.entries = 0 := by rw [h, hi, List.length_nil]
  simp [Bounded.pop, Occupancy.pop, Occupancy.remove, hn]

/-- Only the count is asked, and it does not count what is not there. -/
private theorem Tallied.exists_counted (h : q.Tallied) (hok : q.occupancy.pop.1 = .ok ()) :
    ∃ item later, q.items = item :: later := by
  apply List.exists_cons_of_ne_nil
  intro hi
  have hn : q.occupancy.entries = 0 := by rw [h, hi, List.length_nil]
  simp [Occupancy.pop, Occupancy.remove, hn] at hok

private theorem Tallied.pops (h : q.Tallied) : Pops q.capacity q q.items := by
  refine ⟨⟨?_, ?_⟩, fun _ _ => h.pop_served, h.pop_refused, ?_⟩
  · rintro ⟨item, hok⟩ hi
    rw [h.pop_refused hi] at hok
    cases hok
  · intro hne
    obtain ⟨item, later, hi⟩ := List.exists_cons_of_ne_nil hne
    exact ⟨item, (h.pop_served hi).1⟩
  · intro hok
    obtain ⟨item, later, hi⟩ := h.exists_counted hok
    exact ⟨item, (h.pop_served hi).1⟩

private theorem Tallied.follows (h : q.Tallied) : Follows q.capacity q q.items := by
  refine ⟨h.holds, rfl, ?_, h.pushes, h.pops⟩
  rw [← h]
  exact q.occupancy.entries_le

/-- The queue goes from one list to the next as the list does on its own. -/
private theorem Tallied.access (h : q.Tallied) (x : Access α) :
    (x.onQueue q).Tallied ∧ (x.onQueue q).capacity = q.capacity ∧
      (x.onQueue q).items = x.onList q.capacity q.items := by
  cases x with
  | push item =>
    refine ⟨h.push item, q.capacity_append [item], ?_⟩
    change (q.push item).2.items = if _ then _ else _
    split
    · rename_i hroom
      exact (h.push_served item hroom).items
    · rename_i hfull
      rw [h.push_refused item (Nat.not_lt.mp hfull)]
  | pop =>
    change q.pop.2.Tallied ∧ q.pop.2.capacity = q.capacity ∧ q.pop.2.items = q.items.tail
    cases hi : q.items with
    | nil =>
      rw [h.pop_refused hi]
      exact ⟨h, rfl, hi⟩
    | cons item later =>
      have hserved := (h.pop_served hi).2
      exact ⟨h.pop hi, hserved.capacity, hserved.items⟩

/-- The latch of an access is set by its refusal, and stays as it is otherwise. -/
private theorem Tallied.overflowed_access (h : q.Tallied) (x : Access α) :
    (x.onQueue q).occupancy.overflowed = true ↔
      q.occupancy.overflowed = true ∨ (∃ item, x = .push item) ∧ x.Refused q := by
  cases x with
  | push item =>
    change (q.push item).2.occupancy.overflowed = true ↔ _ ∨ _ ∧ ∃ e, (q.push item).1 = .error e
    cases hr : q.hasRoom with
    | true => simp [push_of_hasRoom hr]
    | false => simp [push_of_full hr]
  | pop =>
    change q.pop.2.occupancy.overflowed = true ↔ _
    cases hi : q.items with
    | nil => simp [h.pop_refused hi]
    | cons item later => simp [(h.pop_served hi).2.overflowed]

private theorem Tallied.underflowed_access (h : q.Tallied) (x : Access α) :
    (x.onQueue q).occupancy.underflowed = true ↔
      q.occupancy.underflowed = true ∨ x = .pop ∧ x.Refused q := by
  cases x with
  | push item =>
    change (q.push item).2.occupancy.underflowed = true ↔ _
    cases hr : q.hasRoom with
    | true => simp [push_of_hasRoom hr]
    | false => simp [push_of_full hr]
  | pop =>
    change q.pop.2.occupancy.underflowed = true ↔ _ ∨ _ ∧ ∃ e, q.pop.1 = .error e
    cases hi : q.items with
    | nil => simp [h.pop_refused hi]
    | cons item later => simp [(h.pop_served hi).1, (h.pop_served hi).2.underflowed]

end Steps

section Runs

private theorem listAfter_concat (capacity : Nat) (accesses : List (Access α)) (x : Access α) :
    listAfter capacity (accesses ++ [x]) = x.onList capacity (listAfter capacity accesses) :=
  List.foldl_concat ..

private theorem queueAfter_concat (capacity : Nat) (accesses : List (Access α)) (x : Access α) :
    queueAfter capacity (accesses ++ [x]) = x.onQueue (queueAfter capacity accesses) :=
  List.foldl_concat ..

private theorem queueAfter_tallied (capacity : Nat) (accesses : List (Access α)) :
    (queueAfter capacity accesses).Tallied ∧ (queueAfter capacity accesses).capacity = capacity ∧
      (queueAfter capacity accesses).items = listAfter capacity accesses := by
  induction accesses using List.reverseRecOn with
  | nil => exact ⟨tallied_vacant capacity, rfl, rfl⟩
  | append_singleton accesses x ih =>
    obtain ⟨htallied, hcapacity, hitems⟩ := ih
    have hnext := htallied.access x
    rwa [hcapacity, hitems, ← queueAfter_concat, ← listAfter_concat] at hnext

private theorem follows_queueAfter (capacity : Nat) (accesses : List (Access α)) :
    Follows capacity (queueAfter capacity accesses) (listAfter capacity accesses) := by
  obtain ⟨htallied, hcapacity, hitems⟩ := queueAfter_tallied capacity accesses
  have h := htallied.follows
  rwa [hcapacity, hitems] at h

/-- A latch that only refusals of one kind of access set tells whether there has been one. -/
theorem latch_queueAfter (capacity : Nat) (latch : Bounded α → Prop) (kind : Access α → Prop)
    (hvacant : ¬ latch (vacant capacity))
    (hstep : ∀ {q : Bounded α}, q.Tallied → ∀ x : Access α,
      latch (x.onQueue q) ↔ latch q ∨ kind x ∧ x.Refused q)
    (accesses : List (Access α)) :
    latch (queueAfter capacity accesses) ↔ ∃ earlier x, earlier ++ [x] <+: accesses ∧
      kind x ∧ x.Refused (queueAfter capacity earlier) := by
  -- From the last access on, since only the queue before it tells whether it was refused.
  induction accesses using List.reverseRecOn with
  | nil =>
    refine iff_of_false hvacant ?_
    rintro ⟨earlier, x, hprefix, -⟩
    exact List.concat_ne_nil x earlier (List.prefix_nil.mp hprefix)
  | append_singleton accesses x ih =>
    rw [queueAfter_concat, hstep (queueAfter_tallied capacity accesses).1, ih]
    constructor
    · rintro (⟨earlier, y, hprefix, hrefused⟩ | hrefused)
      · exact ⟨earlier, y, hprefix.trans (List.prefix_append accesses [x]), hrefused⟩
      · exact ⟨accesses, x, List.prefix_rfl, hrefused⟩
    · rintro ⟨earlier, y, hprefix, hrefused⟩
      rcases List.prefix_concat_iff.mp hprefix with hsame | hprefix
      · obtain ⟨rfl, hxy⟩ := List.append_inj' hsame rfl
        cases hxy
        exact Or.inr hrefused
      · exact Or.inl ⟨earlier, y, hprefix, hrefused⟩

private theorem overflowed_queueAfter (capacity : Nat) (accesses : List (Access α)) :
    (queueAfter capacity accesses).occupancy.overflowed = true ↔
      ∃ earlier item, earlier ++ [.push item] <+: accesses ∧
        (Access.push item).Refused (queueAfter capacity earlier) := by
  have h := latch_queueAfter capacity (fun q : Bounded α => q.occupancy.overflowed = true)
    (fun x => ∃ item, x = .push item) Bool.false_ne_true Tallied.overflowed_access accesses
  rw [h]
  constructor
  · rintro ⟨earlier, x, hprefix, ⟨item, rfl⟩, hrefused⟩
    exact ⟨earlier, item, hprefix, hrefused⟩
  · rintro ⟨earlier, item, hprefix, hrefused⟩
    exact ⟨earlier, .push item, hprefix, ⟨item, rfl⟩, hrefused⟩

private theorem underflowed_queueAfter (capacity : Nat) (accesses : List (Access α)) :
    (queueAfter capacity accesses).occupancy.underflowed = true ↔
      ∃ earlier, earlier ++ [.pop] <+: accesses ∧
        Access.pop.Refused (queueAfter capacity earlier) := by
  have h := latch_queueAfter capacity (fun q : Bounded α => q.occupancy.underflowed = true)
    (fun x => x = .pop) Bool.false_ne_true Tallied.underflowed_access accesses
  rw [h]
  constructor
  · rintro ⟨earlier, x, hprefix, rfl, hrefused⟩
    exact ⟨earlier, hprefix, hrefused⟩
  · rintro ⟨earlier, hprefix, hrefused⟩
    exact ⟨earlier, .pop, hprefix, rfl, hrefused⟩

end Runs

/-- For every capacity and every sequence of accesses: the queue follows the list, and a latch is set
exactly where an access of its kind was refused on the way. -/
theorem queue_follows_list (capacity : Nat) (accesses : List (Access α)) :
    Follows capacity (queueAfter capacity accesses) (listAfter capacity accesses) ∧
    ((queueAfter capacity accesses).occupancy.overflowed = true ↔
      ∃ earlier item, earlier ++ [.push item] <+: accesses ∧
        (Access.push item).Refused (queueAfter capacity earlier)) ∧
    ((queueAfter capacity accesses).occupancy.underflowed = true ↔
      ∃ earlier, earlier ++ [.pop] <+: accesses ∧
        Access.pop.Refused (queueAfter capacity earlier)) :=
  ⟨follows_queueAfter capacity accesses, overflowed_queueAfter capacity accesses,
    underflowed_queueAfter capacity accesses⟩

/-- Without any room every access is refused. -/
example : queueAfter 0 [.push 'a', .pop] = ⟨[], ⟨0, 0, true, true, Nat.le_refl 0⟩⟩ := by
  decide

end LogBench.Queue.Bounded
