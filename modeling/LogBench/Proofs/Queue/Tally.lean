import LogBench.Queue.Bounded

/-! The count of a queue against its items: what each access does while the two agree, and that they
go on agreeing. -/
namespace LogBench.Queue.Bounded

variable {α : Type u} {q : Bounded α}

def Tallied (q : Bounded α) : Prop := q.occupancy.entries = q.items.length

theorem tallied_vacant (capacity : Nat) : (vacant capacity : Bounded α).Tallied := rfl

section Accesses

variable {added : List α} {n : Nat}

theorem append_of_fits (h : q.occupancy.entries + added.length ≤ q.occupancy.capacity) :
    q.append added = (.ok (), ⟨q.items ++ added, { q.occupancy with
      entries := q.occupancy.entries + added.length
      entries_le := h }⟩) := by
  simp [append, Occupancy.add, h]

theorem append_of_exceeds (h : q.occupancy.capacity < q.occupancy.entries + added.length) :
    q.append added = (.error (.overflow q.capacity),
      { q with occupancy := { q.occupancy with overflowed := true } }) := by
  simp [append, Occupancy.add, Nat.not_le.mpr h, capacity]

theorem remove_of_le (h : n ≤ q.occupancy.entries) :
    q.remove n = (.ok (q.items.take n), ⟨q.items.drop n, { q.occupancy with
      entries := q.occupancy.entries - n
      entries_le := Nat.le_trans (Nat.sub_le ..) q.occupancy.entries_le }⟩) := by
  simp [remove, Occupancy.remove, h]

theorem remove_of_lt (h : q.occupancy.entries < n) :
    q.remove n = (.error .underflow,
      { q with occupancy := { q.occupancy with underflowed := true } }) := by
  simp [remove, Occupancy.remove, Nat.not_le.mpr h]

theorem capacity_append (q : Bounded α) (added : List α) :
    (q.append added).2.occupancy.capacity = q.occupancy.capacity := by
  rcases Nat.lt_or_ge q.occupancy.capacity (q.occupancy.entries + added.length) with hlt | hge
  · rw [append_of_exceeds hlt]
  · rw [append_of_fits hge]

theorem capacity_remove (q : Bounded α) (n : Nat) :
    (q.remove n).2.occupancy.capacity = q.occupancy.capacity := by
  rcases Nat.lt_or_ge q.occupancy.entries n with hlt | hge
  · rw [remove_of_lt hlt]
  · rw [remove_of_le hge]

theorem Tallied.append (h : q.Tallied) (added : List α) : (q.append added).2.Tallied := by
  unfold Tallied at h ⊢
  rcases Nat.lt_or_ge q.occupancy.capacity (q.occupancy.entries + added.length) with hlt | hge
  · rwa [append_of_exceeds hlt]
  · rw [append_of_fits hge, List.length_append]
    exact congrArg (· + added.length) h

theorem Tallied.remove (h : q.Tallied) (n : Nat) : (q.remove n).2.Tallied := by
  unfold Tallied at h ⊢
  rcases Nat.lt_or_ge q.occupancy.entries n with hlt | hge
  · rwa [remove_of_lt hlt]
  · rw [remove_of_le hge, List.length_drop]
    exact congrArg (· - n) h

end Accesses

theorem hasRoom_iff : q.hasRoom = true ↔ q.occupancy.entries + 1 ≤ q.occupancy.capacity := by
  have hle := q.occupancy.entries_le
  simp only [hasRoom, Occupancy.isFull, Bool.not_eq_true', decide_eq_false_iff_not]
  omega

theorem push_of_hasRoom (h : q.hasRoom = true) (a : α) :
    q.push a = (.ok (), ⟨q.items ++ [a], { q.occupancy with
      entries := q.occupancy.entries + 1
      entries_le := hasRoom_iff.mp h }⟩) :=
  append_of_fits (hasRoom_iff.mp h)

theorem push_of_full (h : q.hasRoom = false) (a : α) :
    q.push a = (.error (.overflow q.capacity),
      { q with occupancy := { q.occupancy with overflowed := true } }) := by
  apply append_of_exceeds
  rw [List.length_singleton, ← Nat.not_le, ← hasRoom_iff, h]
  exact Bool.false_ne_true

theorem push_accepted_iff (a : α) : (q.push a).1 = .ok () ↔ q.hasRoom = true := by
  cases h : q.hasRoom with
  | true => simp [push_of_hasRoom h]
  | false => simp [push_of_full h]

/-- A push leaves the items that are there at the front. -/
theorem prefix_push (q : Bounded α) (a : α) : q.items <+: (q.push a).2.items := by
  cases h : q.hasRoom with
  | true =>
    rw [push_of_hasRoom h]
    exact List.prefix_append q.items [a]
  | false =>
    have hi : (q.push a).2.items = q.items := by rw [push_of_full h]
    exact ⟨[], (List.append_nil q.items).trans hi.symm⟩

theorem Tallied.push (h : q.Tallied) (a : α) : (q.push a).2.Tallied :=
  h.append [a]

/-- The head of a tallied queue is always popped: the pop can neither be refused nor find the
item missing. -/
theorem Tallied.pop_eq (h : q.Tallied) {a : α} {later : List α} (hi : q.items = a :: later) :
    q.pop = (.ok a, ⟨later, { q.occupancy with
      entries := q.occupancy.entries - 1
      entries_le := Nat.le_trans (Nat.sub_le ..) q.occupancy.entries_le }⟩) := by
  have hn : 1 ≤ q.occupancy.entries := by rw [h, hi]; simp
  simp [pop, Occupancy.pop, Occupancy.remove, hn, hi]

theorem Tallied.pop (h : q.Tallied) {a : α} {later : List α} (hi : q.items = a :: later) :
    q.pop.2.Tallied := by
  unfold Tallied at h ⊢
  rw [Tallied.pop_eq h hi]
  simp [h, hi]

/-- What some pops make of a queue: a tail of its items is left, and no access was refused. -/
structure Drained (q q' : Bounded α) : Prop where
  items : q'.items <:+ q.items
  capacity : q'.occupancy.capacity = q.occupancy.capacity
  overflowed : q'.occupancy.overflowed = q.occupancy.overflowed
  underflowed : q'.occupancy.underflowed = q.occupancy.underflowed

theorem Drained.refl (q : Bounded α) : q.Drained q := ⟨List.suffix_refl _, rfl, rfl, rfl⟩

theorem Drained.trans {q q' q'' : Bounded α} (h : q.Drained q') (h' : q'.Drained q'') :
    q.Drained q'' :=
  ⟨h'.items.trans h.items, h'.capacity.trans h.capacity, h'.overflowed.trans h.overflowed,
    h'.underflowed.trans h.underflowed⟩

end LogBench.Queue.Bounded
