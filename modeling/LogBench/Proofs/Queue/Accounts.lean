import LogBench.Queue.Occupancy
import Mathlib.Tactic.ByContra

/-!
An account of a queue is exact over whole runs, from any start: it counts what the accepted accesses brought
in less what they took out, and each latch tells of a refusal at its side. Many entries at once are accepted
where they are one by one. An account in words that wrap around reads the same after every run.
-/
namespace LogBench.Queue.Occupancy

inductive Side where
  | push
  | pop
  deriving DecidableEq, Repr

inductive Access where
  | one (side : Side)
  | many (side : Side) (count : UInt32)
  deriving DecidableEq, Repr

namespace Access

def side : Access → Side
  | one side => side
  | many side _ => side

def count : Access → UInt32
  | one _ => 1
  | many _ count => count

def apply (o : Occupancy) : Access → Except QueueError Unit × Occupancy
  | one .push => o.push
  | one .pop => o.pop
  | many .push count => o.add count.toNat
  | many .pop count => o.remove count.toNat

def Accepted (a : Access) (o : Occupancy) : Prop := (a.apply o).1 = .ok ()

end Access

variable (o : Occupancy)

def after (accesses : List Access) : Occupancy :=
  accesses.foldl (fun o a => (a.apply o).2) o

def latch : Side → Bool
  | .push => o.overflowed
  | .pop => o.underflowed

/-- The entries that the accepted accesses of a run move at one side. -/
def moved (side : Side) (o : Occupancy) : List Access → Nat
  | [] => 0
  | a :: later =>
    match a.apply o with
    | (.ok (), o') => (if a.side = side then a.count.toNat else 0) + moved side o' later
    | (.error _, o') => moved side o' later

def Refuses (side : Side) (o : Occupancy) : List Access → Prop
  | [] => False
  | a :: later => (a.side = side ∧ ¬ a.Accepted o) ∨ Refuses side (a.apply o).2 later

def AcceptsAll (o : Occupancy) : List Access → Prop
  | [] => True
  | a :: later => a.Accepted o ∧ AcceptsAll (a.apply o).2 later

/-- There is room for so many entries, or so many are held. -/
def Fits (n : Nat) : Side → Prop
  | .push => o.entries + n ≤ o.capacity
  | .pop => n ≤ o.entries

/-- An accepted access of `n` entries leads from one account to the other, and the latches stay. -/
structure Counts (n : Nat) (side : Side) (o o' : Occupancy) : Prop where
  entries : match side with
    | .push => o'.entries = o.entries + n
    | .pop => o'.entries + n = o.entries
  capacity : o'.capacity = o.capacity
  overflowed : o'.overflowed = o.overflowed
  underflowed : o'.underflowed = o.underflowed

def refusal : Side → Except QueueError Unit × Occupancy
  | .push => (.error (.overflow o.capacity), { o with overflowed := true })
  | .pop => (.error .underflow, { o with underflowed := true })

structure Answers (a : Access) : Prop where
  accepted : a.Accepted o ↔ o.Fits a.count.toNat a.side
  served : a.Accepted o → Counts a.count.toNat a.side o (a.apply o).2
  refused : ¬ a.Accepted o → a.apply o = o.refusal a.side

/-- Many entries at once against as many one by one. -/
structure Splits (side : Side) (count : UInt32) : Prop where
  accepted : (Access.many side count).Accepted o ↔
    o.AcceptsAll (List.replicate count.toNat (.one side))
  served : (Access.many side count).Accepted o →
    ((Access.many side count).apply o).2 = o.after (List.replicate count.toNat (.one side))

/-- An account in words of 32 bits, whose sums and differences wrap around. -/
structure Words where
  capacity : UInt32
  entries : UInt32
  overflowed : Bool
  underflowed : Bool
  deriving DecidableEq, Repr

namespace Words

/-- Whether an access is accepted, and the account after it. Only a difference is compared. -/
def apply (w : Words) (a : Access) : Bool × Words :=
  match a.side with
  | .push =>
    if a.count ≤ w.capacity - w.entries then (true, { w with entries := w.entries + a.count })
    else (false, { w with overflowed := true })
  | .pop =>
    if a.count ≤ w.entries then (true, { w with entries := w.entries - a.count })
    else (false, { w with underflowed := true })

def after (w : Words) (accesses : List Access) : Words :=
  accesses.foldl (fun w a => (w.apply a).2) w

structure Shows (w : Words) (o : Occupancy) : Prop where
  capacity : w.capacity.toNat = o.capacity
  entries : w.entries.toNat = o.entries
  overflowed : w.overflowed = o.overflowed
  underflowed : w.underflowed = o.underflowed

end Words

structure Exact (w : Words) (accesses : List Access) : Prop where
  balance : (o.after accesses).entries + o.moved .pop accesses =
    w.entries.toNat + o.moved .push accesses
  bounded : (o.after accesses).entries ≤ w.capacity.toNat
  capacity : (o.after accesses).capacity = w.capacity.toNat
  overflowed : (o.after accesses).overflowed = true ↔ w.overflowed = true ∨ o.Refuses .push accesses
  underflowed : (o.after accesses).underflowed = true ↔ w.underflowed = true ∨ o.Refuses .pop accesses
  answers : ∀ a, Answers (o.after accesses) a
  splits : ∀ side count, Splits (o.after accesses) side count
  /-- The words neither wrap around nor answer otherwise. -/
  words : (w.after accesses).Shows (o.after accesses)
  wordsAnswer : ∀ a, ((w.after accesses).apply a).1 = true ↔ a.Accepted (o.after accesses)

def change (n : Nat) : Side → Except QueueError Unit × Occupancy
  | .push => o.add n
  | .pop => o.remove n

section Steps

variable {o : Occupancy} {n : Nat} {side : Side}

private theorem apply_eq (a : Access) (o : Occupancy) :
    a.apply o = o.change a.count.toNat a.side := by
  cases a with
  | one side => cases side <;> rfl
  | many side count => cases side <;> rfl

private theorem change_of_fits (h : o.Fits n side) :
    ∃ o', o.change n side = (.ok (), o') ∧ Counts n side o o' := by
  cases side with
  | push =>
    have hfits : o.entries + n ≤ o.capacity := h
    exact ⟨_, dif_pos hfits, rfl, rfl, rfl, rfl⟩
  | pop =>
    have hheld : n ≤ o.entries := h
    exact ⟨_, if_pos hheld, Nat.sub_add_cancel hheld, rfl, rfl, rfl⟩

private theorem change_of_not_fits (h : ¬ o.Fits n side) : o.change n side = o.refusal side := by
  cases side with
  | push => exact dif_neg h
  | pop => exact if_neg h

private theorem refusal_ne_ok (o : Occupancy) (side : Side) : (o.refusal side).1 ≠ .ok () := by
  cases side <;> exact nofun

private theorem entries_refusal (o : Occupancy) (side : Side) :
    (o.refusal side).2.entries = o.entries := by
  cases side <;> rfl

private theorem capacity_refusal (o : Occupancy) (side : Side) :
    (o.refusal side).2.capacity = o.capacity := by
  cases side <;> rfl

private theorem accepted_iff (a : Access) (o : Occupancy) :
    a.Accepted o ↔ o.Fits a.count.toNat a.side := by
  rw [Access.Accepted, apply_eq]
  constructor
  · intro hok
    by_contra hfits
    rw [change_of_not_fits hfits] at hok
    exact refusal_ne_ok o a.side hok
  · intro hfits
    obtain ⟨o', ho, -⟩ := change_of_fits hfits
    rw [ho]

private theorem exists_counts_of_accepted {a : Access} (h : a.Accepted o) :
    ∃ o', a.apply o = (.ok (), o') ∧ Counts a.count.toNat a.side o o' := by
  rw [apply_eq]
  exact change_of_fits ((accepted_iff a o).mp h)

private theorem apply_of_refused {a : Access} (h : ¬ a.Accepted o) :
    a.apply o = o.refusal a.side := by
  rw [apply_eq, change_of_not_fits (mt (accepted_iff a o).mpr h)]

private theorem answers (o : Occupancy) (a : Access) : Answers o a := by
  refine ⟨accepted_iff a o, ?_, apply_of_refused⟩
  intro hok
  obtain ⟨o', ho, hcounts⟩ := exists_counts_of_accepted hok
  rwa [ho]

private theorem capacity_apply (o : Occupancy) (a : Access) :
    (a.apply o).2.capacity = o.capacity := by
  by_cases hok : a.Accepted o
  · exact ((answers o a).served hok).capacity
  · rw [apply_of_refused hok, capacity_refusal]

/-- A latch is set by a refusal at its side, and stays as it is otherwise. -/
private theorem latch_apply (o : Occupancy) (a : Access) (side : Side) :
    (a.apply o).2.latch side = true ↔ o.latch side = true ∨ a.side = side ∧ ¬ a.Accepted o := by
  by_cases hok : a.Accepted o
  · have hcounts := (answers o a).served hok
    have hlatch : (a.apply o).2.latch side = o.latch side := by
      cases side with
      | push => exact hcounts.overflowed
      | pop => exact hcounts.underflowed
    rw [hlatch]
    simp only [hok, not_true, and_false, or_false]
  · rw [apply_of_refused hok]
    cases side <;> cases a.side <;> simp [refusal, latch, hok]

end Steps

section Runs

variable {o : Occupancy}

private theorem after_cons (a : Access) (later : List Access) :
    o.after (a :: later) = (a.apply o).2.after later := rfl

theorem capacity_after (o : Occupancy) (accesses : List Access) :
    (o.after accesses).capacity = o.capacity := by
  induction accesses generalizing o with
  | nil => rfl
  | cons a later ih => rw [after_cons, ih, capacity_apply]

private theorem moved_cons_of_refused {a : Access} (h : ¬ a.Accepted o) (side : Side)
    (later : List Access) : o.moved side (a :: later) = (a.apply o).2.moved side later := by
  rw [moved]
  split
  · rename_i o' ho
    exact absurd (congrArg Prod.fst ho) h
  · rename_i e o' ho
    rw [ho]

private theorem moved_cons_of_accepted {a : Access} (h : a.Accepted o) (side : Side)
    (later : List Access) : o.moved side (a :: later) =
      (if a.side = side then a.count.toNat else 0) + (a.apply o).2.moved side later := by
  obtain ⟨o', ho, -⟩ := exists_counts_of_accepted h
  rw [moved, ho]

/-- What came in went out or is held. -/
theorem entries_after (o : Occupancy) (accesses : List Access) :
    (o.after accesses).entries + o.moved .pop accesses =
      o.entries + o.moved .push accesses := by
  induction accesses generalizing o with
  | nil => rfl
  | cons a later ih =>
    have hlater := ih (a.apply o).2
    rw [after_cons]
    by_cases hok : a.Accepted o
    · have hentries := ((answers o a).served hok).entries
      rw [moved_cons_of_accepted hok, moved_cons_of_accepted hok]
      cases hside : a.side with
      | push =>
        rw [hside] at hentries
        change _ = o.entries + a.count.toNat at hentries
        simp only [reduceCtorEq, if_false, if_true]
        omega
      | pop =>
        rw [hside] at hentries
        change _ + a.count.toNat = o.entries at hentries
        simp only [reduceCtorEq, if_false, if_true]
        omega
    · have hentries : (a.apply o).2.entries = o.entries := by
        rw [apply_of_refused hok, entries_refusal]
      rw [moved_cons_of_refused hok, moved_cons_of_refused hok, hlater, hentries]

theorem latch_after (o : Occupancy) (side : Side) (accesses : List Access) :
    (o.after accesses).latch side = true ↔ o.latch side = true ∨ o.Refuses side accesses := by
  induction accesses generalizing o with
  | nil => exact (or_iff_left id).symm
  | cons a later ih =>
    rw [after_cons, ih, latch_apply, or_assoc]
    rfl

end Runs

section Batches

variable {o o' o'' : Occupancy} {m n : Nat} {side : Side}

private theorem Counts.fits_iff (h : Counts m side o o') :
    o'.Fits n side ↔ o.Fits (m + n) side := by
  have hcapacity := h.capacity
  cases side with
  | push =>
    have hentries : o'.entries = o.entries + m := h.entries
    change o'.entries + n ≤ o'.capacity ↔ o.entries + (m + n) ≤ o.capacity
    omega
  | pop =>
    have hentries : o'.entries + m = o.entries := h.entries
    change n ≤ o'.entries ↔ m + n ≤ o.entries
    omega

private theorem Counts.trans (h : Counts m side o o') (h' : Counts n side o' o'') :
    Counts (m + n) side o o'' := by
  refine ⟨?_, h'.capacity.trans h.capacity, h'.overflowed.trans h.overflowed,
    h'.underflowed.trans h.underflowed⟩
  cases side with
  | push =>
    have hfirst : o'.entries = o.entries + m := h.entries
    have hsecond : o''.entries = o'.entries + n := h'.entries
    change o''.entries = o.entries + (m + n)
    omega
  | pop =>
    have hfirst : o'.entries + m = o.entries := h.entries
    have hsecond : o''.entries + n = o'.entries := h'.entries
    change o''.entries + (m + n) = o.entries
    omega

private theorem Fits.of_le (h : o.Fits n side) (hle : m ≤ n) : o.Fits m side := by
  cases side with
  | push =>
    have hroom : o.entries + n ≤ o.capacity := h
    exact Nat.le_trans (Nat.add_le_add_left hle o.entries) hroom
  | pop => exact Nat.le_trans hle h

private theorem counts_zero (o : Occupancy) (side : Side) : Counts 0 side o o := by
  refine ⟨?_, rfl, rfl, rfl⟩
  cases side <;> rfl

private theorem fits_zero (o : Occupancy) (side : Side) : o.Fits 0 side := by
  cases side with
  | push => exact o.entries_le
  | pop => exact Nat.zero_le _

/-- An account is known by where it comes from and what it counts. -/
private theorem Counts.unique (h : Counts n side o o') (h' : Counts n side o o'') : o' = o'' := by
  have hentries : o'.entries = o''.entries := by
    cases side with
    | push => exact h.entries.trans h'.entries.symm
    | pop => exact Nat.add_right_cancel (h.entries.trans h'.entries.symm)
  have hcapacity := h.capacity.trans h'.capacity.symm
  have hoverflowed := h.overflowed.trans h'.overflowed.symm
  have hunderflowed := h.underflowed.trans h'.underflowed.symm
  cases o'
  cases o''
  cases hentries
  cases hcapacity
  cases hoverflowed
  cases hunderflowed
  rfl

private theorem acceptsAll_replicate_iff (o : Occupancy) (n : Nat) (side : Side) :
    o.AcceptsAll (List.replicate n (.one side)) ↔ o.Fits n side := by
  induction n generalizing o with
  | zero => exact iff_of_true trivial (fits_zero o side)
  | succ n ih =>
    rw [List.replicate_succ, AcceptsAll, ih, Nat.add_comm n 1]
    constructor
    · rintro ⟨hok, hfits⟩
      exact ((answers o (.one side)).served hok).fits_iff.mp hfits
    · intro hfits
      have hok : (Access.one side).Accepted o :=
        (accepted_iff _ o).mpr (hfits.of_le (Nat.le_add_right 1 n))
      exact ⟨hok, ((answers o (.one side)).served hok).fits_iff.mpr hfits⟩

private theorem counts_after_replicate (h : o.Fits n side) :
    Counts n side o (o.after (List.replicate n (.one side))) := by
  rw [← acceptsAll_replicate_iff] at h
  induction n generalizing o with
  | zero => exact counts_zero o side
  | succ n ih =>
    rw [List.replicate_succ, after_cons, Nat.add_comm n 1]
    exact Counts.trans ((answers o (.one side)).served h.1) (ih h.2)

private theorem splits (o : Occupancy) (side : Side) (count : UInt32) : Splits o side count := by
  constructor
  · rw [acceptsAll_replicate_iff, accepted_iff]
    rfl
  · intro hok
    have hfits := (accepted_iff _ o).mp hok
    exact ((answers o _).served hok).unique (counts_after_replicate hfits)

end Batches

section InWords

variable {o o' : Occupancy} {w : Words} {n : Nat} {side : Side} {count : UInt32}

namespace Words

private theorem Shows.le_free_iff (h : w.Shows o) :
    count ≤ w.capacity - w.entries ↔ o.Fits count.toNat .push := by
  have hle := o.entries_le
  have hentries : w.entries ≤ w.capacity := by
    rwa [UInt32.le_iff_toNat_le, h.entries, h.capacity]
  rw [UInt32.le_iff_toNat_le, UInt32.toNat_sub_of_le _ _ hentries, h.entries, h.capacity]
  change _ ↔ o.entries + count.toNat ≤ o.capacity
  omega

private theorem Shows.le_entries_iff (h : w.Shows o) :
    count ≤ w.entries ↔ o.Fits count.toNat .pop := by
  rw [UInt32.le_iff_toNat_le, h.entries]
  rfl

/-- The sum is at most the capacity, which is a word. -/
private theorem Shows.toNat_add (h : w.Shows o) (hfits : o.Fits count.toNat .push) :
    (w.entries + count).toNat = o.entries + count.toNat := by
  have hroom : o.entries + count.toNat ≤ o.capacity := hfits
  have hlt := w.capacity.toNat_lt
  rw [UInt32.toNat_add, h.entries, Nat.mod_eq_of_lt]
  rw [h.capacity] at hlt
  exact Nat.lt_of_le_of_lt hroom hlt

private theorem Shows.toNat_sub (h : w.Shows o) (hfits : o.Fits count.toNat .pop) :
    (w.entries - count).toNat + count.toNat = o.entries := by
  have hheld : count.toNat ≤ o.entries := hfits
  rw [UInt32.toNat_sub_of_le _ _ (h.le_entries_iff.mpr hfits), h.entries,
    Nat.sub_add_cancel hheld]

/-- The words of an account go on showing it where only the count in them changes. -/
private theorem Shows.counted (h : w.Shows o) (hcounts : Counts n side o o')
    (hentries : count.toNat = o'.entries) : Shows { w with entries := count } o' :=
  ⟨h.capacity.trans hcounts.capacity.symm, hentries, h.overflowed.trans hcounts.overflowed.symm,
    h.underflowed.trans hcounts.underflowed.symm⟩

private theorem Shows.apply (h : w.Shows o) (a : Access) :
    ((w.apply a).1 = true ↔ a.Accepted o) ∧ (w.apply a).2.Shows (a.apply o).2 := by
  rw [accepted_iff, apply_eq]
  unfold Words.apply
  cases a.side with
  | push =>
    by_cases hfits : o.Fits a.count.toNat .push
    · obtain ⟨o', ho, hcounts⟩ := change_of_fits hfits
      have hentries : (w.entries + a.count).toNat = o'.entries :=
        (h.toNat_add hfits).trans hcounts.entries.symm
      rw [if_pos (h.le_free_iff.mpr hfits), ho]
      exact ⟨iff_of_true rfl hfits, h.counted hcounts hentries⟩
    · rw [if_neg (mt h.le_free_iff.mp hfits), change_of_not_fits hfits]
      exact ⟨iff_of_false Bool.false_ne_true hfits, h.capacity, h.entries, rfl, h.underflowed⟩
  | pop =>
    by_cases hfits : o.Fits a.count.toNat .pop
    · obtain ⟨o', ho, hcounts⟩ := change_of_fits hfits
      have hentries : (w.entries - a.count).toNat = o'.entries :=
        Nat.add_right_cancel ((h.toNat_sub hfits).trans hcounts.entries.symm)
      rw [if_pos (h.le_entries_iff.mpr hfits), ho]
      exact ⟨iff_of_true rfl hfits, h.counted hcounts hentries⟩
    · rw [if_neg (mt h.le_entries_iff.mp hfits), change_of_not_fits hfits]
      exact ⟨iff_of_false Bool.false_ne_true hfits, h.capacity, h.entries, h.overflowed, rfl⟩

private theorem Shows.after (h : w.Shows o) (accesses : List Access) :
    (w.after accesses).Shows (o.after accesses) := by
  induction accesses generalizing w o with
  | nil => exact h
  | cons a later ih => exact ih (h.apply a).2

end Words

private theorem shows_of_ofParts?
    (h : ofParts? w.capacity.toNat w.entries.toNat w.overflowed w.underflowed = .ok o) :
    w.Shows o := by
  unfold ofParts? at h
  split at h
  · cases h
    exact ⟨rfl, rfl, rfl, rfl⟩
  · cases h

end InWords

/-- For every account that can be set up from words, and every sequence of accesses of any counts. -/
theorem account_exact {w : Words} {o : Occupancy}
    (h : ofParts? w.capacity.toNat w.entries.toNat w.overflowed w.underflowed = .ok o)
    (accesses : List Access) : Exact o w accesses := by
  have hshows := shows_of_ofParts? h
  have hafter := hshows.after accesses
  refine ⟨?_, ?_, ?_, ?_, ?_, answers _, splits _, hafter, fun a => (hafter.apply a).1⟩
  · rw [hshows.entries, entries_after]
  · rw [hshows.capacity, ← capacity_after o accesses]
    exact (o.after accesses).entries_le
  · rw [hshows.capacity, capacity_after]
  · rw [hshows.overflowed]
    exact latch_after o .push accesses
  · rw [hshows.underflowed]
    exact latch_after o .pop accesses

def almostFull : Occupancy := ⟨0xFFFFFFFF, 0xFFFFFFFE, false, true, by decide⟩

/-- A sum with the first count would wrap around. -/
theorem account_exact_widest :
    ofParts? 0xFFFFFFFF 0xFFFFFFFE false true = .ok almostFull ∧
      Exact almostFull ⟨0xFFFFFFFF, 0xFFFFFFFE, false, true⟩
        [.many .push 0xFFFFFFFF, .one .push, .many .pop 0xFFFFFFFF, .one .pop] ∧
      almostFull.after [.many .push 0xFFFFFFFF, .one .push, .many .pop 0xFFFFFFFF, .one .pop] =
        ⟨0xFFFFFFFF, 0, true, true, Nat.zero_le _⟩ :=
  ⟨rfl, account_exact rfl _, rfl⟩

end LogBench.Queue.Occupancy
