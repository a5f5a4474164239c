import LogBench.Proofs.Queue.Tally
import LogBench.Queue.ByteQueue

/-! A byte queue is a plain list of bytes, whatever is pushed and popped: an access is served as a whole
or leaves the bytes alone, and the count, the bytes and the word at the front stay in step. -/
namespace LogBench.Queue.ByteQueue

inductive Access where
  | push (word : UInt64) (count : Nat)
  | pop (count : Nat)
  deriving DecidableEq, Repr

def lowBytes (word : UInt64) (count : Nat) : List UInt8 :=
  (List.range count).map fun i => UInt8.ofNat (word.toNat / 256 ^ i)

namespace Access

/-- What an access makes of a list of bytes that has room for `capacity` of them. -/
def onList (capacity : Nat) (bytes : List UInt8) : Access → List UInt8
  | push word count =>
    if count ≤ 8 ∧ bytes.length + count ≤ capacity then bytes ++ lowBytes word count else bytes
  | pop count => if count ≤ 8 ∧ count ≤ bytes.length then bytes.drop count else bytes

def onQueue (q : ByteQueue) : Access → ByteQueue
  | push word count => (q.pushWord word count).2
  | pop count => (q.popWord count).2

end Access

def listAfter (capacity : Nat) (accesses : List Access) : List UInt8 :=
  accesses.foldl (Access.onList capacity) []

def queueAfter (capacity : Nat) (accesses : List Access) : ByteQueue :=
  accesses.foldl Access.onQueue (.vacant capacity)

structure SameLatches (q q' : ByteQueue) : Prop where
  overflowed : q'.occupancy.overflowed = q.occupancy.overflowed
  underflowed : q'.occupancy.underflowed = q.occupancy.underflowed

structure Pushes (capacity : Nat) (q : ByteQueue) (bytes : List UInt8) (word : UInt64)
    (count : Nat) : Prop where
  accepted : (q.pushWord word count).1 = .ok () ↔ count ≤ 8 ∧ bytes.length + count ≤ capacity
  served : (q.pushWord word count).1 = .ok () →
    (q.pushWord word count).2.items = bytes ++ lowBytes word count ∧
      SameLatches q (q.pushWord word count).2
  refused : count ≤ 8 → capacity < bytes.length + count →
    q.pushWord word count = (.error (.overflow capacity),
      { q with occupancy := { q.occupancy with overflowed := true } })
  tooWide : 8 < count → q.pushWord word count = (.error (.tooWide count), q)

structure Pops (q : ByteQueue) (bytes : List UInt8) (count : Nat) : Prop where
  accepted : (∃ word, (q.popWord count).1 = .ok word) ↔ count ≤ 8 ∧ count ≤ bytes.length
  served : ∀ word, (q.popWord count).1 = .ok word →
    word.toNat = Bytes.littleEndian (bytes.take count) ∧
      word.toNat = q.front.1.toNat % 256 ^ count ∧
      (q.popWord count).2.items = bytes.drop count ∧ SameLatches q (q.popWord count).2
  refused : count ≤ 8 → bytes.length < count →
    q.popWord count = (.error .underflow,
      { q with occupancy := { q.occupancy with underflowed := true } })
  tooWide : 8 < count → q.popWord count = (.error (.tooWide count), q)

structure Refines (capacity : Nat) (q : ByteQueue) (bytes : List UInt8) : Prop where
  items : q.items = bytes
  counted : q.occupancy.entries = bytes.length
  bounded : bytes.length ≤ capacity
  front : q.front.1.toNat = Bytes.littleEndian (bytes.take 8)
  frontCount : q.front.2 = min 8 bytes.length
  push : ∀ word count, Pushes capacity q bytes word count
  pop : ∀ count, Pops q bytes count

/-- A queue keeps to a list of bytes. -/
structure Tracks (capacity : Nat) (q : ByteQueue) (bytes : List UInt8) : Prop where
  items : q.items = bytes
  tallied : q.Tallied
  capacity_eq : q.occupancy.capacity = capacity

section Words

variable {q : ByteQueue} {count : Nat}

private theorem length_lowBytes (word : UInt64) (count : Nat) :
    (lowBytes word count).length = count := by
  rw [lowBytes, List.length_map, List.length_range]

private theorem pushWord_of_le (word : UInt64) (h : count ≤ 8) :
    q.pushWord word count = q.append (lowBytes word count) := by
  rw [lowBytes, ← Bytes.toLittleEndian_eq_map]
  exact if_pos h

private theorem pushWord_of_lt (word : UInt64) (h : 8 < count) :
    q.pushWord word count = (.error (.tooWide count), q) :=
  if_neg (Nat.not_le.mpr h)

private theorem popWord_of_le (h : count ≤ 8) :
    q.popWord count = ((q.remove count).1.map pack, (q.remove count).2) :=
  if_pos h

private theorem popWord_of_lt (h : 8 < count) : q.popWord count = (.error (.tooWide count), q) :=
  if_neg (Nat.not_le.mpr h)

private theorem tallied_pushWord (h : q.Tallied) {word : UInt64} :
    (q.pushWord word count).2.Tallied := by
  unfold pushWord
  split
  · exact h.append _
  · exact h

private theorem tallied_popWord (h : q.Tallied) : (q.popWord count).2.Tallied := by
  unfold popWord
  split
  · exact h.remove count
  · exact h

private theorem capacity_pushWord (q : ByteQueue) (word : UInt64) (count : Nat) :
    (q.pushWord word count).2.occupancy.capacity = q.occupancy.capacity := by
  unfold pushWord
  split
  · exact q.capacity_append _
  · rfl

private theorem capacity_popWord (q : ByteQueue) (count : Nat) :
    (q.popWord count).2.occupancy.capacity = q.occupancy.capacity := by
  unfold popWord
  split
  · exact q.capacity_remove count
  · rfl

/-- A word has room for eight bytes, so none is lost. -/
private theorem toNat_pack {bytes : List UInt8} (h : bytes.length ≤ 8) :
    (pack bytes).toNat = Bytes.littleEndian bytes := by
  have hlt : Bytes.littleEndian bytes < 2 ^ 64 :=
    Nat.lt_of_lt_of_le (Bytes.littleEndian_lt bytes)
      (Nat.pow_le_pow_right (by decide) h : 256 ^ bytes.length ≤ 256 ^ 8)
  rw [pack, UInt64.toNat_ofNat', Nat.mod_eq_of_lt hlt]

end Words

section Steps

variable {capacity : Nat} {q : ByteQueue} {bytes : List UInt8}

private theorem tracks_vacant (capacity : Nat) : Tracks capacity (.vacant capacity) [] :=
  ⟨rfl, Bounded.tallied_vacant capacity, rfl⟩

private theorem Tracks.counted (h : Tracks capacity q bytes) :
    q.occupancy.entries = bytes.length := by
  rw [h.tallied, h.items]

private theorem Tracks.front (h : Tracks capacity q bytes) :
    q.front.1.toNat = Bytes.littleEndian (bytes.take 8) := by
  rw [← h.items]
  exact toNat_pack (List.length_take_le ..)

private theorem Tracks.pushWord_fits (h : Tracks capacity q bytes) (word : UInt64) {count : Nat}
    (hc : count ≤ 8) (hfits : bytes.length + count ≤ capacity) :
    ∃ q', q.pushWord word count = (.ok (), q') ∧ q'.items = bytes ++ lowBytes word count ∧
      SameLatches q q' := by
  have hroom : q.occupancy.entries + (lowBytes word count).length ≤ q.occupancy.capacity := by
    rwa [h.counted, length_lowBytes, h.capacity_eq]
  rw [pushWord_of_le word hc, Bounded.append_of_fits hroom, ← h.items]
  exact ⟨_, rfl, rfl, rfl, rfl⟩

private theorem Tracks.pushWord_exceeds (h : Tracks capacity q bytes) (word : UInt64) {count : Nat}
    (hc : count ≤ 8) (hexceeds : capacity < bytes.length + count) :
    q.pushWord word count = (.error (.overflow capacity),
      { q with occupancy := { q.occupancy with overflowed := true } }) := by
  have hroom : q.occupancy.capacity < q.occupancy.entries + (lowBytes word count).length := by
    rwa [h.counted, length_lowBytes, h.capacity_eq]
  rw [pushWord_of_le word hc, Bounded.append_of_exceeds hroom, ← h.capacity_eq]
  rfl

private theorem Tracks.pushes (h : Tracks capacity q bytes) (word : UInt64) (count : Nat) :
    Pushes capacity q bytes word count := by
  have hnarrow (hok : (q.pushWord word count).1 = .ok ()) :
      count ≤ 8 ∧ bytes.length + count ≤ capacity := by
    rcases Nat.lt_or_ge 8 count with hwide | hc
    · rw [pushWord_of_lt word hwide] at hok
      cases hok
    · refine ⟨hc, Nat.le_of_not_lt fun hexceeds => ?_⟩
      rw [h.pushWord_exceeds word hc hexceeds] at hok
      cases hok
  refine ⟨⟨hnarrow, ?_⟩, ?_, h.pushWord_exceeds word, pushWord_of_lt word⟩
  · rintro ⟨hc, hfits⟩
    obtain ⟨q', hq, -⟩ := h.pushWord_fits word hc hfits
    rw [hq]
  · intro hok
    obtain ⟨hc, hfits⟩ := hnarrow hok
    obtain ⟨q', hq, hserved⟩ := h.pushWord_fits word hc hfits
    rw [hq]
    exact hserved

private theorem Tracks.popWord_held (h : Tracks capacity q bytes) {count : Nat} (hc : count ≤ 8)
    (hheld : count ≤ bytes.length) :
    ∃ q', q.popWord count = (.ok (pack (bytes.take count)), q') ∧ q'.items = bytes.drop count ∧
      SameLatches q q' := by
  rw [popWord_of_le hc, Bounded.remove_of_le (by rwa [h.counted]), ← h.items]
  exact ⟨_, rfl, rfl, rfl, rfl⟩

private theorem Tracks.popWord_lacking (h : Tracks capacity q bytes) {count : Nat} (hc : count ≤ 8)
    (hlacks : bytes.length < count) :
    q.popWord count = (.error .underflow,
      { q with occupancy := { q.occupancy with underflowed := true } }) := by
  rw [popWord_of_le hc, Bounded.remove_of_lt (by rwa [h.counted])]
  rfl

/-- The popped word is the low part of the word that was shown at the front. -/
private theorem Tracks.toNat_popped (h : Tracks capacity q bytes) {count : Nat} (hc : count ≤ 8) :
    (pack (bytes.take count)).toNat = Bytes.littleEndian (bytes.take count) ∧
      (pack (bytes.take count)).toNat = q.front.1.toNat % 256 ^ count := by
  have hpack : (pack (bytes.take count)).toNat = Bytes.littleEndian (bytes.take count) :=
    toNat_pack (Nat.le_trans (List.length_take_le ..) hc)
  refine ⟨hpack, ?_⟩
  -- No more bytes are popped than the front shows.
  rw [hpack, h.front, ← Bytes.littleEndian_take, List.take_take, Nat.min_eq_left hc]

private theorem Tracks.pops (h : Tracks capacity q bytes) (count : Nat) : Pops q bytes count := by
  have hnarrow {word : UInt64} (hok : (q.popWord count).1 = .ok word) :
      count ≤ 8 ∧ count ≤ bytes.length := by
    rcases Nat.lt_or_ge 8 count with hwide | hc
    · rw [popWord_of_lt hwide] at hok
      cases hok
    · refine ⟨hc, Nat.le_of_not_lt fun hlacks => ?_⟩
      rw [h.popWord_lacking hc hlacks] at hok
      cases hok
  refine ⟨⟨?_, ?_⟩, ?_, h.popWord_lacking, popWord_of_lt⟩
  · rintro ⟨word, hok⟩
    exact hnarrow hok
  · rintro ⟨hc, hheld⟩
    obtain ⟨q', hq, -⟩ := h.popWord_held hc hheld
    rw [hq]
    exact ⟨_, rfl⟩
  · intro word hok
    obtain ⟨hc, hheld⟩ := hnarrow hok
    obtain ⟨q', hq, hitems, hlatches⟩ := h.popWord_held hc hheld
    rw [hq] at hok ⊢
    cases hok
    obtain ⟨hbytes, hfront⟩ := h.toNat_popped hc
    exact ⟨hbytes, hfront, hitems, hlatches⟩

/-- A push that is not served leaves the bytes as they are, and so does a pop. -/
private theorem Pushes.items_of_not {word : UInt64} {count : Nat}
    (h : Pushes capacity q bytes word count)
    (hnot : ¬ (count ≤ 8 ∧ bytes.length + count ≤ capacity)) :
    (q.pushWord word count).2.items = q.items := by
  rcases Nat.lt_or_ge 8 count with hwide | hc
  · rw [h.tooWide hwide]
  · rw [h.refused hc (by omega)]

private theorem Pops.items_of_not {count : Nat} (h : Pops q bytes count)
    (hnot : ¬ (count ≤ 8 ∧ count ≤ bytes.length)) : (q.popWord count).2.items = q.items := by
  rcases Nat.lt_or_ge 8 count with hwide | hc
  · rw [h.tooWide hwide]
  · rw [h.refused hc (by omega)]

private theorem Tracks.access (h : Tracks capacity q bytes) (a : Access) :
    Tracks capacity (a.onQueue q) (a.onList capacity bytes) := by
  cases a with
  | push word count =>
    have hp := h.pushes word count
    refine ⟨?_, tallied_pushWord h.tallied, (capacity_pushWord ..).trans h.capacity_eq⟩
    change (q.pushWord word count).2.items = if _ then _ else _
    split
    · rename_i hfits
      exact (hp.served (hp.accepted.mpr hfits)).1
    · rename_i hnot
      rw [hp.items_of_not hnot, h.items]
  | pop count =>
    have hp := h.pops count
    refine ⟨?_, tallied_popWord h.tallied, (capacity_popWord ..).trans h.capacity_eq⟩
    change (q.popWord count).2.items = if _ then _ else _
    split
    · rename_i hheld
      obtain ⟨word, hok⟩ := hp.accepted.mpr hheld
      exact (hp.served word hok).2.2.1
    · rename_i hnot
      rw [hp.items_of_not hnot, h.items]

private theorem Tracks.foldl (h : Tracks capacity q bytes) (accesses : List Access) :
    Tracks capacity (accesses.foldl Access.onQueue q)
      (accesses.foldl (Access.onList capacity) bytes) := by
  induction accesses generalizing q bytes with
  | nil => exact h
  | cons a later ih => exact ih (h.access a)

private theorem Tracks.refines (h : Tracks capacity q bytes) : Refines capacity q bytes := by
  refine ⟨h.items, h.counted, ?_, h.front, ?_, h.pushes, h.pops⟩
  · have hle := q.occupancy.entries_le
    rwa [h.counted, h.capacity_eq] at hle
  · rw [← h.items]
    exact List.length_take ..

end Steps

/-- For every capacity and every sequence of accesses, of any widths and with any words. -/
theorem accesses_refine_list (capacity : Nat) (accesses : List Access) :
    Refines capacity (queueAfter capacity accesses) (listAfter capacity accesses) :=
  ((tracks_vacant capacity).foldl accesses).refines

/-- Nothing is taken of a push that does not fit as a whole. -/
example : (queueAfter 4 [.push 0x332211 3, .push 0x5544 2, .pop 2]).items = [0x33] := by
  decide

end LogBench.Queue.ByteQueue
