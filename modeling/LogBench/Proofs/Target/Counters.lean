import LogBench.Proofs.Target.Reachable

/-!
The counters of a read fit into words, two of eight bits and one of 32: in every reachable target no
difference of them borrows and no sum of them carries, and a tick moves the words as it moves the numbers.
-/
namespace LogBench.Target

open Link Script

/-- The counters of a read in words, whose sums and differences wrap around. -/
structure Counters where
  bytes : UInt8
  offset : UInt8
  left : UInt32
  deriving DecidableEq, Repr

namespace Counters

variable (c : Counters)

def remaining : UInt8 := c.bytes - c.offset

def chunk : UInt8 := if c.remaining ≤ 4 then c.remaining else 4

def reached : UInt8 := c.offset + c.chunk

def fewer : UInt32 := c.left - 1

/-- The counters once the next bytes are answered, if they are not the last ones. -/
def next? : Option Counters :=
  if c.reached < c.bytes then some { c with offset := c.reached }
  else if 1 < c.left then some { c with left := c.fewer, offset := 0 }
  else none

end Counters

def Reading.counters (r : Reading) : Counters where
  bytes := .ofNat r.shape.bytes
  offset := .ofNat r.offset
  left := .ofNat r.left

def Phase.counters? : Phase → Option Counters
  | .executing (.read r) => some r.counters
  | _ => none

/-- The words stand for the numbers, and so do their differences and sums. -/
structure Reading.InWords (r : Reading) : Prop where
  bytes : r.counters.bytes.toNat = r.shape.bytes
  offset : r.counters.offset.toNat = r.offset
  left : r.counters.left.toNat = r.left
  remaining : r.counters.remaining.toNat + r.offset = r.shape.bytes
  chunk : r.counters.chunk.toNat = min responseBytes (r.shape.bytes - r.offset)
  reached : r.counters.reached.toNat = r.offset + r.counters.chunk.toNat
  fewer : r.counters.fewer.toNat + 1 = r.left

structure Reading.Represented (r : Reading) (t : Target) : Prop where
  bytes : 1 ≤ r.shape.bytes ∧ r.shape.bytes ≤ 64
  count : 1 ≤ r.shape.count ∧ r.shape.count ≤ 65536
  sound : r.Sound t.queue
  words : r.InWords
  /-- A tick that answers bytes answers as many as the words say, and moves the words on. -/
  next : t.step.response.valid ≠ 0 → t.step.response.valid = r.counters.chunk.toNat ∧
    t.step.phase.counters? = r.counters.next?

structure Represented (t : Target) : Prop where
  reading : ∀ r, t.phase = .executing (.read r) → r.Represented t
  /-- What can be looked at can be popped. -/
  pop : ∀ e, t.queue.peek? = some e → t.queue.pop.1 = .ok e
  /-- An operation is taken off the bytes that are there, and its size is a word of eight bits. -/
  consumed : ∀ op, frontOperation t.request.bytes = .ok op →
    op.size ≤ t.request.bytes.length ∧ (UInt8.ofNat op.size).toNat = op.size

section Words

variable {r : Reading} {queue : Queue.Bounded (Entry 4)}

private theorem toNat_ofNat_byte {n : Nat} (h : n ≤ 64) : (UInt8.ofNat n).toNat = n := by
  rw [UInt8.toNat_ofNat']
  omega

private theorem toNat_ofNat_count {n : Nat} (h : n ≤ 65536) : (UInt32.ofNat n).toNat = n := by
  rw [UInt32.toNat_ofNat']
  omega

namespace Reading.Sound

private theorem toNat_bytes (r : Reading) : r.counters.bytes.toNat = r.shape.bytes :=
  toNat_ofNat_byte r.shape.bytes_le

private theorem offset_le (h : r.Sound queue) : r.offset ≤ 64 :=
  Nat.le_of_lt (Nat.lt_of_lt_of_le h.offset_lt r.shape.bytes_le)

private theorem toNat_offset (h : r.Sound queue) : r.counters.offset.toNat = r.offset :=
  toNat_ofNat_byte h.offset_le

private theorem toNat_left (h : r.Sound queue) : r.counters.left.toNat = r.left :=
  toNat_ofNat_count (Nat.le_trans h.left_le r.shape.count_le)

private theorem toNat_remaining (h : r.Sound queue) :
    r.counters.remaining.toNat = r.shape.bytes - r.offset := by
  have hle : r.counters.offset ≤ r.counters.bytes := by
    rw [UInt8.le_iff_toNat_le, h.toNat_offset, toNat_bytes]
    exact Nat.le_of_lt h.offset_lt
  rw [Counters.remaining, UInt8.toNat_sub_of_le _ _ hle, toNat_bytes, h.toNat_offset]

private theorem toNat_chunk (h : r.Sound queue) :
    r.counters.chunk.toNat = min responseBytes (r.shape.bytes - r.offset) := by
  have hremaining := h.toNat_remaining
  rw [Counters.chunk]
  split
  · rename_i hle
    rw [UInt8.le_iff_toNat_le, hremaining] at hle
    rw [hremaining]
    exact (Nat.min_eq_right hle).symm
  · rename_i hlt
    rw [UInt8.le_iff_toNat_le, hremaining] at hlt
    exact (Nat.min_eq_left (Nat.le_of_lt (Nat.not_le.mp hlt))).symm

/-- The bytes that are answered are bytes of the element, so their number does not wrap around. -/
private theorem toNat_reached (h : r.Sound queue) :
    r.counters.reached.toNat = r.offset + r.counters.chunk.toNat := by
  have hlt := h.offset_lt
  have hle := r.shape.bytes_le
  rw [Counters.reached, UInt8.toNat_add, h.toNat_offset, h.toNat_chunk]
  exact Nat.mod_eq_of_lt (by omega)

private theorem toNat_fewer (h : r.Sound queue) : r.counters.fewer.toNat = r.left - 1 := by
  have hle : 1 ≤ r.counters.left := by
    rw [UInt32.le_iff_toNat_le, h.toNat_left]
    exact h.left_pos
  rw [Counters.fewer, UInt32.toNat_sub_of_le _ _ hle, h.toNat_left]
  rfl

private theorem inWords (h : r.Sound queue) : r.InWords where
  bytes := toNat_bytes r
  offset := h.toNat_offset
  left := h.toNat_left
  remaining := by
    rw [h.toNat_remaining, Nat.sub_add_cancel (Nat.le_of_lt h.offset_lt)]
  chunk := h.toNat_chunk
  reached := h.toNat_reached
  fewer := by
    rw [h.toNat_fewer, Nat.sub_add_cancel h.left_pos]

private theorem next?_of_chunk (h : r.Sound queue) (hlt : r.offset + 4 < r.shape.bytes) :
    r.counters.next? = some r.afterChunk.counters := by
  have hreached : r.counters.reached.toNat = r.offset + 4 := by
    rw [h.toNat_reached, h.toNat_chunk]
    unfold responseBytes
    omega
  have hmore : r.counters.reached < r.counters.bytes := by
    rwa [UInt8.lt_iff_toNat_lt, hreached, toNat_bytes]
  have hword : r.counters.reached = .ofNat (r.offset + 4) := by
    rw [← UInt8.toNat_inj, hreached, toNat_ofNat_byte]
    exact Nat.le_trans (Nat.le_of_lt hlt) r.shape.bytes_le
  rw [Counters.next?, if_pos hmore, hword]
  rfl

private theorem next?_of_element (h : r.Sound queue) (hle : r.shape.bytes ≤ r.offset + 4) :
    r.counters.next? = r.afterElement.counters? := by
  have hreached : r.counters.reached.toNat = r.shape.bytes := by
    have hlt := h.offset_lt
    rw [h.toNat_reached, h.toNat_chunk]
    unfold responseBytes
    omega
  have hdone : ¬ r.counters.reached < r.counters.bytes := by
    rw [UInt8.lt_iff_toNat_lt, hreached, toNat_bytes]
    exact Nat.lt_irrefl _
  have hleft : 1 < r.counters.left ↔ 1 < r.left := by
    rw [UInt32.lt_iff_toNat_lt, h.toNat_left]
    rfl
  have hfewer : r.counters.fewer = .ofNat (r.left - 1) := by
    rw [← UInt32.toNat_inj, h.toNat_fewer, toNat_ofNat_count]
    exact Nat.le_trans (Nat.sub_le ..) (Nat.le_trans h.left_le r.shape.count_le)
  rw [Counters.next?, if_neg hdone, afterElement]
  by_cases hmore : 1 < r.left
  · rw [if_pos (hleft.mpr hmore), if_pos hmore, hfewer]
    rfl
  · rw [if_neg (mt hleft.mp hmore), if_neg hmore]
    rfl

end Reading.Sound

end Words

/-- A tick that answers bytes of a read moves the words as it moves the numbers. -/
theorem Move.counters {t t' : Target} (hm : Move t t') {r : Reading}
    (hp : t.phase = .executing (.read r)) (h : r.Sound t.queue) (hv : t'.response.valid ≠ 0) :
    t'.response.valid = r.counters.chunk.toNat ∧ t'.phase.counters? = r.counters.next? := by
  cases hm with
  | enter => exact absurd rfl hv
  | decode hp' | report hp' => cases hp.symm.trans hp'
  | chunk hp' _ _ _ hlt =>
    cases hp.symm.trans hp'
    refine ⟨?_, (h.next?_of_chunk hlt).symm⟩
    rw [h.toNat_chunk]
    change 4 = min 4 _
    omega
  | element hp' _ _ _ hle =>
    cases hp.symm.trans hp'
    refine ⟨?_, (h.next?_of_element hle).symm⟩
    rw [h.toNat_chunk]
    change r.shape.bytes - r.offset = min 4 _
    omega

private theorem Sound.represented {t : Target} (h : t.Sound) : Represented t where
  reading r hp :=
    { bytes := ⟨r.shape.bytes_pos, r.shape.bytes_le⟩
      count := ⟨r.shape.count_pos, r.shape.count_le⟩
      sound := h.reading r hp
      words := (h.reading r hp).inWords
      next := t.step_move.counters hp (h.reading r hp) }
  pop e he := by
    obtain ⟨later, hi⟩ := eq_cons_of_peek? he
    rw [h.tallied.pop_eq hi]
  consumed op hf := by
    obtain ⟨rest, hrest⟩ := exists_append_of_frontOperation hf
    refine ⟨?_, by cases op <;> rfl⟩
    rw [hrest, List.length_append, op.length_encode]
    exact Nat.le_add_right ..

/-- Holds after every sequence of offers, requests and ticks, with any requests. -/
theorem counters_stay_in_range (capacity : Nat) (actions : List Action) :
    Represented (actions.foldl act (vacant capacity)) :=
  ((sound_vacant capacity).foldl actions).represented

end LogBench.Target
