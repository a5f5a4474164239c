import LogBench.Fault

/-! The operations of a debug script, and the shapes of the reads among them. -/
namespace LogBench.Script

inductive ShapeError where
  | badWidth (bits : Nat)
  | badCount (count : Nat)
  deriving DecidableEq, Repr

namespace ShapeError

def fault (_ : ShapeError) : Fault := .badScript

def message : ShapeError → String
  | badWidth bits => s!"read width {bits} is not a multiple of 8 in 8..=512"
  | badCount count => s!"read count {count} is outside 1..=65536"

end ShapeError

def maxWidthBits : Nat := 512

def maxCount : Nat := 65536

structure Shape where
  bytes : Nat
  count : Nat
  bytes_pos : 0 < bytes
  bytes_le : bytes ≤ 64
  count_pos : 0 < count
  count_le : count ≤ 65536
  deriving DecidableEq, Repr

namespace Shape

def bits (s : Shape) : Nat := 8 * s.bytes

/-- A bad width is reported before a bad count. -/
def ofBits? (bits count : Nat) : Except ShapeError Shape :=
  if hb : bits ≠ 0 ∧ bits % 8 = 0 ∧ bits ≤ maxWidthBits then
    if hc : count ≠ 0 ∧ count ≤ maxCount then
      .ok {
        bytes := bits / 8
        count := count
        bytes_pos := by omega
        bytes_le := by have := hb.2.2; unfold maxWidthBits at this; omega
        count_pos := by omega
        count_le := hc.2 }
    else .error (.badCount count)
  else .error (.badWidth bits)

theorem ofBits?_bits (s : Shape) : ofBits? s.bits s.count = .ok s := by
  have hb := s.bytes_pos
  have hl := s.bytes_le
  have hc := s.count_pos
  have hd := s.count_le
  have hq : s.bits / 8 = s.bytes := by unfold bits; omega
  rw [ofBits?, dif_pos (by unfold bits maxWidthBits; omega), dif_pos (by unfold maxCount; omega)]
  simp [hq]

end Shape

inductive ReadMode where
  /-- Ends the script where the entries run out. -/
  | upTo
  /-- Fails at once where there are too few entries. -/
  | exactly
  deriving DecidableEq, Repr

inductive Operation where
  /-- Asks for the status word of the queue. -/
  | status
  /-- Takes entries off the queue, and asks for their first bytes. -/
  | read (mode : ReadMode) (shape : Shape)
  deriving DecidableEq, Repr

end LogBench.Script

namespace LogBench

abbrev Script := List Script.Operation

end LogBench
