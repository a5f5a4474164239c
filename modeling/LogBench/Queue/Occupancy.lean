import LogBench.Fault

/-! How full a bounded queue is, and whether it has ever refused an access. -/
namespace LogBench.Queue

inductive QueueError where
  | overflow (capacity : Nat)
  | underflow
  | tooFull (entries capacity : Nat)
  | tooWide (requested : Nat)
  deriving DecidableEq, Repr

namespace QueueError

def fault : QueueError → Fault
  | overflow _ => .overflowed
  | underflow => .underflowed
  | tooFull .. | tooWide _ => .queueMisuse

def message : QueueError → String
  | overflow capacity => s!"push rejected: fifo of {capacity} entries has no room"
  | underflow => "pop rejected: fifo has too few entries"
  | tooFull entries capacity => s!"occupancy {entries} exceeds capacity {capacity}"
  | tooWide requested => s!"access of {requested} bytes exceeds the 8-byte port"

end QueueError

/-- The latches record a refused push and a refused pop, and are never cleared. -/
structure Occupancy where
  capacity : Nat
  entries : Nat
  overflowed : Bool := false
  underflowed : Bool := false
  entries_le : entries ≤ capacity
  deriving DecidableEq, Repr

namespace Occupancy

def ofParts? (capacity entries : Nat) (overflowed underflowed : Bool) :
    Except QueueError Occupancy :=
  if h : entries ≤ capacity then .ok ⟨capacity, entries, overflowed, underflowed, h⟩
  else .error (.tooFull entries capacity)

def vacant (capacity : Nat) : Occupancy where
  capacity := capacity
  entries := 0
  entries_le := Nat.zero_le _

def spaces (o : Occupancy) : Nat := o.capacity - o.entries

def isEmpty (o : Occupancy) : Bool := o.entries = 0

def isFull (o : Occupancy) : Bool := o.entries = o.capacity

/-- Counts `n` entries in if all of them fit, and else none. -/
def add (o : Occupancy) (n : Nat) : Except QueueError Unit × Occupancy :=
  if h : o.entries + n ≤ o.capacity then
    (.ok (), { o with entries := o.entries + n, entries_le := h })
  else (.error (.overflow o.capacity), { o with overflowed := true })

/-- Counts `n` entries out if all of them are held, and else none. -/
def remove (o : Occupancy) (n : Nat) : Except QueueError Unit × Occupancy :=
  if n ≤ o.entries then
    (.ok (), { o with
      entries := o.entries - n
      entries_le := Nat.le_trans (Nat.sub_le ..) o.entries_le })
  else (.error .underflow, { o with underflowed := true })

def push (o : Occupancy) : Except QueueError Unit × Occupancy := o.add 1

def pop (o : Occupancy) : Except QueueError Unit × Occupancy := o.remove 1

end Occupancy

end LogBench.Queue
