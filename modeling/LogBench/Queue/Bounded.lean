import LogBench.Queue.Occupancy

/-! Queues of bounded capacity: each access is served whole or refused, and a refusal is latched.
The items and their count are kept side by side, and only the count decides what is served. -/
namespace LogBench.Queue

/-- The items stand head first. -/
structure Bounded (α : Type u) where
  items : List α
  occupancy : Occupancy
  deriving DecidableEq, Repr

namespace Bounded

variable {α : Type u}

def vacant (capacity : Nat) : Bounded α := ⟨[], .vacant capacity⟩

def capacity (q : Bounded α) : Nat := q.occupancy.capacity

def hasRoom (q : Bounded α) : Bool := !q.occupancy.isFull

def peek? (q : Bounded α) : Option α := q.items.head?

def append (q : Bounded α) (added : List α) : Except QueueError Unit × Bounded α :=
  match q.occupancy.add added.length with
  | (.ok (), occupancy) => (.ok (), ⟨q.items ++ added, occupancy⟩)
  | (.error e, occupancy) => (.error e, { q with occupancy })

def remove (q : Bounded α) (n : Nat) : Except QueueError (List α) × Bounded α :=
  match q.occupancy.remove n with
  | (.ok (), occupancy) => (.ok (q.items.take n), ⟨q.items.drop n, occupancy⟩)
  | (.error e, occupancy) => (.error e, { q with occupancy })

def push (q : Bounded α) (a : α) : Except QueueError Unit × Bounded α := q.append [a]

/-- Reports an underflow also where an item is counted that is not there. -/
def pop (q : Bounded α) : Except QueueError α × Bounded α :=
  match q.occupancy.pop with
  | (.ok (), occupancy) =>
    match q.items with
    | a :: later => (.ok a, ⟨later, occupancy⟩)
    | [] => (.error .underflow, { q with occupancy })
  | (.error e, occupancy) => (.error e, { q with occupancy })

end Bounded

end LogBench.Queue
