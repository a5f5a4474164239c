import LogBench.Bytes
import LogBench.Queue.Bounded

/-! Byte queues accessed in words of up to eight bytes, the earliest byte least significant. -/
namespace LogBench.Queue

abbrev ByteQueue := Bounded UInt8

namespace ByteQueue

def accessWidth : Nat := 8

def pack (bytes : List UInt8) : UInt64 := UInt64.ofNat (Bytes.littleEndian bytes)

/-- Appends the `count` low bytes of a word. Too wide an access leaves the latches alone. -/
def pushWord (q : ByteQueue) (word : UInt64) (count : Nat) : Except QueueError Unit × ByteQueue :=
  if count ≤ accessWidth then q.append (Bytes.toLittleEndian count word.toNat)
  else (.error (.tooWide count), q)

/-- The first bytes packed into a word, and how many of them are held. -/
def front (q : ByteQueue) : UInt64 × Nat :=
  let bytes := q.items.take accessWidth
  (pack bytes, bytes.length)

def popWord (q : ByteQueue) (count : Nat) : Except QueueError UInt64 × ByteQueue :=
  if count ≤ accessWidth then
    let (result, later) := q.remove count
    (result.map pack, later)
  else (.error (.tooWide count), q)

end ByteQueue

end LogBench.Queue
