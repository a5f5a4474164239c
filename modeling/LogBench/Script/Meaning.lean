import LogBench.Entry
import LogBench.Link
import LogBench.Queue.Bounded
import LogBench.Queue.StatusWord
import LogBench.Script.Codec

/-!
What a script means for a queue of entries: how it ends, the words it yields and the entries it
takes, with no reference to links and ticks.
-/
namespace LogBench.Script

/-- What an execution comes to. It answers each operation that it decodes with no word, and
then yields the words of the operation one by one. -/
structure Meaning where
  ending : Link.Ending
  answers : List (Option UInt32)
  queue : Queue.Bounded (Entry 4)

namespace Meaning

def words (m : Meaning) : List UInt32 := m.answers.reduceOption

def decoded (m : Meaning) : Nat := m.answers.count none

/-- How many requests it takes to read the answers and the ending. -/
def requests (m : Meaning) : Nat := m.decoded + m.words.length + 1

def after (m : Meaning) (earlier : List (Option UInt32)) : Meaning :=
  { m with answers := earlier ++ m.answers }

end Meaning

/-- The words of an element of `bytes` bytes: four bytes to a word, the first least significant. -/
def elementWords (e : Entry 4) (bytes : Nat) : List UInt32 :=
  (List.range ((bytes + 3) / 4)).map fun i =>
    UInt32.ofNat (Bytes.littleEndian
      ((List.range (min 4 (bytes - 4 * i))).map fun j => e.byteAt (4 * i + j)))

/-- Takes up to `count` entries: the words of their elements, the queue without them, and whether
the entries ran out. -/
def takeElements (bytes : Nat) :
    Nat → Queue.Bounded (Entry 4) → List UInt32 × Queue.Bounded (Entry 4) × Bool
  | 0, queue => ([], queue, false)
  | count + 1, queue =>
    match queue.peek? with
    | none => ([], queue, true)
    | some e =>
      let (words, later, short) := takeElements bytes count queue.pop.2
      (elementWords e bytes ++ words, later, short)

/-- The meaning of a script, well formed or not. A read that runs out of entries ends it. -/
def meaning (queue : Queue.Bounded (Entry 4)) : List UInt8 → Meaning
  | [] => ⟨.completed, [], queue⟩
  | b :: rest =>
    match frontOperation (b :: rest) with
    | .error _ => ⟨.errored, [], queue⟩
    | .ok op =>
      let later := (b :: rest).drop op.size
      match op with
      | .status => (meaning queue later).after [none, some queue.occupancy.word]
      | .read mode shape =>
        if mode = .exactly ∧ queue.items.length < shape.count then ⟨.pollFailed, [none], queue⟩
        else
          match takeElements shape.bytes shape.count queue with
          | (words, queue, true) => ⟨.completed, none :: words.map some, queue⟩
          | (words, queue, false) => (meaning queue later).after (none :: words.map some)
  termination_by bytes => bytes.length
  decreasing_by
    all_goals
      have := op.size_pos
      simp only [List.length_drop, List.length_cons]
      omega

end LogBench.Script
