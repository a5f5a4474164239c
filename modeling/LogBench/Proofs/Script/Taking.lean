import LogBench.Proofs.Target.Outlook

/-! What a read takes: the first entries of the queue, in order, with the words of their elements one
element after the other. -/
namespace LogBench.Script
open Target

variable {queue : Queue.Bounded (Entry 4)}

structure Takes (bytes count : Nat) (queue : Queue.Bounded (Entry 4)) : Prop where
  words : (takeElements bytes count queue).1 =
    (queue.items.take count).flatMap (elementWords · bytes)
  items : (takeElements bytes count queue).2.1.items = queue.items.drop count

private theorem takes_elements (h : queue.Tallied) (bytes count : Nat) :
    Takes bytes count queue := by
  induction count generalizing queue with
  | zero => exact ⟨rfl, rfl⟩
  | succ count ih =>
    cases hi : queue.items with
    | nil =>
      have hpeek : queue.peek? = none := by rw [Queue.Bounded.peek?, hi]; rfl
      constructor
      · rw [takeElements_of_empty hpeek, hi]
        rfl
      · rw [takeElements_of_empty hpeek, hi]
        rfl
    | cons e later =>
      have hpeek : queue.peek? = some e := by rw [Queue.Bounded.peek?, hi]; rfl
      have hpop : queue.pop.2.items = later := by rw [h.pop_eq hi]
      have hlater := ih (h.pop hi)
      constructor
      · rw [takeElements_of_head hpeek, hlater.words, hpop, hi, List.take_succ_cons,
          List.flatMap_cons]
      · rw [takeElements_of_head hpeek, hi, List.drop_succ_cons, ← hpop]
        exact hlater.items

private theorem reduceOption_map_some (words : List UInt32) :
    (words.map some).reduceOption = words := by
  induction words with
  | nil => rfl
  | cons word words ih =>
    rw [List.map_cons, reduceOption_cons, ih]
    rfl

/-- A script of one read is answered to its end, whether the entries run out or not. -/
theorem meaning_encode_upTo (queue : Queue.Bounded (Entry 4)) (shape : Shape) :
    meaning queue (encode [.read .upTo shape]) =
      ⟨.completed, none :: (takeElements shape.bytes shape.count queue).1.map some,
        (takeElements shape.bytes shape.count queue).2.1⟩ := by
  have hfront := frontOperation_encode (.read .upTo shape) []
  have hdrop : (Operation.encode (.read .upTo shape) ++ []).drop
      (Operation.size (.read .upTo shape)) = [] := List.drop_left' (Operation.length_encode _)
  rw [encode, List.flatMap_cons, List.flatMap_nil, meaning_of_decoded hfront, hdrop]
  simp only [Execution.ofOperation, Execution.outlook, Reading.outlook, reduceCtorEq, false_and,
    and_false, if_false]
  generalize takeElements shape.bytes shape.count queue = taken
  obtain ⟨words, left, short⟩ := taken
  -- A read that runs short ends the script, and behind a whole one the empty rest does.
  cases short with
  | true => rfl
  | false =>
    change ((meaning left []).after (words.map some)).after [none] = _
    rw [meaning]
    exact congrArg (Meaning.mk _ · _) (congrArg (none :: ·) (List.append_nil _))

structure MeansRead (shape : Shape) (queue : Queue.Bounded (Entry 4)) (m : Meaning) : Prop where
  ending : m.ending = .completed
  words : m.words = (queue.items.take shape.count).flatMap (elementWords · shape.bytes)
  requests : m.requests = m.words.length + 2
  items : m.queue.items = queue.items.drop shape.count

theorem meaning_read (h : queue.Tallied) (shape : Shape) :
    MeansRead shape queue (meaning queue (encode [.read .upTo shape])) := by
  have htakes := takes_elements h shape.bytes shape.count
  have hwords : (none :: (takeElements shape.bytes shape.count queue).1.map some).reduceOption =
      (takeElements shape.bytes shape.count queue).1 := by
    rw [reduceOption_cons, Option.toList_none, List.nil_append, reduceOption_map_some]
  rw [meaning_encode_upTo]
  refine ⟨rfl, hwords.trans htakes.words, ?_, htakes.items⟩
  rw [Meaning.requests_eq]
  change _ = List.length (List.reduceOption _) + 2
  rw [hwords, List.length_cons, List.length_map]

end LogBench.Script
