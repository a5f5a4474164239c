import LogBench.Link
import LogBench.Queue.Bounded
import LogBench.Queue.StatusWord
import LogBench.Record
import LogBench.Script.Codec

/-!
The target: a queue of record entries behind a link, which executes the scripts it is sent.
In every tick it takes one operation from the request, or answers one word, or does neither.
-/
namespace LogBench
open Link

namespace Target

/-- A read under way. Nothing of it has been answered until it has `started`; `left` elements
remain, and `offset` bytes of the first of them have been answered. -/
structure Reading where
  mode : Script.ReadMode
  shape : Script.Shape
  started : Bool
  left : Nat
  offset : Nat
  deriving DecidableEq, Repr

inductive Execution where
  | status
  | read (reading : Reading)
  deriving DecidableEq, Repr

def Execution.ofOperation : Script.Operation → Execution
  | .status => .status
  | .read mode shape => .read ⟨mode, shape, false, shape.count, 0⟩

inductive Phase where
  | idle
  /-- Waits for the bytes of the next operation. -/
  | waiting
  | executing (execution : Execution)
  /-- Holds the report of how a script ended. -/
  | ended (ending : Ending)
  deriving DecidableEq, Repr

def Phase.kind : Phase → Kind
  | idle => .idle
  | waiting | executing _ => .running
  | ended ending => ending.kind

end Target

structure Target where
  queue : Queue.Bounded (Entry 4)
  phase : Target.Phase := .idle
  request : Request := {}
  response : Response := {}

namespace Target

def defaultCapacity : Nat := 515

def vacant (capacity : Nat) : Target where
  queue := .vacant capacity

def hasRoom (t : Target) : Bool := t.queue.hasRoom

def offer (t : Target) (e : Entry 4) : Except Queue.QueueError Unit × Target :=
  let (result, queue) := t.queue.push e
  (result, { t with queue })

def offerRecord (t : Target) (r : Record) : Except Queue.QueueError Unit × Target :=
  t.offer (r.entry 4)

/-- Enters a phase and reports it, with no byte taken or answered. -/
def enter (t : Target) (phase : Phase) : Target :=
  { t with phase, response := { kind := phase.kind } }

/-- Takes the operation at the front of the request. A cut operation is left for the next
request, unless this one is the last. -/
def accept (t : Target) : Target :=
  if t.request.command.carriesBytes then
    let last := t.request.command = .dataLast
    match Script.frontOperation t.request.bytes with
    | .ok op =>
      { t with
        phase := .executing (.ofOperation op)
        response := { kind := .running, consumed := op.size } }
    | .error (.truncated _ available) =>
      if last then t.enter (.ended (if available = 0 then .completed else .errored))
      else t.enter .waiting
    | .error (.undefined _) => t.enter (.ended .errored)
  else t.enter .waiting

def payloadWord (e : Entry 4) (offset count : Nat) : UInt32 :=
  UInt32.ofNat (Bytes.littleEndian ((List.range count).map fun i => e.byteAt (offset + i)))

/-- Answers the next word of an element, and drops its entry with the last one. -/
def answer (t : Target) (r : Reading) (e : Entry 4) : Target :=
  let count := min responseBytes (r.shape.bytes - r.offset)
  let offset := r.offset + count
  let response : Response :=
    { kind := .running, valid := count, data := payloadWord e r.offset count }
  if offset < r.shape.bytes then
    { t with phase := .executing (.read { r with started := true, offset }), response }
  else
    let queue := t.queue.pop.2
    if 1 < r.left then
      let phase := .executing (.read { r with started := true, left := r.left - 1, offset := 0 })
      { t with queue, phase, response }
    else { t with queue, phase := .waiting, response }

def execute (t : Target) : Execution → Target
  | .status =>
    let response : Response := { kind := .running, valid := 4, data := t.queue.occupancy.word }
    { t with phase := .waiting, response }
  | .read r =>
    if r.started = false ∧ r.mode = .exactly ∧ t.queue.occupancy.entries < r.shape.count then
      t.enter (.ended .pollFailed)
    else
      match t.queue.peek? with
      | some e => t.answer r e
      | none => t.enter (.ended .completed)

/-- One tick: a start command restarts any script that has not ended, and an idle command
acknowledges one that has. -/
def step (t : Target) : Target :=
  match t.phase with
  | .idle => if t.request.command.starts then t.enter .waiting else t.enter .idle
  | .ended ending => if t.request.command = .idle then t.enter .idle else t.enter (.ended ending)
  | .waiting => if t.request.command.starts then t.enter .waiting else t.accept
  | .executing execution =>
    if t.request.command.starts then t.enter .waiting else t.execute execution

instance : Device Target where
  response := response
  drive t request := { t with request }
  tick := step

end Target

end LogBench
