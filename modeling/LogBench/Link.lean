import LogBench.Bytes
import LogBench.Fault

/-! The registers between a controller and a target, exchanged once a tick. -/
namespace LogBench.Link

inductive Command where
  | idle
  | start
  /-- Starts a script and forgets what the target was doing. -/
  | startClear
  /-- Carries script bytes, with more to follow. -/
  | data
  /-- Carries the last script bytes; no byte at all ends the script. -/
  | dataLast
  deriving DecidableEq, Repr

namespace Command

def code : Command → Nat
  | idle => 0
  | start => 1
  | startClear => 2
  | data => 3
  | dataLast => 4

def ofCode? (n : Nat) : Option Command :=
  [idle, start, startClear, data, dataLast].find? (·.code = n)

def carriesBytes : Command → Bool
  | data | dataLast => true
  | _ => false

def starts : Command → Bool
  | start | startClear => true
  | _ => false

end Command

inductive Kind where
  | idle
  | running
  | completed
  | pollFailed
  | errored
  deriving DecidableEq, Repr

namespace Kind

def code : Kind → Nat
  | idle => 0
  | running => 1
  | completed => 2
  | pollFailed => 3
  | errored => 4

def ofCode? (n : Nat) : Option Kind :=
  [idle, running, completed, pollFailed, errored].find? (·.code = n)

def name : Kind → String
  | idle => "Idle"
  | running => "Running"
  | completed => "Completed"
  | pollFailed => "PollFailed"
  | errored => "Errored"

end Kind

inductive Ending where
  | completed
  | pollFailed
  | errored
  deriving DecidableEq, Repr

def Ending.kind : Ending → Kind
  | completed => .completed
  | pollFailed => .pollFailed
  | errored => .errored

def Kind.isEnding : Kind → Bool
  | completed | pollFailed | errored => true
  | idle | running => false

def requestBytes : Nat := 6

def responseBytes : Nat := 4

/-- With a command that carries bytes, `valid` counts them; they stand in `data`, the first one
least significant. -/
structure Request where
  command : Command := .idle
  valid : Nat := 0
  data : UInt64 := 0
  deriving DecidableEq, Repr

namespace Request

def bytes (r : Request) : List UInt8 :=
  if r.command.carriesBytes then Bytes.toLittleEndian (min r.valid requestBytes) r.data.toNat
  else []

end Request

structure Response where
  kind : Kind := .idle
  /-- The script bytes taken from the request. -/
  consumed : Nat := 0
  /-- The low bytes of `data` that mean something. -/
  valid : Nat := 0
  data : UInt32 := 0
  deriving DecidableEq, Repr

namespace Response

/-- The returned word, cut down to its valid bytes. -/
def word? (r : Response) : Option UInt32 :=
  if 0 < r.valid ∧ r.valid ≤ responseBytes then
    some (UInt32.ofNat (r.data.toNat % 256 ^ r.valid))
  else none

end Response

/-- A target seen through its registers: a tick samples the request that was driven last, and
the response is the one after the last tick. -/
class Device (σ : Type u) where
  response : σ → Response
  drive : σ → Request → σ
  tick : σ → σ

end LogBench.Link
