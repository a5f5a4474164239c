import LogBench.Link

/-! What a session is told beforehand, and how it comes out. -/
namespace LogBench.Session
open Link

structure Settings where
  /-- How many data requests may be sent. -/
  budget : Nat := 1000
  /-- The word on the data register during the idle pulses between data requests. -/
  sentinel : UInt64 := 0xDEADBEEF
  deriving DecidableEq, Repr

inductive Completion where
  | ok
  | errored
  | pollFailed
  /-- The target had not ended the script when the session did. -/
  | unexpected
  deriving DecidableEq, Repr

namespace Completion

def ofKind : Kind → Completion
  | .completed => ok
  | .errored => errored
  | .pollFailed => pollFailed
  | .idle | .running => unexpected

def fault? : Completion → Option Fault
  | ok => none
  | errored => some .errored
  | pollFailed => some .pollFailed
  | unexpected => some .unexpected

def name : Completion → String
  | ok => "ok"
  | errored => "errored"
  | pollFailed => "poll_failed"
  | unexpected => "unexpected"

end Completion

structure NotIdle where
  observed : Kind
  deriving DecidableEq, Repr

namespace NotIdle

def fault (_ : NotIdle) : Fault := .notIdle

def message (e : NotIdle) : String :=
  s!"debug target not idle (response {e.observed.name})"

end NotIdle

/-- A session that did not start, with the device as it is left. -/
structure Refused (σ : Type u) extends NotIdle where
  device : σ

instance {σ : Type u} : CoeOut (Refused σ) NotIdle := ⟨Refused.toNotIdle⟩

/-- How many idle pulses to insert, by the number of earlier questions. -/
abbrev IdlePolicy := Nat → Nat

def noIdles : IdlePolicy := fun _ => 0

structure Outcome where
  completion : Completion
  words : List UInt32
  ticks : Nat
  deriving DecidableEq, Repr

end LogBench.Session
