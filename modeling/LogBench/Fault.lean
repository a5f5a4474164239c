/-! The stable fault codes that every part of the bench reports. -/
namespace LogBench

inductive Fault where
  | overflowed
  | underflowed
  | queueMisuse
  | padTooWide
  | badScript
  | notIdle
  | pollFailed
  | errored
  | unexpected
  deriving DecidableEq, Repr

namespace Fault

inductive Area where
  | queue
  | format
  | script
  | session
  | completion
  deriving DecidableEq, Repr

/-- The byte under which a fault is reported; zero is no fault. -/
def code : Fault → Nat
  | overflowed => 1
  | underflowed => 2
  | queueMisuse => 3
  | padTooWide => 4
  | badScript => 5
  | notIdle => 6
  | pollFailed => 7
  | errored => 8
  | unexpected => 9

def ofCode? : Nat → Option Fault
  | 1 => some overflowed
  | 2 => some underflowed
  | 3 => some queueMisuse
  | 4 => some padTooWide
  | 5 => some badScript
  | 6 => some notIdle
  | 7 => some pollFailed
  | 8 => some errored
  | 9 => some unexpected
  | _ => none

def area : Fault → Area
  | overflowed | underflowed | queueMisuse => .queue
  | padTooWide => .format
  | badScript => .script
  | notIdle => .session
  | pollFailed | errored | unexpected => .completion

/-- Whether the caller broke a promise, rather than the target reporting an outcome. -/
def isMisuse : Fault → Bool
  | queueMisuse | padTooWide | badScript => true
  | _ => false

def message : Fault → String
  | overflowed => "fifo overflowed"
  | underflowed => "fifo underflowed"
  | queueMisuse => "invalid fifo access"
  | padTooWide => "dprintf pad width out of range"
  | badScript => "invalid debug script"
  | notIdle => "debug target not idle"
  | pollFailed => "debug target poll failed"
  | errored => "debug target errored"
  | unexpected => "unexpected debug target response"

end Fault

end LogBench
