import LogBench.Session.Run
import LogBench.Target

/-! The bench: queues records in a fresh target, runs one script on it, and reports. -/
namespace LogBench.Bench

/-- A target that was offered records, and how many of them it queued and refused. -/
structure Load where
  target : Target
  queued : Nat := 0
  dropped : Nat := 0

def Load.offer (l : Load) (r : Record) : Load :=
  match l.target.offerRecord r with
  | (.ok (), target) => { l with target, queued := l.queued + 1 }
  | (.error _, target) => { l with target, dropped := l.dropped + 1 }

def load (capacity : Nat) (records : List Record) : Load :=
  records.foldl Load.offer { target := .vacant capacity }

def drain (records : List Record) (script : Script) (capacity : Nat)
    (settings : Session.Settings) :
    Except (Session.Refused Target) (Session.Finished Target) :=
  Session.invoke (load capacity records).target settings (Script.encode script)

structure Report where
  completion : Session.Completion
  words : List UInt32
  ticks : Nat
  queued : Nat
  dropped : Nat
  /-- The status of the queue after the session, as its status word tells it. -/
  status : Queue.StatusWord
  deriving DecidableEq, Repr

def run (records : List Record) (script : Script) (capacity : Nat) (settings : Session.Settings) :
    Except Session.NotIdle Report := do
  let finished ← (drain records script capacity settings).mapError Session.Refused.toNotIdle
  let loaded := load capacity records
  return {
    completion := finished.outcome.completion
    words := finished.outcome.words
    ticks := finished.outcome.ticks
    queued := loaded.queued
    dropped := loaded.dropped
    status := .ofWord finished.device.queue.occupancy.word }

end LogBench.Bench
