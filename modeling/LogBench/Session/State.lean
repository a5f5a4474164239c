import LogBench.Session.Basic

/-!
The state of a session: a controller sends the bytes of a script to a target and collects the words
it answers. Every tick is kept with its request and its response.
-/
namespace LogBench.Session
open Link

/-- A session under way: the script bytes that the target has not taken, the idle pulses still to
insert, the questions that the policy has answered, what is left of the budget, the words
collected, the number of ticks, and the request and response of each. -/
structure State (σ : Type u) where
  device : σ
  pending : List UInt8
  idles : Nat
  questions : Nat
  budget : Nat
  words : Array UInt32
  ticks : Nat
  exchanges : Array (Request × Response)

def dataRequest (pending : List UInt8) : Request :=
  let bytes := pending.take requestBytes
  { command := if pending.length > requestBytes then .data else .dataLast
    valid := bytes.length
    data := UInt64.ofNat (Bytes.littleEndian bytes) }

/-- An idle pulse carries the low three bits of the number of pulses to come. -/
def idleRequest (settings : Settings) (idles : Nat) : Request :=
  { command := .idle, valid := idles % 8, data := settings.sentinel }

namespace State

variable {σ : Type u}

def ask (s : State σ) (policy : IdlePolicy) : State σ :=
  { s with idles := policy s.questions, questions := s.questions + 1 }

/-- Drops one pending byte for each that the target took, and asks the policy after each. -/
def consume (s : State σ) (policy : IdlePolicy) : Nat → State σ
  | 0 => s
  | n + 1 => consume ({ s with pending := s.pending.tail }.ask policy) policy n

def collect (s : State σ) (response : Response) : State σ :=
  match response.word? with
  | some word => { s with words := s.words.push word }
  | none => s

theorem idles_consume_noIdles (s : State σ) (h : s.idles = 0) (n : Nat) :
    (s.consume noIdles n).idles = 0 := by
  induction n generalizing s with
  | zero => exact h
  | succ n ih => exact ih _ rfl

theorem budget_consume (s : State σ) (policy : IdlePolicy) (n : Nat) :
    (s.consume policy n).budget = s.budget := by
  induction n generalizing s with
  | zero => rfl
  | succ n ih => exact ih _

theorem idles_collect (s : State σ) (r : Response) : (s.collect r).idles = s.idles := by
  unfold collect
  split <;> rfl

theorem budget_collect (s : State σ) (r : Response) : (s.collect r).budget = s.budget := by
  unfold collect
  split <;> rfl

variable [Device σ]

def pulse (s : State σ) (request : Request) : State σ :=
  let device := Device.tick (Device.drive s.device request)
  { s with
    device
    ticks := s.ticks + 1
    exchanges := s.exchanges.push (request, Device.response device) }

/-- The state before the first turn: the target is told to start, and given one idle tick. -/
def start (device : σ) (settings : Settings) (script : List UInt8) (policy : IdlePolicy) :
    State σ :=
  let s : State σ :=
    { device, pending := script, idles := 0, questions := 0, budget := settings.budget,
      words := #[], ticks := 0, exchanges := #[] }
  ((s.pulse { command := .startClear }).pulse {}).ask policy

end State

end LogBench.Session
