import LogBench.Proofs.Session.Transcript
import LogBench.Proofs.Session.Window

/-! The requests that a session sends, told by the responses that it has read before each of them,
whatever the device: how a script is cut into data requests, and where idle pulses stand between. -/
namespace LogBench.Session
open Link

def bytesTaken (seen : List Response) : Nat := seen.foldl (fun n r => n + r.consumed) 0

def sentSince (seen : List Response) : Nat :=
  (seen.tail.reverse.takeWhile fun r => r.consumed = 0).length

/-- The idle pulses to insert before the next data request. The policy is asked once at the start
and again for each byte taken; its last answer counts, less one for each request sent since. -/
def idlesDue (policy : IdlePolicy) (seen : List Response) : Nat :=
  policy (bytesTaken seen) - sentSince seen

/-- A data request with the first bytes of what is pending, in the low bytes of its word. It is the
last one if no more bytes are pending than it has room for. -/
structure Shows (request : Request) (pending : List UInt8) : Prop where
  command : request.command = if 6 < pending.length then .data else .dataLast
  valid : request.valid = min 6 pending.length
  bytes : request.bytes = pending.take 6
  data_lt : request.data.toNat < 256 ^ min 6 pending.length

inductive Sent (settings : Settings) (script : List UInt8) (policy : IdlePolicy)
    (seen : List Response) : Request → Prop
  | idle : 0 < idlesDue policy seen → Sent settings script policy seen
      { command := .idle, valid := idlesDue policy seen % 8, data := settings.sentinel }
  | data {request : Request} : idlesDue policy seen = 0 →
      Shows request (script.drop (bytesTaken seen)) → Sent settings script policy seen request

/-- Each of the requests was sent once the responses up to its own place were read; the responses
have one more, to the last request. -/
def Paced (settings : Settings) (script : List UInt8) (policy : IdlePolicy)
    (seen : List Response) (body : List Request) : Prop :=
  seen.length = body.length + 1 ∧
    ∀ j (hj : j < body.length), Sent settings script policy (seen.take (j + 1)) body[j]

private theorem shows_dataRequest (pending : List UInt8) : Shows (dataRequest pending) pending where
  command := rfl
  valid := List.length_take
  bytes := bytes_dataRequest pending
  data_lt := by
    have hlt := Bytes.littleEndian_lt (pending.take requestBytes)
    rw [data_dataRequest]
    rwa [List.length_take] at hlt

private theorem bytesTaken_append (seen : List Response) (r : Response) :
    bytesTaken (seen ++ [r]) = bytesTaken seen + r.consumed := by
  simp only [bytesTaken, List.foldl_append, List.foldl_cons, List.foldl_nil]

variable {policy : IdlePolicy} {seen : List Response} {r : Response}

/-- A byte taken starts the count anew. -/
private theorem idlesDue_of_consumed (h : r.consumed ≠ 0) :
    idlesDue policy (seen ++ [r]) = policy (bytesTaken seen + r.consumed) := by
  have hs : sentSince (seen ++ [r]) = 0 := by
    cases seen with
    | nil => rfl
    | cons first later => simp [sentSince, h]
  rw [idlesDue, hs, bytesTaken_append, Nat.sub_zero]

def idlesLeft (policy : IdlePolicy) : List Response → Nat
  | [] => policy 0
  | seen => idlesDue policy seen - 1

private theorem idlesLeft_of_ne_nil (h : seen ≠ []) :
    idlesLeft policy seen = idlesDue policy seen - 1 := by
  cases seen with
  | nil => exact absurd rfl h
  | cons => rfl

private theorem idlesDue_of_unconsumed (h : r.consumed = 0) :
    idlesDue policy (seen ++ [r]) = idlesLeft policy seen := by
  cases seen with
  | nil => simp [idlesDue, idlesLeft, bytesTaken, sentSince, h]
  | cons first later =>
    have hs : sentSince (first :: later ++ [r]) = sentSince (first :: later) + 1 := by
      simp [sentSince, h]
    rw [idlesLeft_of_ne_nil (List.cons_ne_nil first later), idlesDue, idlesDue, hs,
      bytesTaken_append, h, Nat.add_zero, Nat.sub_sub]

variable {settings : Settings} {script : List UInt8} {body : List Request}

private theorem Paced.snoc {request : Request} (h : Paced settings script policy seen body)
    (hs : Sent settings script policy seen request) (r : Response) :
    Paced settings script policy (seen ++ [r]) (body ++ [request]) := by
  obtain ⟨hlen, hsent⟩ := h
  refine ⟨by simp [hlen], fun j hj => ?_⟩
  rw [List.take_append_of_le_length (by simp at hj; omega)]
  by_cases hlt : j < body.length
  · rw [List.getElem_append_left hlt]
    exact hsent j hlt
  · have hj' : j = body.length := by simp at hj; omega
    subst hj'
    rw [List.take_of_length_le (by omega), List.getElem_append_right (Nat.le_refl _)]
    simpa using hs

namespace State

variable {σ : Type u} (s : State σ)

private theorem idles_consume_succ (policy : IdlePolicy) (n : Nat) :
    (s.consume policy (n + 1)).idles = policy (s.questions + n) := by
  induction n generalizing s with
  | zero => rfl
  | succ n ih =>
    rw [consume, ih]
    simp only [ask, Nat.add_assoc, Nat.add_comm 1 n]

private theorem questions_collect (r : Response) : (s.collect r).questions = s.questions := by
  rw [collect_eq]

variable [Device σ]

theorem questions_heard (policy : IdlePolicy) :
    (s.heard policy).questions = s.questions + (Device.response s.device).consumed := by
  rw [heard, consume_eq, questions_collect]

theorem idles_heard_of_consumed (policy : IdlePolicy)
    (h : (Device.response s.device).consumed ≠ 0) :
    (s.heard policy).idles =
      policy (s.questions + ((Device.response s.device).consumed - 1)) := by
  obtain ⟨n, hn⟩ := Nat.exists_eq_succ_of_ne_zero h
  rw [heard, hn, idles_consume_succ, questions_collect]
  rfl

end State

variable {σ : Type u} [Device σ] {device : σ}

/-- What holds before every turn: the state is told by the responses that were read, which are all
but the one on hand. -/
structure Framing (device : σ) (settings : Settings) (script : List UInt8) (policy : IdlePolicy)
    (s : State σ) : Prop extends Underway device settings s where
  paced : ∃ body, requests s.exchanges = { command := .startClear } :: {} :: body ∧
    Paced settings script policy (responses s.exchanges) body
  pending : s.pending = script.drop (bytesTaken (responses s.exchanges).dropLast)
  questions : s.questions = 1 + bytesTaken (responses s.exchanges).dropLast
  idles : s.idles = idlesLeft policy (responses s.exchanges).dropLast
  running : ∀ r ∈ (responses s.exchanges).dropLast, r.kind = .running

theorem framing_start (device : σ) (settings : Settings) (script : List UInt8)
    (policy : IdlePolicy) :
    Framing device settings script policy (.start device settings script policy) where
  toUnderway := underway_start device settings script policy
  paced := ⟨[], rfl, rfl, fun j hj => absurd hj (Nat.not_lt_zero j)⟩
  pending := rfl
  questions := rfl
  idles := rfl
  running _ hr := (List.not_mem_nil hr).elim

variable {s t : State σ}

/-- Once the response on hand is read, all of the responses are. -/
private theorem Framing.heard (h : Framing device settings script policy s) :
    (s.heard policy).pending = script.drop (bytesTaken (responses s.exchanges)) ∧
      (s.heard policy).questions = 1 + bytesTaken (responses s.exchanges) ∧
      (s.heard policy).idles = idlesDue policy (responses s.exchanges) := by
  obtain ⟨earlier, hr⟩ := h.current
  have hpending := h.pending
  have hquestions := h.questions
  have hidles := h.idles
  rw [hr, List.dropLast_concat] at hpending hquestions hidles
  rw [hr, bytesTaken_append]
  refine ⟨?_, ?_, ?_⟩
  · rw [s.pending_heard, hpending, List.drop_drop]
  · rw [s.questions_heard, hquestions, Nat.add_assoc]
  · by_cases h0 : (Device.response s.device).consumed = 0
    · rw [s.idles_heard_of_unconsumed policy h0, idlesDue_of_unconsumed h0, hidles]
    · rw [s.idles_heard_of_consumed policy h0, idlesDue_of_consumed h0, hquestions]
      congr 1
      omega

/-- A turn that goes on sends the request that is due, and the response on hand is one of a running
device. -/
private theorem Framing.pulse (h : Framing device settings script policy s)
    (hk : (Device.response s.device).kind = .running) (request : Request) {idles budget : Nat}
    (hsent : Sent settings script policy (responses s.exchanges) request)
    (hi : idles = idlesDue policy (responses s.exchanges) - 1)
    (hu : Underway device settings { (s.heard policy).pulse request with idles, budget }) :
    Framing device settings script policy
      { (s.heard policy).pulse request with idles, budget } := by
  obtain ⟨hpending, hquestions, -⟩ := h.heard
  obtain ⟨body, hbody, hpaced⟩ := h.paced
  obtain ⟨earlier, hcurrent⟩ := h.current
  have hne := h.responses_ne_nil
  have hx := s.exchanges_heard policy
  have hresponses : responses ((s.heard policy).pulse request).exchanges =
      responses s.exchanges ++ [Device.response ((s.heard policy).pulse request).device] := by
    rw [← hx]
    exact responses_push (hx ▸ hne) _
  have hdrop : (responses ((s.heard policy).pulse request).exchanges).dropLast =
      responses s.exchanges := by
    rw [hresponses, List.dropLast_concat]
  refine ⟨hu, ⟨body ++ [request], ?_, ?_⟩, ?_, ?_, ?_, ?_⟩
  · change requests ((s.heard policy).exchanges.push _) = _
    rw [requests_push, hx, hbody, List.cons_append, List.cons_append]
  · change Paced _ _ _ (responses ((s.heard policy).pulse request).exchanges) _
    rw [hresponses]
    exact hpaced.snoc hsent _
  · change (s.heard policy).pending =
      script.drop (bytesTaken (responses ((s.heard policy).pulse request).exchanges).dropLast)
    rw [hdrop, hpending]
  · change (s.heard policy).questions =
      1 + bytesTaken (responses ((s.heard policy).pulse request).exchanges).dropLast
    rw [hdrop, hquestions]
  · change idles = idlesLeft policy (responses ((s.heard policy).pulse request).exchanges).dropLast
    rw [hdrop, idlesLeft_of_ne_nil hne, hi]
  · change ∀ r ∈ (responses ((s.heard policy).pulse request).exchanges).dropLast, r.kind = .running
    intro r hr
    rw [hdrop, hcurrent] at hr
    rcases List.mem_append.mp hr with hr | hr
    · refine h.running r ?_
      rw [hcurrent, List.dropLast_concat]
      exact hr
    · rw [List.mem_singleton.mp hr]
      exact hk

theorem Framing.next (h : Framing device settings script policy s)
    (ht : Turns settings policy s (.next t)) : Framing device settings script policy t := by
  have hu := h.toUnderway.next ht
  obtain ⟨hpending, -, hidles⟩ := h.heard
  cases ht with
  | data _ hk hi =>
    rw [hidles] at hi
    have hshows := shows_dataRequest (s.heard policy).pending
    rw [hpending] at hshows
    refine h.pulse hk (dataRequest (s.heard policy).pending) ?_ ?_ hu
    · rw [hpending]
      exact .data hi hshows
    · change (s.heard policy).idles = _
      rw [hidles, hi]
  | idle _ hk hi =>
    rw [hidles] at hi
    refine h.pulse hk (idleRequest settings (s.heard policy).idles) ?_ ?_ hu
    · rw [hidles]
      exact .idle (Nat.pos_of_ne_zero hi)
    · rw [hidles]

structure Closing (device : σ) (settings : Settings) (script : List UInt8) (policy : IdlePolicy)
    (s : State σ) : Prop extends Kept device settings s where
  paced : ∃ body, requests s.exchanges = { command := .startClear } :: {} :: body ∧
    Paced settings script policy (responses s.exchanges) body
  questions : s.questions = 1 + bytesTaken (responses s.exchanges).dropLast
  running : ∀ r ∈ (responses s.exchanges).dropLast, r.kind = .running
  stopped : s.budget = 0 ∨ (Device.response s.device).kind ≠ .running

theorem Framing.last (h : Framing device settings script policy s)
    (ht : Turns settings policy s (.last t)) : Closing device settings script policy t := by
  cases ht with
  | spent hb => exact ⟨h.toKept, h.paced, h.questions, h.running, .inl hb⟩
  | ended _ hk =>
    rw [State.collect_eq]
    exact ⟨⟨h.opened, h.logged, h.counted, h.current, h.paid⟩, h.paced, h.questions, h.running, .inr hk⟩

/-- A session as its exchanges tell it, with the requests in the middle as its body: what stands
before the body starts the script, and what stands after it acknowledges the ending. -/
structure Framed (device : σ) (settings : Settings) (script : List UInt8) (policy : IdlePolicy)
    (f : Finished σ) (body : List Request) : Prop where
  logged : Logged device f.exchanges f.device
  framed : requests f.exchanges = { command := .startClear } :: {} :: (body ++ [({} : Request)])
  ticks : f.outcome.ticks = (requests f.exchanges).length
  paced : Paced settings script policy f.sampled body
  paid : (body.countP fun request => request.command.carriesBytes) ≤ settings.budget
  questions : f.questions = 1 + bytesTaken f.sampled.dropLast
  running : ∀ r ∈ f.sampled.dropLast, r.kind = .running
  /-- The body ends where the budget is spent, or where the device is no longer running. -/
  stopped : (body.countP fun request => request.command.carriesBytes) = settings.budget ∨
    ∃ last, f.sampled.getLast? = some last ∧ last.kind ≠ .running

theorem dataCount_eq (exchanges : Array (Request × Response)) :
    dataCount exchanges = (requests exchanges).countP fun request => request.command.carriesBytes := by
  rw [dataCount, requests, List.countP_map]
  rfl

theorem Closing.framed (h : Closing device settings script policy s) :
    ∃ body, Framed device settings script policy s.finish body := by
  obtain ⟨body, hbody, hpaced⟩ := h.paced
  obtain ⟨earlier, hcurrent⟩ := h.current
  have hs := h.sampled_finish
  have hcount : (body.countP fun request => request.command.carriesBytes) + s.budget =
      settings.budget := by
    rw [← h.paid, dataCount_eq, hbody]
    rfl
  refine ⟨body, h.logged.pulse {}, ?_, ?_, ?_, by omega, ?_, ?_, ?_⟩
  · rw [requests_finish, hbody]
    rfl
  · rw [requests, List.length_map]
    exact counted_pulse h.counted {}
  · rw [hs]
    exact hpaced
  · rw [hs]
    exact h.questions
  · rw [hs]
    exact h.running
  · rcases h.stopped with hb | hk
    · exact .inl (by omega)
    · refine .inr ⟨Device.response s.device, ?_, hk⟩
      rw [hs, hcurrent, List.getLast?_concat]

/-- Holds for every device, whatever it responds, and every policy. -/
theorem script_framed {fuel : Nat} {f : Finished σ}
    (h : run device settings script policy fuel = .ok (some f)) :
    ∃ body, Framed device settings script policy f body := by
  obtain ⟨-, s, hl, rfl⟩ := exists_of_run h
  have hclosing : Closing device settings script policy s :=
    loop_keeps (fun _ _ => Framing.next) (fun _ _ => Framing.last)
      (framing_start device settings script policy) hl
  exact hclosing.framed

structure Recital where
  current : Response
  later : List Response

instance : Device Recital where
  response := Recital.current
  drive recital _ := recital
  tick
    | ⟨current, []⟩ => ⟨current, []⟩
    | ⟨_, next :: later⟩ => ⟨next, later⟩

/-- It takes more bytes than it was sent, also for an idle pulse. -/
def Recital.greedy : Recital where
  current := {}
  later := [{ kind := .running }, { kind := .running, consumed := 1 }, { kind := .running },
    { kind := .running, consumed := 7 }, { kind := .running, consumed := 3 }, { kind := .completed }]

theorem script_framed_recital : ∃ f,
    run Recital.greedy { budget := 3 } [1, 2, 3, 4, 5, 6, 7, 8, 9] (· % 3) 9 = .ok (some f) ∧
      ∃ body, Framed Recital.greedy { budget := 3 } [1, 2, 3, 4, 5, 6, 7, 8, 9] (· % 3) f body := by
  have h : ∃ f, run Recital.greedy { budget := 3 } [1, 2, 3, 4, 5, 6, 7, 8, 9] (· % 3) 9 =
      .ok (some f) := ⟨_, rfl⟩
  obtain ⟨f, hf⟩ := h
  exact ⟨f, hf, script_framed hf⟩

end LogBench.Session
