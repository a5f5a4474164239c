import LogBench.Proofs.Session.Turn

/-! What a session leaves on record: its exchanges are those of the device with the requests that
were sent, and what comes out is read off them. -/
namespace LogBench.Session
open Link

section Exchanges

variable {σ : Type u} [Device σ]

def clocked (device : σ) (requests : List Request) : σ :=
  requests.foldl (fun d request => Device.tick (Device.drive d request)) device

def exchangesOf (device : σ) : List Request → List (Request × Response)
  | [] => []
  | request :: later =>
    let next := Device.tick (Device.drive device request)
    (request, Device.response next) :: exchangesOf next later

theorem clocked_append (device : σ) (requests : List Request) (request : Request) :
    clocked device (requests ++ [request]) =
      Device.tick (Device.drive (clocked device requests) request) := by
  simp only [clocked, List.foldl_append, List.foldl_cons, List.foldl_nil]

theorem exchangesOf_append (device : σ) (requests : List Request) (request : Request) :
    exchangesOf device (requests ++ [request]) =
      exchangesOf device requests ++
        [(request, Device.response (clocked device (requests ++ [request])))] := by
  induction requests generalizing device with
  | nil => rfl
  | cons first later ih =>
    simp only [List.cons_append, exchangesOf, ih]
    rfl

end Exchanges

def requests (exchanges : Array (Request × Response)) : List Request :=
  exchanges.toList.map Prod.fst

/-- The responses after the two ticks that start the script, and after each later tick. -/
def responses (exchanges : Array (Request × Response)) : List Response :=
  (exchanges.toList.map Prod.snd).tail

def dataCount (exchanges : Array (Request × Response)) : Nat :=
  exchanges.toList.countP fun exchange => exchange.1.command.carriesBytes

theorem requests_push (exchanges : Array (Request × Response)) (x : Request × Response) :
    requests (exchanges.push x) = requests exchanges ++ [x.1] := by
  simp only [requests, Array.toList_push, List.map_append, List.map_cons, List.map_nil]

theorem responses_push {exchanges : Array (Request × Response)} (h : responses exchanges ≠ [])
    (x : Request × Response) : responses (exchanges.push x) = responses exchanges ++ [x.2] := by
  unfold responses at h ⊢
  rw [Array.toList_push, List.map_append]
  exact List.tail_append_of_ne_nil fun h0 => h (by rw [h0]; rfl)

theorem dataCount_push (exchanges : Array (Request × Response)) (x : Request × Response) :
    dataCount (exchanges.push x) =
      dataCount exchanges + if x.1.command.carriesBytes then 1 else 0 := by
  simp only [dataCount, Array.toList_push, List.countP_append, List.countP_singleton]

namespace Finished

variable {σ : Type u} (f : Finished σ)

/-- The responses from the one that the start of the script is answered with to the one that the
completion is read off: all but those after the first tick and the finishing one. -/
def sampled : List Response := (responses f.exchanges).dropLast

/-- The word of the last sampled response, where the session leaves it behind: a session that has
spent its budget ends before it reads the response. -/
def missed (budget : Nat) : List UInt32 :=
  if dataCount f.exchanges = budget then (f.sampled.getLast?.bind Response.word?).toList else []

end Finished

variable {σ : Type u} [Device σ] {device : σ} {settings : Settings} {policy : IdlePolicy}

/-- The exchanges are those of the device, which has come to be `now` by them. -/
structure Logged (device : σ) (exchanges : Array (Request × Response)) (now : σ) : Prop where
  exchanged : exchanges.toList = exchangesOf device (requests exchanges)
  clocked : now = clocked device (requests exchanges)

structure Kept (device : σ) (settings : Settings) (s : State σ) : Prop where
  opened : ∃ later, requests s.exchanges = { command := .startClear } :: {} :: later
  logged : Logged device s.exchanges s.device
  counted : s.ticks = s.exchanges.size
  current : ∃ earlier, responses s.exchanges = earlier ++ [Device.response s.device]
  paid : dataCount s.exchanges + s.budget = settings.budget

/-- What holds before every turn: the words of all responses but the last are collected. -/
structure Underway (device : σ) (settings : Settings) (s : State σ) : Prop
    extends Kept device settings s where
  words : s.words.toList = (responses s.exchanges).dropLast.filterMap Response.word?

/-- What holds after the last turn: the last response is collected if there is budget left. -/
structure Stopped (device : σ) (settings : Settings) (s : State σ) : Prop
    extends Kept device settings s where
  words : s.words.toList =
    if dataCount s.exchanges = settings.budget then
      (responses s.exchanges).dropLast.filterMap Response.word?
    else (responses s.exchanges).filterMap Response.word?

private theorem filterMap_word?_append (earlier : List Response) (last : Response) :
    (earlier ++ [last]).filterMap Response.word? =
      earlier.filterMap Response.word? ++ last.word?.toList := by
  rw [List.filterMap_append]
  cases h : last.word? <;> simp [h]

theorem Logged.pulse {s : State σ} (h : Logged device s.exchanges s.device)
    (request : Request) : Logged device (s.pulse request).exchanges (s.pulse request).device := by
  have hr : requests (s.pulse request).exchanges = requests s.exchanges ++ [request] :=
    requests_push ..
  have hc : (s.pulse request).device =
      Session.clocked device (requests (s.pulse request).exchanges) := by
    rw [hr, clocked_append, ← h.clocked]
    rfl
  refine ⟨?_, hc⟩
  rw [hr, exchangesOf_append, ← hr, ← hc, ← h.exchanged]
  exact Array.toList_push

theorem counted_pulse {s : State σ} (h : s.ticks = s.exchanges.size) (request : Request) :
    (s.pulse request).ticks = (s.pulse request).exchanges.size := by
  change s.ticks + 1 = (s.exchanges.push _).size
  rw [h, Array.size_push]

theorem Kept.responses_ne_nil {s : State σ} (h : Kept device settings s) :
    responses s.exchanges ≠ [] := by
  obtain ⟨earlier, hresponses⟩ := h.current
  rw [hresponses]
  exact List.append_ne_nil_of_right_ne_nil _ (List.cons_ne_nil _ _)

/-- The words of all responses are those collected before and the word on hand. -/
private theorem Underway.collected {s : State σ} (h : Underway device settings s) :
    s.words.toList ++ (Device.response s.device).word?.toList =
      (responses s.exchanges).filterMap Response.word? := by
  obtain ⟨earlier, hresponses⟩ := h.current
  rw [h.words, hresponses, List.dropLast_concat, filterMap_word?_append]

theorem underway_start (device : σ) (settings : Settings) (script : List UInt8)
    (policy : IdlePolicy) : Underway device settings (.start device settings script policy) :=
  ⟨⟨⟨[], rfl⟩, ⟨rfl, rfl⟩, rfl, ⟨[], rfl⟩, Nat.zero_add _⟩, rfl⟩

/-- A turn that goes on collects the response it has read, and is answered with the next one. -/
private theorem Underway.pulse {s : State σ} (h : Underway device settings s)
    (policy : IdlePolicy) (request : Request) {budget : Nat} (idles : Nat)
    (hb : dataCount ((s.heard policy).pulse request).exchanges + budget = settings.budget) :
    Underway device settings { (s.heard policy).pulse request with idles, budget } := by
  obtain ⟨later, hlater⟩ := h.opened
  have he := s.exchanges_heard policy
  have hd := s.device_heard policy
  have hlogged : Logged device (s.heard policy).exchanges (s.heard policy).device := by
    rw [he, hd]
    exact h.logged
  have hcounted : (s.heard policy).ticks = (s.heard policy).exchanges.size := by
    rw [s.ticks_heard, he, h.counted]
  have hresponses : responses ((s.heard policy).pulse request).exchanges =
      responses s.exchanges ++ [Device.response ((s.heard policy).pulse request).device] := by
    rw [← he]
    exact responses_push (he ▸ h.responses_ne_nil) _
  refine ⟨⟨⟨later ++ [request], ?_⟩, hlogged.pulse request, counted_pulse hcounted request,
    ⟨_, hresponses⟩, hb⟩, ?_⟩
  · change requests ((s.heard policy).exchanges.push _) = _
    rw [requests_push, he, hlater, List.cons_append, List.cons_append]
  · change (s.heard policy).words.toList =
      (responses ((s.heard policy).pulse request).exchanges).dropLast.filterMap Response.word?
    rw [s.words_heard, h.collected, hresponses, List.dropLast_concat]

theorem Underway.next {s t : State σ} (h : Underway device settings s)
    (ht : Turns settings policy s (.next t)) : Underway device settings t := by
  have hx := s.exchanges_heard policy
  have hp := h.paid
  cases ht with
  | data hb =>
    refine h.pulse policy (dataRequest (s.heard policy).pending) (s.heard policy).idles ?_
    rw [State.pulse, dataCount_push, carriesBytes_dataRequest, s.budget_heard, hx]
    simp only [if_true]
    omega
  | idle hb =>
    refine h.pulse policy (idleRequest settings (s.heard policy).idles) _ ?_
    rw [State.pulse, dataCount_push, s.budget_heard, hx]
    exact hp

private theorem Underway.last {s t : State σ} (h : Underway device settings s)
    (ht : Turns settings policy s (.last t)) : Stopped device settings t := by
  have hp := h.paid
  cases ht with
  | spent hb =>
    refine ⟨h.toKept, ?_⟩
    rw [if_pos (by omega), h.words]
  | ended hb =>
    have hne : dataCount s.exchanges ≠ settings.budget := by omega
    rw [State.collect_eq]
    refine ⟨⟨h.opened, h.logged, h.counted, h.current, hp⟩, ?_⟩
    rw [if_neg hne, State.words_collect, h.collected]

structure Recorded (device : σ) (settings : Settings) (f : Finished σ) : Prop where
  /-- The first tick starts the script, the second and the last one carry an idle pulse. -/
  framed : ∃ later, requests f.exchanges = { command := .startClear } ::
    {} :: (later ++ [({} : Request)])
  logged : Logged device f.exchanges f.device
  ticks : f.outcome.ticks = f.exchanges.size
  completion : ∃ last, f.sampled.getLast? = some last ∧
    f.outcome.completion = .ofKind last.kind
  words : f.outcome.words ++ f.missed settings.budget = f.sampled.filterMap Response.word?

theorem dataCount_finish (s : State σ) :
    dataCount s.finish.exchanges = dataCount s.exchanges := dataCount_push ..

/-- The finishing pulse is answered when nothing is read any more. -/
theorem Kept.sampled_finish {s : State σ} (h : Kept device settings s) :
    s.finish.sampled = responses s.exchanges := by
  change (responses (s.exchanges.push _)).dropLast = _
  rw [responses_push h.responses_ne_nil, List.dropLast_concat]

theorem requests_finish (s : State σ) :
    requests s.finish.exchanges = requests s.exchanges ++ [({} : Request)] := requests_push ..

private theorem Stopped.finish {s : State σ} (h : Stopped device settings s) :
    Recorded device settings s.finish := by
  obtain ⟨earlier, hresponses⟩ := h.current
  obtain ⟨later, hlater⟩ := h.opened
  have hs := h.sampled_finish
  have hl : s.finish.sampled.getLast? = some (Device.response s.device) := by
    rw [hs, hresponses, List.getLast?_concat]
  refine ⟨⟨later, ?_⟩, h.logged.pulse {}, counted_pulse h.counted {}, ⟨_, hl, rfl⟩, ?_⟩
  · rw [requests_finish, hlater]
    rfl
  · change s.words.toList ++ _ = _
    rw [Finished.missed, dataCount_finish, hl, h.words, hs, hresponses, List.dropLast_concat]
    split
    · rw [filterMap_word?_append]
      rfl
    · exact List.append_nil _

theorem stopped_of_loop {script : List UInt8} {fuel : Nat} {s : State σ}
    (h : loop settings policy fuel (.start device settings script policy) = some s) :
    Stopped device settings s :=
  loop_keeps (fun _ _ => Underway.next) (fun _ _ => Underway.last)
    (underway_start device settings script policy) h

theorem recorded_of_run {script : List UInt8} {fuel : Nat} {f : Finished σ}
    (h : run device settings script policy fuel = .ok (some f)) :
    Recorded device settings f := by
  obtain ⟨-, s, hl, rfl⟩ := exists_of_run h
  exact (stopped_of_loop hl).finish

end LogBench.Session
