import LogBench.Proofs.Target.History
import LogBench.Proofs.Target.Registers

/-! Exact reads, with entries offered while they are answered. The check for enough entries is made
once, in the first tick of the execution: it ends the script there, or the target is pledged to
answer all of the elements. -/
namespace LogBench.Target
open Link Script

def answeredBytes (r : Response) : List UInt8 := Bytes.toLittleEndian r.valid r.data.toNat

def chunkResponse (e : Entry 4) (bytes i : Nat) : Response where
  kind := .running
  valid := min 4 (bytes - 4 * i)
  data := payloadWord e (4 * i) (min 4 (bytes - 4 * i))

def elementResponses (e : Entry 4) (bytes : Nat) : List Response :=
  (List.range ((bytes + 3) / 4)).map (chunkResponse e bytes)

def elementBytes (e : Entry 4) (bytes : Nat) : List UInt8 :=
  (List.range bytes).map e.byteAt

private theorem answeredBytes_chunkResponse (e : Entry 4) (bytes i : Nat) :
    answeredBytes (chunkResponse e bytes i) =
      (List.range (min 4 (bytes - 4 * i))).map fun j => e.byteAt (4 * i + j) := by
  have h := Bytes.toLittleEndian_littleEndian
    ((List.range (min 4 (bytes - 4 * i))).map fun j => e.byteAt (4 * i + j))
  rw [List.length_map, List.length_range] at h
  rw [answeredBytes, chunkResponse, toNat_payloadWord e _ (Nat.min_le_left ..), h]

/-- The chunks of four numbers each make up the numbers below a bound, up to which they are cut. -/
private theorem flatMap_range_chunks (f : Nat → UInt8) (bound n : Nat) :
    ((List.range n).flatMap fun i => (List.range (min 4 (bound - 4 * i))).map fun j => f (4 * i + j)) =
      (List.range (min (4 * n) bound)).map f := by
  induction n with
  | zero => rw [Nat.mul_zero, Nat.zero_min]; rfl
  | succ n ih =>
    have hmin : min (4 * (n + 1)) bound = min (4 * n) bound + min 4 (bound - 4 * n) := by omega
    rw [List.range_succ, List.flatMap_append, ih, hmin, List.range_add, List.map_append,
      List.flatMap_singleton, List.map_map]
    congr 1
    apply List.map_congr_left
    intro j hj
    have hlt := List.mem_range.mp hj
    have hn : min (4 * n) bound = 4 * n := by omega
    rw [Function.comp_apply, hn]

private theorem answeredBytes_elementResponses (e : Entry 4) (bytes : Nat) :
    (elementResponses e bytes).flatMap answeredBytes = elementBytes e bytes := by
  have hmin : min (4 * ((bytes + 3) / 4)) bytes = bytes := by omega
  rw [elementResponses, List.flatMap_map]
  simp only [answeredBytes_chunkResponse]
  rw [flatMap_range_chunks, hmin, elementBytes]

private theorem length_elementResponses (e : Entry 4) (bytes : Nat) :
    (elementResponses e bytes).length = (bytes + 3) / 4 := by
  simp [elementResponses]

private theorem drop_elementResponses (e : Entry 4) {bytes i : Nat} (h : i < (bytes + 3) / 4) :
    (elementResponses e bytes).drop i =
      chunkResponse e bytes i :: (elementResponses e bytes).drop (i + 1) := by
  have hlen := length_elementResponses e bytes
  rw [List.drop_eq_getElem_cons (by omega)]
  simp [elementResponses]

/-- The responses that answer the elements of some entries, less the first `i` of them. -/
def owed (shape : Shape) (entries : List (Entry 4)) (i : Nat) : List Response :=
  (entries.flatMap fun e => elementResponses e shape.bytes).drop i

/-- The target answers the elements of these entries before anything else: it is in an exact read
that is past its check or will pass it, with `i` chunks of the first element answered. -/
inductive Pledged (shape : Shape) (t : Target) : List (Entry 4) → Nat → Prop
  | reading {r : Reading} {entries : List (Entry 4)} {i : Nat} : t.phase = .executing (.read r) →
      r.mode = .exactly → r.shape = shape → r.offset = 4 * i → entries.length = r.left →
      entries <+: t.queue.items → Pledged shape t entries i
  | done : t.phase = .waiting → Pledged shape t [] 0

variable {shape : Shape} {t : Target} {e : Entry 4} {entries : List (Entry 4)} {i : Nat}

private theorem owed_next (h : i + 1 < (shape.bytes + 3) / 4) :
    owed shape (e :: entries) i =
      chunkResponse e shape.bytes i :: owed shape (e :: entries) (i + 1) := by
  have hlen := length_elementResponses e shape.bytes
  rw [owed, owed, List.flatMap_cons, List.drop_append_of_le_length (by omega),
    List.drop_append_of_le_length (by omega), drop_elementResponses e (by omega)]
  rfl

private theorem owed_last (h : i + 1 = (shape.bytes + 3) / 4) :
    owed shape (e :: entries) i = chunkResponse e shape.bytes i :: owed shape entries 0 := by
  have hlen := length_elementResponses e shape.bytes
  rw [owed, owed, List.flatMap_cons, List.drop_append_of_le_length (by omega),
    drop_elementResponses e (by omega), List.drop_of_length_le (i := i + 1) (by omega)]
  rfl

private theorem length_owed (shape : Shape) (entries : List (Entry 4)) :
    (owed shape entries 0).length = entries.length * ((shape.bytes + 3) / 4) := by
  simp [owed, length_elementResponses]

/-- The check finds the entries there. -/
private theorem not_refused (h : t.Sound) {r : Reading} (hp : t.phase = .executing (.read r))
    (hl : r.left ≤ t.queue.items.length) : ¬ r.Refused t := by
  rintro ⟨hs, -, hlt⟩
  have hfresh := ((h.reading r hp).fresh hs).2
  rw [h.tallied] at hlt
  omega

/-- A tick of a pledged target answers the next chunk. Its element goes on with the chunk after
it, or it is the last one, and then its entry is taken off the queue. -/
structure Advances (shape : Shape) (t t' : Target) (e : Entry 4) (entries : List (Entry 4))
    (i : Nat) : Prop where
  response : t'.response = chunkResponse e shape.bytes i
  queue : i + 1 < (shape.bytes + 3) / 4 ∧ Pledged shape t' (e :: entries) (i + 1) ∧
      t'.queue = t.queue ∨
    i + 1 = (shape.bytes + 3) / 4 ∧ Pledged shape t' entries 0 ∧
      t.queue.items = e :: t'.queue.items

variable {t' : Target} {r : Reading}

private theorem advances_chunk (hm : r.mode = .exactly) (hi : r.offset = 4 * i)
    (hl : (e :: entries).length = r.left) (hq : e :: entries <+: t.queue.items)
    (hlt : r.offset + 4 < r.shape.bytes) (hp' : t'.phase = .executing (.read r.afterChunk))
    (hq' : t'.queue = t.queue)
    (hr' : t'.response = { kind := .running, valid := 4, data := payloadWord e r.offset 4 }) :
    Advances r.shape t t' e entries i := by
  have hn : min 4 (r.shape.bytes - 4 * i) = 4 := by omega
  have hnext : r.afterChunk.offset = 4 * (i + 1) := by
    change r.offset + 4 = 4 * (i + 1)
    omega
  refine ⟨?_, .inl ⟨by omega, .reading hp' hm rfl hnext hl (hq' ▸ hq), hq'⟩⟩
  rw [hr', chunkResponse, hn, hi]

private theorem advances_element (h : t.Sound) (hp : t.phase = .executing (.read r))
    (hm : r.mode = .exactly) (hi : r.offset = 4 * i) (hl : (e :: entries).length = r.left)
    (hq : e :: entries <+: t.queue.items) (hle : r.shape.bytes ≤ r.offset + 4)
    (hp' : t'.phase = r.afterElement) (hq' : t'.queue = t.queue.pop.2)
    (hr' : t'.response =
      { kind := .running
        valid := r.shape.bytes - r.offset
        data := payloadWord e r.offset (r.shape.bytes - r.offset) }) :
    Advances r.shape t t' e entries i := by
  have hlt := (h.reading r hp).offset_lt
  have hn : min 4 (r.shape.bytes - 4 * i) = r.shape.bytes - 4 * i := by omega
  obtain ⟨more, hmore⟩ := hq
  have hitems : t'.queue.items = entries ++ more := by
    rw [hq', h.tallied.pop_eq hmore.symm]
    rfl
  rw [List.length_cons] at hl
  refine ⟨?_, .inr ⟨by omega, ?_, ?_⟩⟩
  · rw [hr', chunkResponse, hn, hi]
  · unfold Reading.afterElement at hp'
    split at hp'
    · have hleft : entries.length = r.left - 1 := by omega
      refine .reading hp' hm rfl (Nat.mul_zero 4).symm hleft ?_
      rw [hitems]
      exact List.prefix_append entries more
    · rw [List.eq_nil_of_length_eq_zero (l := entries) (by omega)]
      exact .done hp'
  · rw [hitems]
    exact hmore.symm

private theorem Sound.advances (h : t.Sound) (hp : Pledged shape t (e :: entries) i)
    (hc : t.Continues) : Advances shape t (Device.tick t) e entries i := by
  cases hp with
  | @reading r _ _ hp hm hs hi hl hq =>
    subst hs
    obtain ⟨more, hmore⟩ := hq
    have hle : r.left ≤ t.queue.items.length := by
      rw [← hmore, ← hl, List.length_append]
      exact Nat.le_add_right ..
    have hr := not_refused h hp hle
    have hhead : t.queue.peek? = some e := List.head?_eq_some_iff.mpr ⟨_, hmore.symm⟩
    generalize ht : Device.tick t = t'
    have hmove : Move t t' := ht ▸ t.step_move
    cases hmove with
    | enter he =>
      cases he with
      | start _ hs => cases hc.symm.trans hs
      | refuse hp' _ hr' =>
        cases hp.symm.trans hp'
        exact absurd hr' hr
      | runDry _ _ _ hn => cases hhead.symm.trans hn
      | sleep h | acknowledge h | hold h | skip h | await h | close h | cut h | reject h =>
        cases hp.symm.trans h
    | decode h | report h => cases hp.symm.trans h
    | chunk hp' _ _ he hlt =>
      cases hp.symm.trans hp'
      cases hhead.symm.trans he
      exact advances_chunk hm hi hl ⟨more, hmore⟩ hlt rfl rfl rfl
    | element hp' _ _ he hlast =>
      cases hp.symm.trans hp'
      cases hhead.symm.trans he
      exact advances_element h hp hm hi hl ⟨more, hmore⟩ hlast rfl rfl rfl

/-- What is done between the ticks leaves a pledge as it is: offers append to the queue. -/
private theorem Pledged.act (hp : Pledged shape t entries i) {a : Action} (ha : a ≠ .tick) :
    Pledged shape (t.act a) entries i := by
  obtain ⟨-, hphase⟩ := act_of_ne_tick (t := t) ha
  cases hp with
  | reading hr hm hs hi hl hq =>
    exact .reading (hphase.trans hr) hm hs hi hl (hq.trans (items_act_of_ne_tick ha))
  | done hw => exact .done (hphase.trans hw)

private theorem Pledged.lt (hp : Pledged shape t entries i) (h : t.Sound) :
    i < (shape.bytes + 3) / 4 := by
  cases hp with
  | @reading r _ _ hp _ hs hi =>
    have hlt := (h.reading r hp).offset_lt
    rw [hs] at hlt
    omega
  | done =>
    have hpos := shape.bytes_pos
    omega

def Unbroken (t : Target) (actions : List Action) : Prop :=
  ∀ x ∈ t.exchanges actions, x.1.command.starts = false

/-- A run has come by its ticks as far into the elements of the entries as there were ticks. -/
structure Fulfils (shape : Shape) (h : History) (entries : List (Entry 4)) (i : Nat)
    (actions : List Action) (ticks : Nat) : Prop where
  responses : (h.target.exchanges actions).map Prod.snd = (owed shape entries i).take ticks
  taken : (actions.foldl History.extend h).taken =
    h.taken ++ entries.take ((i + ticks) / ((shape.bytes + 3) / 4))
  pledged : Pledged shape (actions.foldl act h.target)
    (entries.drop ((i + ticks) / ((shape.bytes + 3) / 4))) ((i + ticks) % ((shape.bytes + 3) / 4))

private theorem exchanges_tick (t : Target) (later : List Action) :
    t.exchanges (.tick :: later) =
      (t.request, (Device.tick t).response) :: (Device.tick t).exchanges later := rfl

private theorem exchanges_of_ne_tick {a : Action} (ha : a ≠ .tick) (later : List Action) :
    t.exchanges (a :: later) = (t.act a).exchanges later := by
  rw [exchanges, exchangeBy_of_ne_tick ha, List.nil_append]

variable {h : History} {later : List Action} {ticks : Nat}

private theorem Fulfils.of_chunk
    (hf : Fulfils shape h.ticked (e :: entries) (i + 1) later ticks)
    (hlt : i + 1 < (shape.bytes + 3) / 4)
    (hr : (Device.tick h.target).response = chunkResponse e shape.bytes i)
    (hq : (Device.tick h.target).queue = h.target.queue) :
    Fulfils shape h (e :: entries) i (.tick :: later) (ticks + 1) := by
  have hcount : i + 1 + ticks = i + (ticks + 1) := by omega
  refine ⟨?_, ?_, ?_⟩
  · rw [owed_next hlt, List.take_succ_cons, exchanges_tick, List.map_cons, hr]
    exact congrArg _ hf.responses
  · have htaken : h.ticked.taken = h.taken := by
      rw [History.ticked, takenBy_of_kept hq, List.append_nil]
    change (later.foldl History.extend h.ticked).taken = _
    rw [hf.taken, htaken, hcount]
  · rw [← hcount]
    exact hf.pledged

private theorem Fulfils.of_element (hf : Fulfils shape h.ticked entries 0 later ticks)
    (hlast : i + 1 = (shape.bytes + 3) / 4)
    (hr : (Device.tick h.target).response = chunkResponse e shape.bytes i)
    (hq : h.target.queue.items = e :: (Device.tick h.target).queue.items) :
    Fulfils shape h (e :: entries) i (.tick :: later) (ticks + 1) := by
  have hpos : 0 < (shape.bytes + 3) / 4 := by omega
  have hcount : i + (ticks + 1) = 0 + ticks + (shape.bytes + 3) / 4 := by omega
  have hdiv := Nat.add_div_right (0 + ticks) hpos
  have hmod := Nat.add_mod_right (0 + ticks) ((shape.bytes + 3) / 4)
  refine ⟨?_, ?_, ?_⟩
  · rw [owed_last hlast, List.take_succ_cons, exchanges_tick, List.map_cons, hr]
    exact congrArg _ hf.responses
  · have htaken : h.ticked.taken = h.taken ++ [e] := by
      rw [History.ticked, takenBy_of_popped hq]
    change (later.foldl History.extend h.ticked).taken = _
    rw [hf.taken, htaken, hcount, hdiv, List.take_succ_cons, List.append_assoc]
    rfl
  · rw [hcount, hdiv, hmod, List.drop_succ_cons]
    exact hf.pledged

/-- A pledge is kept in every run of as many ticks as it takes, or of fewer. -/
theorem Pledged.fulfils (hs : h.target.Sound) (hp : Pledged shape h.target entries i)
    {actions : List Action} (hu : Unbroken h.target actions)
    (hk : (h.target.exchanges actions).length ≤ (owed shape entries i).length) :
    Fulfils shape h entries i actions (h.target.exchanges actions).length := by
  have hlt := hp.lt hs
  induction actions generalizing h entries i with
  | nil =>
    refine ⟨rfl, ?_, ?_⟩
    · rw [exchanges, List.length_nil, Nat.add_zero, Nat.div_eq_of_lt hlt, List.take_zero,
        List.append_nil]
      rfl
    · rw [exchanges, List.length_nil, Nat.add_zero, Nat.div_eq_of_lt hlt, List.drop_zero,
        Nat.mod_eq_of_lt hlt]
      exact hp
  | cons a later ih =>
    by_cases ha : a = .tick
    · subst ha
      rw [exchanges_tick, List.length_cons] at hk ⊢
      have hu' : Unbroken h.ticked.target later := fun x hx => hu x (List.mem_cons_of_mem _ hx)
      cases entries with
      | nil => exact absurd hk (by simp [owed])
      | cons e entries =>
        have hadv := hs.advances hp (hu _ List.mem_cons_self)
        rcases hadv.queue with ⟨hnext, hp', hq⟩ | ⟨hlast, hp', hq⟩
        · rw [owed_next hnext, List.length_cons] at hk
          exact (ih (h := h.ticked) hs.step hp' hu' (by exact Nat.le_of_succ_le_succ hk)
            hnext).of_chunk hnext hadv.response hq
        · rw [owed_last hlast, List.length_cons] at hk
          exact (ih (h := h.ticked) hs.step hp' hu' (by exact Nat.le_of_succ_le_succ hk)
            (hp'.lt hs.step)).of_element hlast hadv.response hq
    · have htarget : (h.extend a).target = h.target.act a := History.target_extend h a
      have he : h.target.exchanges (a :: later) = (h.extend a).target.exchanges later := by
        rw [htarget, exchanges_of_ne_tick ha]
      rw [he] at hk ⊢
      have hf := ih (h := h.extend a) (htarget ▸ hs.act a) (htarget ▸ hp.act ha)
        (fun x hx => hu x (he ▸ hx)) hk hlt
      refine ⟨he ▸ hf.responses, ?_, ?_⟩
      · rw [List.foldl_cons, hf.taken, History.taken_extend_of_ne_tick h ha]
      · rw [List.foldl_cons, ← htarget]
        exact hf.pledged

def Resting (t : Target) : Prop := t.phase = .idle ∨ ∃ ending, t.phase = .ended ending

private theorem Resting.tick (hr : t.Resting) (hc : t.Continues) :
    (Device.tick t).Resting ∧ (Device.tick t).queue = t.queue ∧
      (Device.tick t).response.valid = 0 := by
  have hw : t.phase ≠ .waiting := by
    rcases hr with h | ⟨ending, h⟩ <;> simp [h]
  have hx : ∀ x, t.phase ≠ .executing x := by
    rcases hr with h | ⟨ending, h⟩ <;> simp [h]
  generalize ht : Device.tick t = t'
  have hmove : Move t t' := ht ▸ t.step_move
  cases hmove with
  | enter he =>
    cases he with
    | sleep => exact ⟨.inl rfl, rfl, rfl⟩
    | acknowledge => exact ⟨.inl rfl, rfl, rfl⟩
    | hold => exact ⟨.inr ⟨_, rfl⟩, rfl, rfl⟩
    | start _ hs => cases hc.symm.trans hs
    | skip h | await h | close h | cut h | reject h => exact absurd h hw
    | refuse h | runDry h => exact absurd h (hx _)
  | decode h => exact absurd h hw
  | report h | chunk h | element h => exact absurd h (hx _)

private theorem Resting.silent (hr : h.target.Resting) {actions : List Action}
    (hu : Unbroken h.target actions) :
    (∀ x ∈ h.target.exchanges actions, x.2.valid = 0) ∧
      (actions.foldl History.extend h).taken = h.taken := by
  induction actions generalizing h with
  | nil => exact ⟨fun x hx => (List.not_mem_nil hx).elim, rfl⟩
  | cons a later ih =>
    by_cases ha : a = .tick
    · subst ha
      obtain ⟨hr', hq, hvalid⟩ := hr.tick (hu _ List.mem_cons_self)
      obtain ⟨hsilent, htaken⟩ := ih (h := h.ticked) hr'
        fun x hx => hu x (List.mem_cons_of_mem _ hx)
      refine ⟨List.forall_mem_cons.mpr ⟨hvalid, hsilent⟩, ?_⟩
      change (later.foldl History.extend h.ticked).taken = _
      rw [htaken, History.ticked, takenBy_of_kept hq, List.append_nil]
    · have htarget : (h.extend a).target = h.target.act a := History.target_extend h a
      have he : h.target.exchanges (a :: later) = (h.extend a).target.exchanges later := by
        rw [htarget, exchanges_of_ne_tick ha]
      have hr' : (h.extend a).target.Resting := by
        obtain ⟨-, hphase⟩ := act_of_ne_tick (t := h.target) ha
        rw [htarget, Resting, hphase]
        exact hr
      obtain ⟨hsilent, htaken⟩ := ih hr' fun x hx => hu x (he ▸ hx)
      refine ⟨he ▸ hsilent, ?_⟩
      rw [List.foldl_cons, htaken, History.taken_extend_of_ne_tick h ha]

/-- A run in which an exact read finds too few entries in the first tick: it fails there, and
nothing is answered or taken, then or later. -/
structure Fails (u : Target) (later : List Action) : Prop where
  failed : (Device.tick u).response = { kind := .pollFailed }
  queue : (Device.tick u).queue = u.queue
  silent : ∀ x ∈ (Device.tick u).exchanges later, x.2.valid = 0
  taken : ((Action.tick :: later).foldl History.extend { target := u }).taken = []

/-- A run in which an exact read answers the elements of the entries, of which every tick answers
the next chunk. -/
structure Answers (shape : Shape) (entries : List (Entry 4)) (u : Target)
    (actions : List Action) : Prop where
  responses : (u.exchanges actions).map Prod.snd =
    (entries.flatMap fun e => elementResponses e shape.bytes).take (u.exchanges actions).length
  running : ∀ x ∈ u.exchanges actions, x.2.kind = .running ∧ 0 < x.2.valid
  /-- An entry is taken with the last chunk of its element. -/
  taken : (actions.foldl History.extend { target := u }).taken =
    entries.take ((u.exchanges actions).length / ((shape.bytes + 3) / 4))
  /-- With a tick for each chunk the read is over, and all the bytes are answered. -/
  whole : (u.exchanges actions).length = entries.length * ((shape.bytes + 3) / 4) →
    ((u.exchanges actions).flatMap fun x => answeredBytes x.2) =
        entries.flatMap (fun e => elementBytes e shape.bytes) ∧
      (actions.foldl History.extend { target := u }).taken = entries ∧
      (actions.foldl act u).phase = .waiting

private theorem mem_elementResponses {bytes : Nat} {r : Response}
    (hr : r ∈ elementResponses e bytes) : r.kind = .running ∧ 0 < r.valid := by
  obtain ⟨i, hi, rfl⟩ := List.mem_map.mp hr
  have hlt := List.mem_range.mp hi
  refine ⟨rfl, ?_⟩
  change 0 < min 4 (bytes - 4 * i)
  omega

private theorem Pledged.waiting (hp : Pledged shape t [] i) (h : t.Sound) : t.phase = .waiting := by
  cases hp with
  | reading hr _ _ _ hl =>
    have hpos := (h.reading _ hr).left_pos
    rw [← hl] at hpos
    exact absurd hpos (Nat.lt_irrefl 0)
  | done hw => exact hw

private theorem Pledged.answers {u : Target} (hs : u.Sound) (hp : Pledged shape u entries 0)
    {actions : List Action} (hu : Unbroken u actions)
    (hk : (u.exchanges actions).length ≤ entries.length * ((shape.bytes + 3) / 4)) :
    Answers shape entries u actions := by
  rw [← length_owed] at hk
  have hf := Pledged.fulfils (h := { target := u }) hs hp hu hk
  have hresponses : (u.exchanges actions).map Prod.snd =
      (owed shape entries 0).take (u.exchanges actions).length := hf.responses
  have htaken := hf.taken
  have hpledged := hf.pledged
  rw [Nat.zero_add] at htaken hpledged
  refine ⟨hresponses, fun x hx => ?_, htaken, fun hwhole => ?_⟩
  · have hmem := List.mem_map_of_mem (f := Prod.snd) hx
    rw [hresponses] at hmem
    obtain ⟨e, -, he⟩ := List.mem_flatMap.mp (List.mem_of_mem_take hmem)
    exact mem_elementResponses he
  · have hdiv : (u.exchanges actions).length / ((shape.bytes + 3) / 4) = entries.length := by
      rw [hwhole, Nat.mul_div_cancel _ (hp.lt hs)]
    rw [hdiv, List.take_length] at htaken
    rw [hdiv, List.drop_length] at hpledged
    refine ⟨?_, htaken, hpledged.waiting (hs.foldl actions)⟩
    calc (u.exchanges actions).flatMap (fun x => answeredBytes x.2)
        = ((u.exchanges actions).map Prod.snd).flatMap answeredBytes := by rw [List.flatMap_map]
      _ = (owed shape entries 0).flatMap answeredBytes := by
        rw [hresponses, hwhole, ← length_owed, List.take_length]
      _ = entries.flatMap fun e => elementBytes e shape.bytes := by
        rw [owed, List.drop_zero, List.flatMap_assoc]
        simp only [answeredBytes_elementResponses]

/-- The phase of a target that has just taken an exact read: its next tick makes the check. -/
def Checking (shape : Shape) (t : Target) : Prop :=
  t.phase = .executing (.ofOperation (.read .exactly shape))

private theorem Checking.tick_of_short (hp : t.Checking shape) (h : t.Sound) (hc : t.Continues)
    (hlt : t.queue.items.length < shape.count) :
    Device.tick t = t.enter (.ended .pollFailed) := by
  unfold Checking at hp
  have hr : Reading.Refused ⟨.exactly, shape, false, shape.count, 0⟩ t := by
    refine ⟨rfl, rfl, ?_⟩
    rw [h.tallied]
    exact hlt
  generalize ht : Device.tick t = t'
  have hmove : Move t t' := ht ▸ t.step_move
  cases hmove with
  | enter he =>
    cases he with
    | refuse => rfl
    | start _ hs => cases hc.symm.trans hs
    | runDry hp' _ hn =>
      cases hp.symm.trans hp'
      exact absurd hr hn
    | sleep h | acknowledge h | hold h | skip h | await h | close h | cut h | reject h =>
      cases hp.symm.trans h
  | chunk hp' _ hn | element hp' _ hn =>
    cases hp.symm.trans hp'
    exact absurd hr hn
  | decode h | report h => cases hp.symm.trans h

private theorem Checking.fails (hp : t.Checking shape) (h : t.Sound)
    (hlt : t.queue.items.length < shape.count) {later : List Action}
    (hu : Unbroken t (.tick :: later)) : Fails t later := by
  have ht := hp.tick_of_short h (hu _ List.mem_cons_self) hlt
  have hq : (Device.tick t).queue = t.queue := by
    rw [ht]
    rfl
  have hrest : (Device.tick t).Resting := by
    rw [ht]
    exact .inr ⟨_, rfl⟩
  obtain ⟨hsilent, htaken⟩ := Resting.silent (h := History.ticked { target := t }) hrest
    fun x hx => hu x (List.mem_cons_of_mem _ hx)
  refine ⟨?_, hq, hsilent, ?_⟩
  · rw [ht]
    rfl
  · change (later.foldl History.extend (History.ticked { target := t })).taken = []
    rw [htaken, History.ticked, takenBy_of_kept hq, List.append_nil]

private theorem Checking.answers (hp : t.Checking shape) (h : t.Sound)
    (hle : shape.count ≤ t.queue.items.length) {actions : List Action} (hu : Unbroken t actions)
    (hk : (t.exchanges actions).length ≤ shape.count * ((shape.bytes + 3) / 4)) :
    Answers shape (t.queue.items.take shape.count) t actions := by
  have hlen : (t.queue.items.take shape.count).length = shape.count := List.length_take_of_le hle
  have hpledged : Pledged shape t (t.queue.items.take shape.count) 0 :=
    .reading hp rfl rfl rfl hlen (List.take_prefix ..)
  exact hpledged.answers h hu (hlen.symm ▸ hk)

/-- What is done before the next tick leaves the check to it. -/
private theorem Checking.foldl (hp : t.Checking shape) {before : List Action}
    (hb : ∀ a ∈ before, a ≠ .tick) : (before.foldl act t).Checking shape := by
  induction before generalizing t with
  | nil => exact hp
  | cons a before ih =>
    obtain ⟨ha, hb⟩ := List.forall_mem_cons.mp hb
    exact ih ((act_of_ne_tick ha).2.trans hp) hb

/-- Once an exact read is taken, all depends on the entries that are queued at the next tick: with
too few of them the read fails there, and else its elements are answered in the ticks from there on,
whatever is offered and driven meanwhile, short of a restart. -/
theorem exact_read_all_or_nothing (h : t.Reachable)
    (hf : frontOperation t.request.bytes = .ok (.read .exactly shape))
    (hc : (Device.tick t).response.consumed ≠ 0) {before later : List Action}
    (hb : ∀ a ∈ before, a ≠ .tick)
    (hu : Unbroken (before.foldl act (Device.tick t)) (.tick :: later)) :
    let u := before.foldl act (Device.tick t)
    (u.queue.items.length < shape.count → Fails u later) ∧
      (shape.count ≤ u.queue.items.length →
        (u.exchanges (.tick :: later)).length ≤ shape.count * ((shape.bytes + 3) / 4) →
          Answers shape (u.queue.items.take shape.count) u (.tick :: later)) := by
  obtain ⟨-, op, hop, hphase⟩ := (step_move t).of_consumed hc
  cases hf.symm.trans hop
  have hcheck : (before.foldl act (Device.tick t)).Checking shape :=
    Checking.foldl hphase hb
  have hs : (before.foldl act (Device.tick t)).Sound := h.sound.step.foldl before
  exact ⟨fun hlt => hcheck.fails hs hlt hu, fun hle hk => hcheck.answers hs hle hu hk⟩

/-- A target with room for two entries that holds one, and is sent a read of just two. -/
def awaiting : Target :=
  List.foldl act (vacant 2)
    [.offer ⟨1, #v[0x0807060504030201, 0, 0, 0]⟩, .drive { command := .startClear }, .tick,
      .drive { command := .dataLast, valid := 3, data := 0x000185 }]

/-- The other entry comes in time for the check. -/
theorem exact_read_all_or_nothing_awaiting :
    awaiting.Reachable ∧
      frontOperation awaiting.request.bytes = .ok (.read .exactly (.ofFields 0x85 1 0)) ∧
      (Device.tick awaiting).response.consumed ≠ 0 ∧
      ∃ u, u = List.foldl act (Device.tick awaiting) [.offer ⟨2, #v[0x1817161514131211, 0, 0, 0]⟩] ∧
        Unbroken u [.tick, .drive {}, .tick, .offer .blank, .tick, .tick] ∧
        2 ≤ u.queue.items.length ∧
        Answers (.ofFields 0x85 1 0) (u.queue.items.take 2) u
          [.tick, .drive {}, .tick, .offer .blank, .tick, .tick] := by
  have hr : awaiting.Reachable := ⟨2, _, rfl⟩
  have hc : (Device.tick awaiting).response.consumed ≠ 0 := by decide
  have hb : ∀ a ∈ [Action.offer ⟨2, #v[0x1817161514131211, 0, 0, 0]⟩], a ≠ .tick := by simp
  have hu : Unbroken (List.foldl act (Device.tick awaiting)
      [.offer ⟨2, #v[0x1817161514131211, 0, 0, 0]⟩])
      [.tick, .drive {}, .tick, .offer .blank, .tick, .tick] := by
    unfold Unbroken
    decide
  refine ⟨hr, rfl, hc, _, rfl, hu, by decide, ?_⟩
  exact (exact_read_all_or_nothing hr rfl hc hb hu).2 (by decide) (by decide)

end LogBench.Target
