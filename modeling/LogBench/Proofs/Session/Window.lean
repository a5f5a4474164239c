import LogBench.Proofs.Session.Turn
import LogBench.Proofs.Target.Outlook

/-! A data request shows the target six bytes of a script, which is enough for any operation. So a
target that is sent the bytes in this way answers them as their meaning foresees. -/
namespace LogBench.Session
open Link Script Target

/-- Six bytes fit the data register. -/
theorem data_dataRequest (pending : List UInt8) :
    (dataRequest pending).data.toNat = Bytes.littleEndian (pending.take requestBytes) := by
  have hlen : (pending.take requestBytes).length ≤ 6 := List.length_take_le ..
  have hlt := Bytes.littleEndian_lt (pending.take requestBytes)
  have hcap : 256 ^ (pending.take requestBytes).length ≤ 256 ^ 6 :=
    Nat.pow_le_pow_right (by decide) hlen
  unfold dataRequest
  rw [UInt64.toNat_ofNat']
  exact Nat.mod_eq_of_lt (by omega)

theorem bytes_dataRequest (pending : List UInt8) :
    (dataRequest pending).bytes = pending.take requestBytes := by
  have hvalid : min (dataRequest pending).valid requestBytes =
      (pending.take requestBytes).length := Nat.min_eq_left (List.length_take_le ..)
  rw [Request.bytes, carriesBytes_dataRequest, if_pos rfl, hvalid, data_dataRequest,
    Bytes.toLittleEndian_littleEndian]

/-- An operation takes three bytes at most, so those shown decide whether there is one. -/
private theorem frontOperation_take (bytes : List UInt8) :
    frontOperation (bytes.take requestBytes) = frontOperation bytes := by
  rcases bytes with _ | ⟨a, _ | ⟨b, _ | ⟨c, rest⟩⟩⟩
  · rfl
  · rfl
  · rfl
  · rfl

private theorem of_truncated {bytes : List UInt8} {needed available : Nat}
    (h : frontOperation bytes = .error (.truncated needed available)) :
    available = bytes.length ∧ bytes.length < 3 := by
  cases bytes with
  | nil =>
    cases h
    exact ⟨rfl, by decide⟩
  | cons opcode rest =>
    simp only [frontOperation] at h
    split at h
    · cases h
    · split at h
      · split at h
        · cases h
        · rename_i hrest
          cases h
          refine ⟨rfl, ?_⟩
          rcases rest with _ | ⟨low, _ | ⟨high, more⟩⟩
          · exact (by decide : 1 < 3)
          · exact (by decide : 2 < 3)
          · exact absurd rfl (hrest low high more)
      · cases h

/-- More bytes than are shown are never cut within the next operation. -/
private theorem length_le_of_truncated {pending : List UInt8} {needed available : Nat}
    (h : frontOperation (pending.take requestBytes) = .error (.truncated needed available)) :
    available = pending.length ∧ pending.length < requestBytes := by
  rw [frontOperation_take] at h
  obtain ⟨ha, hlt⟩ := of_truncated h
  exact ⟨ha, Nat.lt_of_lt_of_le hlt (by decide)⟩

private theorem meaning_of_error {pending : List UInt8} {cause : OpcodeError}
    (hne : pending ≠ []) (h : frontOperation (pending.take requestBytes) = .error cause)
    (queue : Queue.Bounded (Entry 4)) : meaning queue pending = ⟨.errored, [], queue⟩ := by
  obtain ⟨b, rest, rfl⟩ := List.exists_cons_of_ne_nil hne
  rw [frontOperation_take] at h
  exact meaning_of_rejected h queue

private theorem starts_dataRequest (pending : List UInt8) :
    (dataRequest pending).command.starts = false := by
  unfold dataRequest
  split <;> rfl

private theorem foreseen_of_waiting {t t' : Target} (hp : t.phase = .waiting)
    {pending : List UInt8} (hm : Move (Device.drive t (dataRequest pending)) t') :
    Foreseen t t' pending := by
  have hb := bytes_dataRequest pending
  have hs := starts_dataRequest pending
  have hc := carriesBytes_dataRequest pending
  unfold Foreseen
  rw [outlook_waiting hp]
  cases hm with
  | enter he =>
    cases he with
    | start _ h => cases hs.symm.trans h
    | skip _ _ h => cases hc.symm.trans h
    | await _ hd hf =>
      -- The request would be marked as the last one.
      obtain ⟨-, hlt⟩ := length_le_of_truncated (hb ▸ hf)
      have hl : (dataRequest pending).command = .dataLast := if_neg (Nat.not_lt_of_gt hlt)
      cases hl.symm.trans hd
    | close _ _ hf =>
      obtain ⟨h0, -⟩ := length_le_of_truncated (hb ▸ hf)
      rw [List.eq_nil_of_length_eq_zero h0.symm, meaning]
      rfl
    | cut _ _ hf ha =>
      obtain ⟨hlen, -⟩ := length_le_of_truncated (hb ▸ hf)
      rw [meaning_of_error (List.ne_nil_of_length_pos (by omega)) (hb ▸ hf)]
      rfl
    | reject _ _ hf =>
      have hne : pending ≠ [] := by
        rintro rfl
        cases hf
      rw [meaning_of_error hne (hb ▸ hf)]
      rfl
    | sleep h | acknowledge h | hold h | refuse h | runDry h => cases hp.symm.trans h
  | @decode op _ _ hf =>
    rw [meaning_of_decoded ((frontOperation_take pending).symm.trans (hb ▸ hf)), closed_after]
    rfl
  | report h | chunk h | element h => cases hp.symm.trans h

/-- A running target that is sent a data request for the next bytes of its script. -/
theorem foreseen_of_data {t : Target} (h : t.Sound) (hk : t.response.kind = .running)
    (pending : List UInt8) :
    Foreseen t (Device.tick (Device.drive t (dataRequest pending))) pending := by
  have hm := step_move (Device.drive t (dataRequest pending))
  rcases phase_of_running h hk with hp | ⟨x, hx⟩
  · exact foreseen_of_waiting hp hm
  · exact (h.drive (dataRequest pending)).foreseen_of_executing hx (starts_dataRequest pending) hm pending

/-- A running target that is sent an idle pulse goes on executing, or it goes on waiting. -/
theorem foreseen_of_idle {t : Target} (h : t.Sound) (hk : t.response.kind = .running)
    (request : Request) (hr : request.command = .idle) (pending : List UInt8) :
    Foreseen t (Device.tick (Device.drive t request)) pending ∨
      t.phase = .waiting ∧
        Device.tick (Device.drive t request) = (Device.drive t request).enter .waiting := by
  have hs : request.command.starts = false := by rw [hr]; rfl
  have hm := step_move (Device.drive t request)
  rcases phase_of_running h hk with hp | ⟨x, hx⟩
  · refine .inr ⟨hp, ?_⟩
    have hc : request.command.carriesBytes = false := by rw [hr]; rfl
    simp only [Device.tick, Device.drive, step, hp, hs, accept, hc, Bool.false_eq_true, if_false]
  · exact .inl ((h.drive request).foreseen_of_executing hx hs hm pending)

end LogBench.Session
