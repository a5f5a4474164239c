import LogBench.Script.Codec
import Mathlib.Algebra.GroupWithZero.Nat

/-! Which byte strings are scripts, and where and why the others are not: every byte string is, in one
way, the bytes of a script and after them none, or some that no operation can be read off. -/
namespace LogBench.Script

/-- Bytes with no operation at their front: the first is no opcode, or it calls for more bytes than
there are. -/
inductive Unreadable : List UInt8 → OpcodeError → Prop
  | undefined {opcode : UInt8} {later : List UInt8} :
      0x01 ≤ opcode ∧ opcode ≤ 0x3F ∨ 0xC0 ≤ opcode →
      Unreadable (opcode :: later) (.undefined opcode)
  | truncated {opcode : UInt8} {later : List UInt8} :
      0x40 ≤ opcode → opcode ≤ 0xBF → (opcode :: later).length < 3 →
      Unreadable (opcode :: later) (.truncated 3 (opcode :: later).length)

private theorem undefined_iff (opcode : UInt8) :
    0x01 ≤ opcode ∧ opcode ≤ 0x3F ∨ 0xC0 ≤ opcode ↔
      opcode ≠ 0x00 ∧ ¬ (0x40 ≤ opcode ∧ opcode < 0xC0) := by
  simp only [ne_eq, UInt8.le_iff_toNat_le, UInt8.lt_iff_toNat_lt, ← UInt8.toNat_inj,
    UInt8.toNat_ofNat]
  omega

private theorem read_iff (opcode : UInt8) :
    0x40 ≤ opcode ∧ opcode ≤ 0xBF ↔ opcode ≠ 0x00 ∧ 0x40 ≤ opcode ∧ opcode < 0xC0 := by
  simp only [ne_eq, UInt8.le_iff_toNat_le, UInt8.lt_iff_toNat_lt, ← UInt8.toNat_inj,
    UInt8.toNat_ofNat]
  omega

private theorem frontOperation_of_unreadable {bytes : List UInt8} {cause : OpcodeError}
    (h : Unreadable bytes cause) : frontOperation bytes = .error cause := by
  cases h with
  | @undefined opcode later hrange =>
    obtain ⟨hstatus, hread⟩ := (undefined_iff opcode).mp hrange
    simp only [frontOperation, hstatus, hread, if_false]
  | @truncated opcode later hlow hhigh hshort =>
    obtain ⟨hstatus, hread⟩ := (read_iff opcode).mp ⟨hlow, hhigh⟩
    simp only [frontOperation, hstatus, hread, if_false, and_self, if_true]
    rcases later with _ | ⟨low, _ | ⟨high, more⟩⟩
    · rfl
    · rfl
    · simp only [List.length_cons] at hshort
      omega

private theorem unreadable_of_frontOperation {opcode : UInt8} {later : List UInt8}
    {cause : OpcodeError} (h : frontOperation (opcode :: later) = .error cause) :
    Unreadable (opcode :: later) cause := by
  simp only [frontOperation] at h
  split at h
  case isTrue => cases h
  case isFalse hstatus =>
    split at h
    case isTrue hread =>
      obtain ⟨hlow, hhigh⟩ := (read_iff opcode).mpr ⟨hstatus, hread⟩
      rcases later with _ | ⟨low, _ | ⟨high, more⟩⟩
      · cases h
        exact .truncated hlow hhigh (by simp)
      · cases h
        exact .truncated hlow hhigh (by simp)
      · cases h
    case isFalse hread =>
      cases h
      exact .undefined ((undefined_iff opcode).mpr ⟨hstatus, hread⟩)

private theorem decodeFrom_encode_append (offset : Nat) (op : Operation) (bytes : List UInt8) :
    decodeFrom offset (op.encode ++ bytes) =
      (decodeFrom (offset + op.size) bytes).map (op :: ·) := by
  have hfront := frontOperation_encode op bytes
  have hdrop : (op.encode ++ bytes).drop op.size = bytes := List.drop_left' op.length_encode
  have hne : op.encode ++ bytes ≠ [] := by
    refine List.append_ne_nil_of_left_ne_nil (List.ne_nil_of_length_pos ?_) bytes
    rw [op.length_encode]
    exact op.size_pos
  obtain ⟨b, rest, hcons⟩ := List.exists_cons_of_ne_nil hne
  rw [hcons] at hfront hdrop ⊢
  rw [decodeFrom, hfront]
  simp only [hdrop]
  cases decodeFrom (offset + op.size) bytes <;> rfl

private theorem decodeFrom_of_unreadable {bytes : List UInt8} {cause : OpcodeError}
    (h : Unreadable bytes cause) (offset : Nat) :
    decodeFrom offset bytes = .error ⟨offset, cause⟩ := by
  have hfront := frontOperation_of_unreadable h
  cases h with
  | undefined | truncated => rw [decodeFrom, hfront]

/-- The operations of a script are decoded first, and the offset moves on past them. -/
theorem decodeFrom_append (offset : Nat) (script : Script) (rest : List UInt8) :
    decodeFrom offset (encode script ++ rest) =
      (decodeFrom (offset + (encode script).length) rest).map (script ++ ·) := by
  induction script generalizing offset with
  | nil =>
    change decodeFrom offset rest = (decodeFrom offset rest).map ([] ++ ·)
    cases decodeFrom offset rest <;> rfl
  | cons op later ih =>
    have hcons : encode (op :: later) = op.encode ++ encode later := List.flatMap_cons
    rw [hcons, List.append_assoc, decodeFrom_encode_append, ih, List.length_append,
      op.length_encode, Nat.add_assoc]
    cases decodeFrom (offset + (op.size + (encode later).length)) rest <;> rfl

private theorem length_encode (script : Script) :
    (encode script).length = (script.map Operation.size).sum := by
  rw [encode, List.length_flatMap]
  exact congrArg List.sum (List.map_congr_left fun op _ => op.length_encode)

theorem decode_encode (script : Script) : decode (encode script) = .ok script := by
  have h := decodeFrom_append 0 script []
  rw [List.append_nil] at h
  rw [decode, h, decodeFrom]
  exact congrArg Except.ok (List.append_nil script)

/-- Where the bytes of a script end, either nothing is left or what is left cannot be read. -/
private theorem exists_split (bytes : List UInt8) :
    ∃ script rest, bytes = encode script ++ rest ∧
      (rest = [] ∨ ∃ cause, Unreadable rest cause) := by
  -- By strong induction on the length, since an operation takes one byte or three.
  induction hn : bytes.length using Nat.strongRecOn generalizing bytes with
  | ind n ih =>
    cases bytes with
    | nil => exact ⟨[], [], rfl, .inl rfl⟩
    | cons b later =>
      cases hf : frontOperation (b :: later) with
      | error cause => exact ⟨[], b :: later, rfl, .inr ⟨cause, unreadable_of_frontOperation hf⟩⟩
      | ok op =>
        obtain ⟨tail, htail⟩ := exists_append_of_frontOperation hf
        have hlen : tail.length < n := by
          have hpos := op.size_pos
          rw [← hn, htail, List.length_append, op.length_encode]
          omega
        obtain ⟨script, rest, hsplit, hrest⟩ := ih tail.length hlen tail rfl
        refine ⟨op :: script, rest, ?_, hrest⟩
        rw [htail, hsplit, ← List.append_assoc]
        rfl

/-- The bytes of a script, and after them some that cannot be read. -/
structure Breaks (bytes : List UInt8) (script : Script) (rest : List UInt8) (cause : OpcodeError) :
    Prop where
  split : bytes = encode script ++ rest
  unreadable : Unreadable rest cause

variable {bytes rest rest' : List UInt8} {script script' : Script} {cause cause' : OpcodeError}

private theorem Breaks.decode (h : Breaks bytes script rest cause) :
    decode bytes = .error ⟨(encode script).length, cause⟩ := by
  rw [Script.decode, h.split, decodeFrom_append, Nat.zero_add, decodeFrom_of_unreadable h.unreadable]
  rfl

/-- The offset and the cause of the error tell the parts apart. -/
private theorem Breaks.unique (h : Breaks bytes script rest cause)
    (h' : Breaks bytes script' rest' cause') :
    script = script' ∧ rest = rest' ∧ cause = cause' := by
  have herror := h.decode.symm.trans h'.decode
  injection herror with herror
  injection herror with hlen hcause
  obtain ⟨hencode, hrest⟩ := List.append_inj (h.split.symm.trans h'.split) hlen
  have hscript := decode_encode script
  rw [hencode, decode_encode] at hscript
  exact ⟨(Except.ok.inj hscript).symm, hrest, hcause⟩

private theorem decodes_or_breaks (bytes : List UInt8) :
    (∃ script, bytes = encode script) ∨ ∃ script rest cause, Breaks bytes script rest cause := by
  obtain ⟨script, rest, hsplit, hrest | ⟨cause, hcause⟩⟩ := exists_split bytes
  · rw [hrest, List.append_nil] at hsplit
    exact .inl ⟨script, hsplit⟩
  · exact .inr ⟨script, rest, cause, hsplit, hcause⟩

private theorem encode_of_decode (h : decode bytes = .ok script) : encode script = bytes := by
  rcases decodes_or_breaks bytes with ⟨script', rfl⟩ | ⟨_, _, _, hbreaks⟩
  · rw [decode_encode] at h
    rw [Except.ok.inj h]
  · rw [hbreaks.decode] at h
    cases h

private theorem decode_eq_error_iff {e : DecodeError} : decode bytes = .error e ↔
    ∃ script rest cause, Breaks bytes script rest cause ∧ e = ⟨(encode script).length, cause⟩ := by
  constructor
  · intro h
    rcases decodes_or_breaks bytes with ⟨script, rfl⟩ | ⟨script, rest, cause, hbreaks⟩
    · rw [decode_encode] at h
      cases h
    · rw [hbreaks.decode] at h
      exact ⟨script, rest, cause, hbreaks, (Except.error.inj h).symm⟩
  · rintro ⟨script, rest, cause, hbreaks, rfl⟩
    exact hbreaks.decode

/-- Decoding and encoding are exact for all scripts and for all byte strings: what is decoded is
encoded by the same bytes and all its reads have shapes that are accepted; what is not decoded fails
at the end of the one script that it begins with, and for what stands there. -/
theorem codec_exact :
    (∀ script : Script, decode (encode script) = .ok script ∧
      (encode script).length = (script.map Operation.size).sum) ∧
    (∀ bytes script, decode bytes = .ok script → encode script = bytes ∧
      ∀ mode shape, Operation.read mode shape ∈ script →
        Shape.ofBits? shape.bits shape.count = .ok shape) ∧
    (∀ bytes e, decode bytes = .error e ↔ ∃ script rest cause,
      Breaks bytes script rest cause ∧ e = ⟨(encode script).length, cause⟩) ∧
    ∀ bytes script rest cause script' rest' cause', Breaks bytes script rest cause →
      Breaks bytes script' rest' cause' → script = script' ∧ rest = rest' ∧ cause = cause' := by
  refine ⟨fun script => ⟨decode_encode script, length_encode script⟩, ?_, ?_, ?_⟩
  · intro bytes script h
    exact ⟨encode_of_decode h, fun _ shape _ => shape.ofBits?_bits⟩
  · intro bytes e
    exact decode_eq_error_iff
  · intro bytes script rest cause script' rest' cause' h h'
    exact h.unique h'

def sample : Script := [.status, .read .exactly (.ofFields 0x84 0x01 0x01)]

/-- The third operation is cut after its second byte. -/
theorem codec_exact_sample :
    decode [0x00, 0x84, 0x01, 0x01] = .ok sample ∧
      encode sample = [0x00, 0x84, 0x01, 0x01] ∧
      Breaks [0x00, 0x84, 0x01, 0x01, 0x50, 0x07] sample [0x50, 0x07] (.truncated 3 2) ∧
      decode [0x00, 0x84, 0x01, 0x01, 0x50, 0x07] = .error ⟨4, .truncated 3 2⟩ ∧
      ∀ script rest cause, Breaks [0x00, 0x84, 0x01, 0x01, 0x50, 0x07] script rest cause →
        sample = script ∧ [0x50, 0x07] = rest ∧ .truncated 3 2 = cause := by
  obtain ⟨hencoded, hdecoded, hrejected, hunique⟩ := codec_exact
  have hbreaks : Breaks [0x00, 0x84, 0x01, 0x01, 0x50, 0x07] sample [0x50, 0x07] (.truncated 3 2) :=
    ⟨rfl, .truncated (by decide) (by decide) (by decide)⟩
  have hsample : decode [0x00, 0x84, 0x01, 0x01] = .ok sample := (hencoded sample).1
  refine ⟨hsample, (hdecoded _ _ hsample).1, hbreaks, ?_, ?_⟩
  · exact (hrejected _ _).mpr ⟨sample, _, _, hbreaks, rfl⟩
  · intro script rest cause h
    exact hunique _ _ _ _ _ _ _ hbreaks h

end LogBench.Script
