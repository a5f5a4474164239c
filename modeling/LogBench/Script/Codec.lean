import LogBench.Bytes
import LogBench.Script.Operation
import LogBench.Text.Numeral

/-! Scripts as bytes: an opcode byte, and for a read the count less one in two bytes. -/
namespace LogBench.Script

inductive OpcodeError where
  | undefined (opcode : UInt8)
  | truncated (needed available : Nat)
  deriving DecidableEq, Repr

structure DecodeError where
  offset : Nat
  cause : OpcodeError
  deriving DecidableEq, Repr

namespace DecodeError

def fault (_ : DecodeError) : Fault := .badScript

def message (e : DecodeError) : String :=
  match e.cause with
  | .undefined opcode =>
    "undefined opcode 0x" ++ Numeral.hexPadded 2 opcode.toNat ++ s!" at offset {e.offset}"
  | .truncated needed available =>
    s!"opcode at offset {e.offset} needs {needed} bytes, {available} available"

end DecodeError

/-- The opcodes of a mode are this one and the 63 after it, by width in bytes less one. -/
def ReadMode.firstOpcode : ReadMode → Nat
  | .upTo => 0x40
  | .exactly => 0x80

namespace Operation

def encode : Operation → List UInt8
  | status => [0x00]
  | read mode shape =>
    UInt8.ofNat (mode.firstOpcode + (shape.bytes - 1)) :: Bytes.toLittleEndian 2 (shape.count - 1)

def size : Operation → Nat
  | status => 1
  | read .. => 3

theorem length_encode (op : Operation) : op.encode.length = op.size := by
  cases op <;> simp [encode, size]

theorem size_pos (op : Operation) : 0 < op.size := by
  cases op <;> simp [size]

end Operation

def opcodeSize? (opcode : UInt8) : Option Nat :=
  if opcode = 0x00 then some 1
  else if 0x40 ≤ opcode ∧ opcode < 0xC0 then some 3
  else none

/-- The shape that is written in an opcode's low six bits and the two bytes after it. -/
def Shape.ofFields (opcode low high : UInt8) : Shape where
  bytes := opcode.toNat % 64 + 1
  count := low.toNat + 256 * high.toNat + 1
  bytes_pos := by omega
  bytes_le := by omega
  count_pos := by omega
  count_le := by
    have hl := low.toNat_lt
    have hh := high.toNat_lt
    omega

def frontOperation : List UInt8 → Except OpcodeError Operation
  | [] => .error (.truncated 1 0)
  | opcode :: rest =>
    if opcode = 0x00 then .ok .status
    else if 0x40 ≤ opcode ∧ opcode < 0xC0 then
      match rest with
      | low :: high :: _ =>
        .ok (.read (if opcode < 0x80 then .upTo else .exactly) (Shape.ofFields opcode low high))
      | _ => .error (.truncated 3 (rest.length + 1))
    else .error (.undefined opcode)

/-- The fields that are written for a shape are those that it is read from. -/
theorem Shape.ofFields_of_toNat (s : Shape) (opcode low high : UInt8)
    (hb : opcode.toNat % 64 = s.bytes - 1) (hc : low.toNat + 256 * high.toNat = s.count - 1) :
    Shape.ofFields opcode low high = s := by
  have hpos := s.bytes_pos
  have hcpos := s.count_pos
  have hbytes : opcode.toNat % 64 + 1 = s.bytes := by omega
  have hcount : low.toNat + 256 * high.toNat + 1 = s.count := by omega
  simp only [Shape.ofFields, hbytes, hcount]

/-- An encoded operation is read back, whatever follows it. -/
theorem frontOperation_encode (op : Operation) (rest : List UInt8) :
    frontOperation (op.encode ++ rest) = .ok op := by
  cases op with
  | status => rfl
  | read mode shape =>
    have hb := shape.bytes_le
    have hc := shape.count_le
    have hcount : (UInt8.ofNat (shape.count - 1)).toNat +
        256 * (UInt8.ofNat ((shape.count - 1) / 256)).toNat = shape.count - 1 := by
      simp only [UInt8.toNat_ofNat']
      omega
    cases mode with
    | upTo =>
      have hop : (UInt8.ofNat (0x40 + (shape.bytes - 1))).toNat = 0x40 + (shape.bytes - 1) := by
        rw [UInt8.toNat_ofNat']
        omega
      have hs := Shape.ofFields_of_toNat shape (.ofNat (0x40 + (shape.bytes - 1))) _ _ (by omega)
        hcount
      simp only [Operation.encode, ReadMode.firstOpcode, Bytes.toLittleEndian, List.cons_append,
        List.nil_append, frontOperation, hs]
      rw [if_neg, if_pos, if_pos]
      all_goals
        simp only [UInt8.lt_iff_toNat_lt, UInt8.le_iff_toNat_le, ← UInt8.toNat_inj, hop]
        simp <;> omega
    | exactly =>
      have hop : (UInt8.ofNat (0x80 + (shape.bytes - 1))).toNat = 0x80 + (shape.bytes - 1) := by
        rw [UInt8.toNat_ofNat']
        omega
      have hs := Shape.ofFields_of_toNat shape (.ofNat (0x80 + (shape.bytes - 1))) _ _ (by omega)
        hcount
      simp only [Operation.encode, ReadMode.firstOpcode, Bytes.toLittleEndian, List.cons_append,
        List.nil_append, frontOperation, hs]
      rw [if_neg, if_pos, if_neg]
      all_goals
        simp only [UInt8.lt_iff_toNat_lt, UInt8.le_iff_toNat_le, ← UInt8.toNat_inj, hop]
        simp <;> omega

/-- The bytes that a shape is read from are those that are written for it. -/
theorem encode_read_ofFields {mode : ReadMode} {opcode : UInt8} (low high : UInt8)
    (h : mode.firstOpcode + opcode.toNat % 64 = opcode.toNat) :
    (Operation.read mode (Shape.ofFields opcode low high)).encode = [opcode, low, high] := by
  have hl := low.toNat_lt
  have hh := high.toNat_lt
  have hdiv : (low.toNat + 256 * high.toNat) / 256 = high.toNat := by omega
  have hlow : UInt8.ofNat (low.toNat + 256 * high.toNat) = low := by
    rw [← UInt8.toNat_inj, UInt8.toNat_ofNat']
    omega
  simp only [Operation.encode, Shape.ofFields, Nat.add_sub_cancel, h, Bytes.toLittleEndian, hdiv,
    hlow, UInt8.ofNat_toNat]

/-- What is read off the front of a byte string is written there. -/
theorem exists_append_of_frontOperation {bytes : List UInt8} {op : Operation}
    (h : frontOperation bytes = .ok op) : ∃ rest, bytes = op.encode ++ rest := by
  cases bytes with
  | nil => cases h
  | cons opcode rest =>
    simp only [frontOperation] at h
    split at h
    · rename_i h0
      cases h
      exact ⟨rest, congrArg (· :: rest) h0⟩
    · split at h
      · rename_i hr
        split at h
        · cases h
          refine ⟨_, congrArg (· ++ _) (encode_read_ofFields _ _ ?_).symm⟩
          simp only [UInt8.le_iff_toNat_le, UInt8.lt_iff_toNat_lt, UInt8.toNat_ofNat] at hr ⊢
          split
          · simp only [ReadMode.firstOpcode]
            omega
          · simp only [ReadMode.firstOpcode]
            omega
        · cases h
      · cases h

def encode (script : Script) : List UInt8 :=
  script.flatMap Operation.encode

/-- Decodes what remains of a script once `offset` bytes of it are done. -/
def decodeFrom (offset : Nat) : List UInt8 → Except DecodeError Script
  | [] => .ok []
  | b :: rest =>
    match frontOperation (b :: rest) with
    | .error cause => .error ⟨offset, cause⟩
    | .ok op => do
      let later ← decodeFrom (offset + op.size) ((b :: rest).drop op.size)
      return op :: later
  termination_by bytes => bytes.length
  decreasing_by
    have := op.size_pos
    simp only [List.length_drop, List.length_cons]
    omega

def decode (bytes : List UInt8) : Except DecodeError Script :=
  decodeFrom 0 bytes

end LogBench.Script
