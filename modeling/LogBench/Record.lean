import LogBench.Bytes
import LogBench.Entry
import LogBench.Program.Print

/-! Records: a program with the address it prints to, and the words that carry it over the bus. -/
namespace LogBench

/-- One byte on its way to memory, or the mark that ends a record. -/
structure OutputByte where
  address : UInt16
  byte : UInt8
  last : Bool
  valid : Bool
  deriving DecidableEq, Repr

def minWords : Nat := 4

namespace Program

/-- Eight bytes to a word, most significant first, the last word filled up with zeros. -/
def chunkWords : List UInt8 → List UInt64
  | [] => []
  | b :: rest =>
    let chunk := (b :: rest).take 8
    UInt64.ofNat (Bytes.bigEndian (chunk ++ List.replicate (8 - chunk.length) 0)) ::
      chunkWords ((b :: rest).drop 8)
  termination_by bytes => bytes.length
  decreasing_by simp only [List.length_drop, List.length_cons]; omega

/-- The words of a program. A short program that ends with a full word repeats that word once,
and zeros follow up to the fewest words. -/
def words (program : Program) : List UInt64 :=
  let full := chunkWords program
  if full.length < minWords then
    let repeated := if program.length % 8 = 0 then full ++ full.getLast?.toList else full
    repeated ++ List.replicate (minWords - repeated.length) 0
  else full

/-- A program that ends with the given numbers, eight bytes each, most significant first. -/
def appendWords (program : Program) (ints : List UInt64) : Program :=
  program ++ ints.flatMap fun n => Bytes.toBigEndian 8 n.toNat

end Program

structure Record where
  address : UInt16
  program : Program
  output : List UInt8
  print_eq : program.print = .ok output

namespace Record

def ofProgram? (address : UInt16) (program : Program) : Except Program.PadError Record :=
  match h : program.print with
  | .ok output => .ok ⟨address, program, output, h⟩
  | .error e => .error e

theorem program_of_ofProgram? {address : UInt16} {program : Program} {r : Record}
    (h : ofProgram? address program = .ok r) : r.program = program := by
  unfold ofProgram? at h
  split at h
  · cases h
    rfl
  · cases h

theorem ofProgram?_of_print {program : Program} {output : List UInt8}
    (h : program.print = .ok output) (address : UInt16) :
    ofProgram? address program = .ok ⟨address, program, output, h⟩ := by
  unfold ofProgram?
  split
  · rename_i output' h'
    cases h.symm.trans h'
    rfl
  · rename_i e h'
    cases h.symm.trans h'

theorem ofProgram?_of_print_error {program : Program} {cause : Program.PadError}
    (h : program.print = .error cause) (address : UInt16) :
    ofProgram? address program = .error cause := by
  unfold ofProgram?
  split
  · rename_i output h'
    cases h.symm.trans h'
  · rename_i e h'
    cases h.symm.trans h'
    rfl

def words (r : Record) : List UInt64 := r.program.words

/-- The first `n` words of a record; zeros fill a longer request. -/
def entry (r : Record) (n : Nat) : Entry n :=
  ⟨r.address, Vector.ofFn fun i => r.words.getD i 0⟩

/-- The text byte by byte at ascending addresses, which wrap around, and the mark at its end. -/
def outputBytes (r : Record) : List OutputByte :=
  r.output.zipIdx.map (fun (b, i) => ⟨r.address + UInt16.ofNat i, b, false, true⟩) ++
    [⟨0, 0, true, false⟩]

end Record

end LogBench
