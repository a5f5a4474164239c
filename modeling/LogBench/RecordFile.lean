import LogBench.Record
import LogBench.Text.Address
import LogBench.Text.Blank
import LogBench.Text.Fields
import LogBench.Text.Hex

/-!
Record files: a line holds an address, a colon and the bytes of a program. What follows a `#` is a
comment, and a line with nothing before it holds no record.
-/
namespace LogBench.RecordFile

inductive LineError where
  | noAddress
  | illegibleAddress (text : List Char)
  | illegibleBytes (text : List Char)
  | unprintable (cause : Program.PadError)
  deriving DecidableEq, Repr

/-- What is wrong with a file: the first bad line, counted from one. -/
structure FileError where
  line : Nat
  cause : LineError
  deriving DecidableEq, Repr

def FileError.message (e : FileError) : String :=
  s!"line {e.line}: " ++
    match e.cause with
    | .noAddress => "expected `ADDR: BYTES`"
    | .illegibleAddress text => s!"invalid address `{String.ofList text}`"
    | .illegibleBytes text => s!"invalid program bytes `{String.ofList text}`"
    | .unprintable cause => cause.message

/-- An address in a file may be marked in either case. -/
def addressMarks : List (List Char) := [['0', 'x'], ['0', 'X']]

def content (line : List Char) : List Char :=
  Text.trim (line.takeWhile (· ≠ '#'))

def splitColon? (text : List Char) : Option (List Char × List Char) :=
  if ':' ∈ text then some (text.takeWhile (· ≠ ':'), (text.dropWhile (· ≠ ':')).tail) else none

/-- The record on a line. The address is looked at before the bytes, and both before the program. -/
def readContent (text : List Char) : Except LineError Record :=
  match splitColon? text with
  | none => .error .noAddress
  | some (front, back) =>
    let front := Text.trim front
    match Address.read? addressMarks front with
    | none => .error (.illegibleAddress front)
    | some address =>
      match Hex.read? back with
      | none => .error (.illegibleBytes (Text.trim back))
      | some program =>
        match Record.ofProgram? address program with
        | .error cause => .error (.unprintable cause)
        | .ok record => .ok record

def readLine (line : List Char) : Except LineError (Option Record) :=
  let text := content line
  if text.isEmpty then .ok none else some <$> readContent text

def readLines (number : Nat) : List (List Char) → Except FileError (List Record)
  | [] => .ok []
  | line :: later =>
    match readLine line with
    | .error cause => .error ⟨number, cause⟩
    | .ok found => do
      let records ← readLines (number + 1) later
      return found.toList ++ records

def read (text : List Char) : Except FileError (List Record) :=
  readLines 1 (Text.fields '\n' text)

end LogBench.RecordFile
