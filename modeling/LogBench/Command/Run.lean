import LogBench.Bench.Report
import LogBench.Clock.Divider
import LogBench.Command.Arguments
import LogBench.Command.Usage
import LogBench.Decimal.Positional
import LogBench.RecordFile
import LogBench.Script.Text
import LogBench.ShiftRegister.Basic
import LogBench.Text.Escaped

/-! What each command prints, given the contents of the file that it reads. -/
namespace LogBench.Command

inductive ReadError where
  | notFound
  | denied
  | notDirectory
  | isDirectory
  | other (text : String)
  deriving DecidableEq, Repr

def ReadError.message : ReadError → String
  | notFound => "No such file or directory (os error 2)"
  | denied => "Permission denied (os error 13)"
  | notDirectory => "Not a directory (os error 20)"
  | isDirectory => "Is a directory (os error 21)"
  | other text => text

abbrev Contents := Except ReadError (List UInt8)

structure Printed where
  code : Nat := 0
  stdout : String := ""
  stderr : String := ""
  deriving DecidableEq, Repr

def lines (texts : List String) : String :=
  String.join (texts.map (· ++ "\n"))

def failure (text : String) : Printed where
  code := 1
  stderr := lines [text]

def path? : Command → Option String
  | .print p => some p.path
  | .simulate s => some s.records
  | .script _ | .ratio .. | .shift _ => none

/-- One line for a byte on its way to memory: address, value and character. -/
def byteLine (b : OutputByte) : String :=
  Numeral.hexPaddedUpper 4 b.address.toNat ++ ": " ++
    Numeral.hexPaddedUpper 2 b.byte.toNat ++ " " ++ Text.escape (Char.ofNat b.byte.toNat)

def runPrint (p : Printing) (contents : Contents) : Printed :=
  match contents with
  | .error e => failure s!"error: failed to read {p.path}: {e.message}"
  | .ok program =>
    match Record.ofProgram? p.address program with
    | .error e => failure s!"{p.path}: error: {e.message}"
    | .ok record =>
      let stream := if p.verbose then record.outputBytes.filter (·.valid) else []
      { stdout := lines [String.ofList (record.output.map fun b => Char.ofNat b.toNat)]
        stderr := lines (stream.map byteLine) }

def runScript (ops : List String) : Printed :=
  match Script.ofTexts? (ops.map String.toList) with
  | .error e => failure ("error: " ++ e.message)
  | .ok operations =>
    { stdout := lines [String.ofList (Hex.writeSpaced (Script.encode operations))] }

def records (path : String) (contents : Contents) : Except String (List Record) :=
  let unreadable := s!"failed to read {path}: "
  match contents with
  | .error e => .error (unreadable ++ e.message)
  | .ok bytes =>
    match String.fromUTF8? (ByteArray.mk bytes.toArray) with
    | none => .error (unreadable ++ "stream did not contain valid UTF-8")
    | some text => (RecordFile.read text.toList).mapError RecordFile.FileError.message

/-- The records are read before the operations; a script that does not complete is a failure. A record
that finds no room is counted in the report and has no line of its own: log lines are left out. -/
def runSimulation (s : Simulation) (contents : Contents) : Printed :=
  match records s.records contents with
  | .error text => failure s!"{s.records}: error: {text}"
  | .ok records =>
    match Script.ofTexts? (s.ops.map String.toList) with
    | .error e => failure ("error: " ++ e.message)
    | .ok operations =>
      let settings : Session.Settings := {}
      let settings := { settings with budget := s.budget.getD settings.budget }
      match Bench.run records operations (s.capacity.getD Target.defaultCapacity) settings with
      | .error e => failure ("error: " ++ e.message)
      | .ok report =>
        { code := if report.completion = .ok then 0 else 1
          stdout := lines [if s.json then report.json else report.text] }

def runRatio (target : Float) (max : Nat) : Printed :=
  match Clock.Ratio.closest? target max with
  | none => failure s!"error: no ratio for {Decimal.shortestText target} within {max}"
  | some r =>
    let divider :=
      match Clock.Divider.ofRatio? r with
      | some d => ["divider=0x" ++ Numeral.hexPadded 8 d.toWord.toNat]
      | none => []
    { stdout := lines ([
        s!"{r.numerator}/{r.denominator} ({Decimal.fixedText 6 r.toFloat})",
        s!"adder={r.settings.adder} subtractor={r.settings.subtractor}"] ++ divider) }

def valueLines (r : ShiftRegister) : Nat → List String
  | 0 => []
  | n + 1 => (r.text ++ " 0x" ++ Numeral.hex r.value.toNat) :: valueLines r.shift n

def runShift (s : Shifting) : Printed :=
  match ShiftRegister.maximal? s.width with
  | .error e => failure ("error: " ++ e.message)
  | .ok r => { stdout := lines (("poly=0x" ++ Numeral.hex r.poly.toNat) :: valueLines r s.steps) }

def run (command : Command) (contents : Contents) : Printed :=
  match command with
  | .print p => runPrint p contents
  | .script ops => runScript ops
  | .simulate s => runSimulation s contents
  | .ratio target max => runRatio target max
  | .shift s => runShift s

def argumentPath? (args : List String) : Option String :=
  match Request.ofArguments? args with
  | .ok (.command c) => c.path?
  | _ => none

def respond (args : List String) (contents : Contents) : Printed :=
  match Request.ofArguments? args with
  | .error e => { code := 1, stderr := lines ["error: " ++ e.message, usage] }
  | .ok (.help code) => { code, stdout := lines [usage] }
  | .ok (.command c) => run c contents

end LogBench.Command
