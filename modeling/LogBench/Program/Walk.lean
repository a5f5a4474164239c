import LogBench.Bytes
import LogBench.Program.Directive

/-!
The walk of a program: its directives by offset, and the text that the format gives to each.
The text is said in numbers here, with no reference to how a program is printed.
-/
namespace LogBench.Program

structure Step where
  offset : Nat
  tag : UInt8
  deriving DecidableEq, Repr

namespace Step

def directive (s : Step) : Directive := Directive.ofTag s.tag

def after (s : Step) : Nat := s.offset + 1 + s.directive.operandCount

end Step

/-- The steps from `offset` on, up to a stop directive or the end of the program. -/
def stepsFrom (program : Program) (offset : Nat) : List Step :=
  if h : offset < program.length then
    let step : Step := ⟨offset, program[offset]⟩
    if step.directive = .stop then []
    else step :: stepsFrom program step.after
  else []
  termination_by program.length - offset
  decreasing_by simp only [Step.after]; omega

def steps (program : Program) : List Step :=
  stepsFrom program 0

/-- The operand bytes of a step, a byte past the end being missing. -/
def operandsAt (program : Program) (s : Step) : List UInt8 :=
  (List.range s.directive.operandCount).map fun i =>
    program.getD (s.offset + 1 + i) filler

def upperDigits : List Char :=
  ['0', '1', '2', '3', '4', '5', '6', '7', '8', '9', 'A', 'B', 'C', 'D', 'E', 'F']

def hexSpelling (width value : Nat) : List UInt8 :=
  (List.range width).map fun i =>
    (upperDigits.getD (value / 16 ^ (width - 1 - i) % 16) '0').toUInt8

/-- The decimal numeral of a number, moved to the right of its columns. -/
def decimalSpelling (columns value : Nat) : List UInt8 :=
  let numeral := (Nat.toDigits 10 value).map Char.toUInt8
  List.replicate (columns - numeral.length) 0x20 ++ numeral

def meaning (program : Program) (s : Step) : List UInt8 :=
  let value := Bytes.bigEndian (operandsAt program s)
  match s.directive with
  | .skip | .stop => []
  | .literal b => [b]
  | .hex digits => hexSpelling digits (value % 16 ^ digits)
  | .decimal _ pad => decimalSpelling (Directive.columns pad) value

/-- The first step that asks for too much padding, else the texts of all steps in order. -/
def reading (program : Program) : Except PadError (List UInt8) :=
  match (steps program).find? (·.directive.padTooWide) with
  | some s => .error ⟨s.tag, s.directive.pad, s.offset⟩
  | none => .ok ((steps program).flatMap (meaning program))

end LogBench.Program
