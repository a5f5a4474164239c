import LogBench.Power
import LogBench.Script.Operation
import LogBench.Text.Fields
import LogBench.Text.Numeral

/-! The text of an operation: a name, and for a read the width in bits and the count. -/
namespace LogBench.Script

inductive TextError where
  | unknown (text : List Char)
  | badNumber (text : List Char)
  | badShape (text : List Char) (cause : ShapeError)
  deriving DecidableEq, Repr

namespace TextError

def message : TextError → String
  | unknown text =>
    s!"unknown op `{String.ofList text}` " ++
      "(expected status, read:<bits>:<count> or read_err:<bits>:<count>)"
  | badNumber text => s!"op `{String.ofList text}`: width and count must be decimal numbers"
  | badShape text cause => s!"op `{String.ofList text}`: {cause.message}"

end TextError

namespace ReadMode

def name : ReadMode → List Char
  | upTo => ['r', 'e', 'a', 'd']
  | exactly => ['r', 'e', 'a', 'd', '_', 'e', 'r', 'r']

def ofName? (text : List Char) : Option ReadMode :=
  [upTo, exactly].find? (·.name = text)

end ReadMode

namespace Operation

def statusName : List Char := ['s', 't', 'a', 't', 'u', 's']

def text : Operation → List Char
  | status => statusName
  | read mode shape =>
    mode.name ++ ':' :: Numeral.decimal shape.bits ++ ':' :: Numeral.decimal shape.count

/-- The width has to fit 16 bits and the count 32, before either is held against its limits. -/
def ofText? (text : List Char) : Except TextError Operation :=
  match Text.fields ':' text with
  | [name] => if name = statusName then .ok .status else .error (.unknown text)
  | [name, bits, count] =>
    match ReadMode.ofName? name with
    | none => .error (.unknown text)
    | some mode =>
      match Numeral.readBelow? 10 (2 ^ 16) bits, Numeral.readBelow? 10 (2 ^ 32) count with
      | some bits, some count =>
        match Shape.ofBits? bits count with
        | .ok shape => .ok (.read mode shape)
        | .error cause => .error (.badShape text cause)
      | _, _ => .error (.badNumber text)
  | _ => .error (.unknown text)

end Operation

def ofTexts? (texts : List (List Char)) : Except TextError Script :=
  texts.mapM Operation.ofText?

end LogBench.Script
