import LogBench.Fault
import LogBench.Program.Directive
import LogBench.Text.Numeral

/-! The text of a print program, written directive by directive. -/
namespace LogBench.Program

namespace PadError

def fault (_ : PadError) : Fault := .padTooWide

def message (e : PadError) : String :=
  "decimal tag 0x" ++ Numeral.hexPadded 2 e.tag.toNat ++ s!" at offset {e.offset}" ++
    s!" requests pad width {e.pad} (max {Directive.maxPad})"

end PadError

/-- The first so many bytes of what remains of a program, filled up where it ends early. -/
def operands : Nat → List UInt8 → List UInt8
  | 0, _ => []
  | n + 1, [] => filler :: operands n []
  | n + 1, b :: rest => b :: operands n rest

def hexDigit (n : Nat) : UInt8 :=
  UInt8.ofNat (if n < 10 then 0x30 + n else 0x37 + n)

/-- An odd number of digits drops the first digit of the first operand byte. -/
def printHex (digits : Nat) (bytes : List UInt8) : List UInt8 :=
  (bytes.flatMap fun b => [hexDigit (b.toNat / 16), hexDigit (b.toNat % 16)]).drop (digits % 2)

/-- The operand is accumulated in a 32-bit word, most significant byte first. -/
def printDecimal (pad : Nat) (bytes : List UInt8) : List UInt8 :=
  let value : UInt32 := bytes.foldl (fun word b => word <<< 8 ||| b.toUInt32) 0
  let numeral := (Numeral.decimal value.toNat).map Char.toUInt8
  List.replicate (Directive.columns pad - numeral.length) 0x20 ++ numeral

def printDirective (bytes : List UInt8) : Directive → List UInt8
  | .skip | .stop => []
  | .literal b => [b]
  | .hex digits => printHex digits bytes
  | .decimal _ pad => printDecimal pad bytes

/-- Prints what remains of a program once `offset` bytes of it are done. -/
def printFrom (offset : Nat) : List UInt8 → Except PadError (List UInt8)
  | [] => .ok []
  | tag :: rest =>
    let directive := Directive.ofTag tag
    let count := directive.operandCount
    if directive = .stop then .ok []
    else if directive.padTooWide then .error ⟨tag, directive.pad, offset⟩
    else do
      let later ← printFrom (offset + 1 + count) (rest.drop count)
      return printDirective (operands count rest) directive ++ later
  termination_by bytes => bytes.length
  decreasing_by all_goals simp only [List.length_drop, List.length_cons]; omega

def print (program : Program) : Except PadError (List UInt8) :=
  printFrom 0 program

end LogBench.Program
