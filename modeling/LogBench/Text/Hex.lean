import LogBench.Text.Blank
import LogBench.Text.Numeral

/-! Byte strings written as pairs of hexadecimal digits, most significant digit first. -/
namespace LogBench.Hex

def spell (b : UInt8) : List Char :=
  [Nat.digitChar (b.toNat / 16), Nat.digitChar (b.toNat % 16)]

def write (bytes : List UInt8) : List Char :=
  bytes.flatMap spell

def writeSpaced : List UInt8 → List Char
  | [] => []
  | [b] => spell b
  | b :: rest => spell b ++ ' ' :: writeSpaced rest

def readPairs? : List Char → Option (List UInt8)
  | [] => some []
  | [_] => none
  | high :: low :: rest => do
    let h ← Numeral.digitValue? 16 high
    let l ← Numeral.digitValue? 16 low
    let bytes ← readPairs? rest
    return UInt8.ofNat (16 * h + l) :: bytes

/-- The bytes of a text of digit pairs with gaps anywhere, even inside a pair. -/
def read? (text : List Char) : Option (List UInt8) :=
  readPairs? (text.filter fun c => !Text.isGap c)

end LogBench.Hex
