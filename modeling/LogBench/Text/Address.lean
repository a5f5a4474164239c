import LogBench.Power
import LogBench.Text.Numeral

/-! Addresses of sixteen bits, written in hexadecimal behind an optional mark. -/
namespace LogBench.Address

def dropMark (marks : List (List Char)) (text : List Char) : List Char :=
  match marks.find? (·.isPrefixOf text) with
  | some mark => text.drop mark.length
  | none => text

def read? (marks : List (List Char)) (text : List Char) : Option UInt16 :=
  (Numeral.readBelow? 16 (2 ^ 16) (dropMark marks text)).map UInt16.ofNat

end LogBench.Address
