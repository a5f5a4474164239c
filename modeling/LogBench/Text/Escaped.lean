import LogBench.Text.Numeral

/-! Characters written so that they can be seen. -/
namespace LogBench.Text

/-- Quotes, the backslash and three control characters have short escapes, printable ASCII stands
for itself, and all else is written by its code point. -/
def escape (c : Char) : String :=
  if c = '\t' then "\\t"
  else if c = '\r' then "\\r"
  else if c = '\n' then "\\n"
  else if [0x22, 0x27, 0x5C].contains c.toNat then "\\" ++ String.singleton c
  else if 0x20 ≤ c.toNat ∧ c.toNat ≤ 0x7E then String.singleton c
  else "\\u\x7b" ++ Numeral.hex c.toNat ++ "\x7d"

end LogBench.Text
