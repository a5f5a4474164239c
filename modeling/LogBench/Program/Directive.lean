/-! Directives: what one tag byte of a print program asks for. -/
namespace LogBench

/-- A print program: tag bytes, each followed by the operand bytes of its directive. -/
abbrev Program := List UInt8

inductive Directive where
  /-- Prints nothing. -/
  | skip
  /-- Prints the tag byte itself. -/
  | literal (byte : UInt8)
  /-- Prints the last `digits` hexadecimal digits of its operand. -/
  | hex (digits : Nat)
  /-- Prints an unsigned number, to at least `pad + 1` columns where `pad` is not zero. -/
  | decimal (operands pad : Nat)
  /-- Ends the program. -/
  | stop
  deriving DecidableEq, Repr

namespace Directive

inductive Family where
  | skip
  | literal
  | hex
  | decimal
  | stop
  deriving DecidableEq, Repr

structure Band where
  first : UInt8
  last : UInt8
  family : Family
  deriving DecidableEq, Repr

/-- The tag bytes of each family: ascending, and together every byte. -/
def bands : List Band :=
  [⟨0x00, 0x00, .skip⟩, ⟨0x01, 0x7F, .literal⟩, ⟨0x80, 0x8F, .hex⟩,
   ⟨0x90, 0xFE, .decimal⟩, ⟨0xFF, 0xFF, .stop⟩]

def ofTag (tag : UInt8) : Directive :=
  if tag = 0 then .skip
  else if tag < 0x80 then .literal tag
  else if tag < 0x90 then .hex (tag.toNat % 16 + 1)
  else if tag < 0xFF then .decimal (tag.toNat % 4 + 1) (tag.toNat / 4 % 16)
  else .stop

def family : Directive → Family
  | skip => .skip
  | literal _ => .literal
  | hex _ => .hex
  | decimal .. => .decimal
  | stop => .stop

def operandCount : Directive → Nat
  | hex digits => (digits + 1) / 2
  | decimal operands _ => operands
  | skip | literal _ | stop => 0

def maxPad : Nat := 9

/-- The pad field; only decimals have one. -/
def pad : Directive → Nat
  | decimal _ pad => pad
  | _ => 0

def padTooWide (d : Directive) : Bool :=
  maxPad < d.pad

/-- The columns that a pad field asks for; zero asks for none. -/
def columns (pad : Nat) : Nat :=
  if pad = 0 then 0 else pad + 1

end Directive

namespace Program

/-- What stands for an operand byte that the program ended before. -/
def filler : UInt8 := 0xFF

structure PadError where
  tag : UInt8
  pad : Nat
  offset : Nat
  deriving DecidableEq, Repr

end Program

end LogBench
