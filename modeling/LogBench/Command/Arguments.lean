import LogBench.Decimal.Reader
import LogBench.Text.Address

/-! The arguments of the command line: a command, and its options and operands in any order. -/
namespace LogBench.Command

inductive ArgumentError where
  | missingCommand
  | unknownCommand (name : String)
  | unknownOption (option : String)
  | missingValue (name : String)
  | badValue (name value : String)
  | badAddress (value : String)
  | missingInput
  | extraInput
  | missingOps
  | missingRecords
  | notTwoNumbers
  | missingWidth
  | extraWidth
  deriving DecidableEq, Repr

def ArgumentError.message : ArgumentError → String
  | missingCommand => "missing command"
  | unknownCommand name => "unknown command: " ++ name
  | unknownOption option => "unknown option: " ++ option
  | missingValue name => "missing value for " ++ name
  | badValue name value => s!"invalid value for {name}: {value}"
  | badAddress value => "invalid address: " ++ value
  | missingInput => "missing input path"
  | extraInput => "multiple input paths provided"
  | missingOps => "missing script ops"
  | missingRecords => "missing records path"
  | notTwoNumbers => "ratio takes exactly <f> and <max>"
  | missingWidth => "missing <nbits>"
  | extraWidth => "multiple widths provided"

/-- Anything behind a dash is an option; a lone dash is not. -/
def isOption (arg : String) : Bool :=
  match arg.toList with
  | '-' :: _ :: _ => true
  | _ => false

def readNumber (name : String) (bound : Nat) (value : String) : Except ArgumentError Nat :=
  match Numeral.readBelow? 10 bound value.toList with
  | some n => .ok n
  | none => .error (.badValue name value)

/-- An address on the command line is marked in lower case if at all. -/
def addressMarks : List (List Char) := [['0', 'x']]

def readAddress (value : String) : Except ArgumentError UInt16 :=
  match Address.read? addressMarks value.toList with
  | some a => .ok a
  | none => .error (.badAddress value)

structure Printing where
  path : String
  address : UInt16 := 0
  verbose : Bool := false
  deriving DecidableEq, Repr

structure Simulation where
  records : String
  ops : List String
  capacity : Option Nat := none
  budget : Option Nat := none
  json : Bool := false
  deriving DecidableEq, Repr

structure Shifting where
  width : Nat
  steps : Nat := 8
  deriving DecidableEq, Repr

def readPrinting (path : Option String) (start : UInt16) (verbose : Bool) :
    List String → Except ArgumentError Printing
  | [] =>
    match path with
    | some path => .ok ⟨path, start, verbose⟩
    | none => .error .missingInput
  | arg :: rest =>
    if arg = "-v" ∨ arg = "--verbose" then readPrinting path start true rest
    else if arg = "-a" ∨ arg = "--address" then
      match rest with
      | [] => .error (.missingValue "-a")
      | value :: rest => do readPrinting path (← readAddress value) verbose rest
    else if isOption arg then .error (.unknownOption arg)
    else if path.isSome then .error .extraInput
    else readPrinting (some arg) start verbose rest

def readOps (args : List String) : Except ArgumentError (List String) :=
  match args.find? isOption with
  | some option => .error (.unknownOption option)
  | none => if args.isEmpty then .error .missingOps else .ok args

structure Options where
  records : Option String := none
  ops : List String := []
  capacity : Option Nat := none
  budget : Option Nat := none
  json : Bool := false
  deriving DecidableEq, Repr

def Options.simulation (o : Options) : Except ArgumentError Simulation :=
  match o.records with
  | none => .error .missingRecords
  | some records =>
    if o.ops.isEmpty then .error .missingOps
    else .ok ⟨records, o.ops, o.capacity, o.budget, o.json⟩

/-- The first operand is the path of the records, and the others are operations. -/
def Options.addOperand (o : Options) (arg : String) : Options :=
  match o.records with
  | none => { o with records := some arg }
  | some _ => { o with ops := o.ops ++ [arg] }

def readSimulation (o : Options) : List String → Except ArgumentError Simulation
  | [] => o.simulation
  | arg :: rest =>
    if arg = "--json" then readSimulation { o with json := true } rest
    else if arg = "--capacity" then
      match rest with
      | [] => .error (.missingValue "--capacity")
      | value :: rest => do
        readSimulation { o with capacity := some (← readNumber "--capacity" (2 ^ 32) value) } rest
    else if arg = "--budget" then
      match rest with
      | [] => .error (.missingValue "--budget")
      | value :: rest => do
        readSimulation { o with budget := some (← readNumber "--budget" (2 ^ 32) value) } rest
    else if isOption arg then .error (.unknownOption arg)
    else readSimulation (o.addOperand arg) rest

def readRatio : List String → Except ArgumentError (Float × Nat)
  | [target, max] => do
    match Decimal.read? target.toList with
    | some f => return (f, ← readNumber "<max>" (2 ^ 16) max)
    | none => .error (.badValue "<f>" target)
  | _ => .error .notTwoNumbers

def readShifting (width : Option Nat) (steps : Nat) : List String → Except ArgumentError Shifting
  | [] =>
    match width with
    | some width => .ok ⟨width, steps⟩
    | none => .error .missingWidth
  | arg :: rest =>
    if arg = "--steps" then
      match rest with
      | [] => .error (.missingValue "--steps")
      | value :: rest => do readShifting width (← readNumber "--steps" (2 ^ 64) value) rest
    else if isOption arg then .error (.unknownOption arg)
    else if width.isSome then .error .extraWidth
    else do readShifting (some (← readNumber "<nbits>" (2 ^ 8) arg)) steps rest

end LogBench.Command

namespace LogBench

inductive Command where
  | print (p : Command.Printing)
  | script (ops : List String)
  | simulate (s : Command.Simulation)
  | ratio (target : Float) (max : Nat)
  | shift (s : Command.Shifting)

namespace Command

def named (name : String) (args : List String) : Except ArgumentError Command :=
  if name = "render" then .print <$> readPrinting none 0 false args
  else if name = "script" then .script <$> readOps args
  else if name = "simulate" then .simulate <$> readSimulation {} args
  else if name = "ratio" then (fun (f, max) => .ratio f max) <$> readRatio args
  else if name = "lfsr" then .shift <$> readShifting none 8 args
  else .error (.unknownCommand name)

/-- What the command line asks for: help, which succeeds only as the first argument, or a
command. -/
inductive Request where
  | help (code : Nat)
  | command (c : Command)

def asksHelp (arg : String) : Bool :=
  arg = "--help" || arg = "-h"

/-- Help anywhere goes before every other mistake. -/
def Request.ofArguments? : List String → Except ArgumentError Request
  | [] => .error .missingCommand
  | name :: args =>
    if asksHelp name then .ok (.help 0)
    else if args.any asksHelp then .ok (.help 1)
    else .command <$> named name args

end Command

end LogBench
