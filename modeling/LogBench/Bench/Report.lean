import LogBench.Bench
import LogBench.Text.Numeral

/-! The two written forms of a bench report: lines of text, and an indented JSON object. -/
namespace LogBench.Bench.Report

/-- The report in five lines; no line break follows the last one. -/
def text (r : Report) : String :=
  let words := String.join (r.words.map fun w => " 0x" ++ Numeral.hexPadded 8 w.toNat)
  let s := r.status
  String.intercalate "\n" [
    s!"completion: {r.completion.name}",
    s!"ticks: {r.ticks}",
    s!"records: {r.queued} queued, {r.dropped} dropped",
    "data:" ++ words,
    s!"fifo: entries={s.entries} spaces={s.spaces} empty={s.empty} full={s.full}" ++
      s!" overflowed={s.overflowed} underflowed={s.underflowed}"]

/-- Items between two brackets, one to a line and two blanks further in than the brackets; the
brackets touch where there is no item. -/
def block (indent : Nat) (opening closing : String) (items : List String) : String :=
  if items.isEmpty then opening ++ closing
  else
    let inner := "\n" ++ String.ofList (List.replicate (indent + 2) ' ')
    opening ++ inner ++ String.intercalate ("," ++ inner) items ++ "\n" ++
      String.ofList (List.replicate indent ' ') ++ closing

def member (name value : String) : String :=
  "\"" ++ name ++ "\": " ++ value

def json (r : Report) : String :=
  let s := r.status
  let status := block 2 "\x7b" "\x7d" [
    member "empty" (toString s.empty),
    member "full" (toString s.full),
    member "underflowed" (toString s.underflowed),
    member "overflowed" (toString s.overflowed),
    member "entries_full" (toString s.entries),
    member "spaces_available" (toString s.spaces)]
  block 0 "\x7b" "\x7d" [
    member "completion" ("\"" ++ r.completion.name ++ "\""),
    member "data_returned" (block 2 "[" "]" (r.words.map fun w => toString w.toNat)),
    member "ticks" (toString r.ticks),
    member "records_queued" (toString r.queued),
    member "records_dropped" (toString r.dropped),
    member "fifo" status]

end LogBench.Bench.Report
