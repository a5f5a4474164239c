import LogBench.Main
import LogBench.Program.Walk
import LogBench.Queue.ByteQueue
import LogBench.Script.Meaning
import LogBench.Proofs.Queue.Tally
import LogBench.Proofs.Target.Move
import LogBench.Proofs.Target.Reachable
import LogBench.Proofs.Script.Elements
import LogBench.Proofs.Target.History
import LogBench.Proofs.Target.Conservation
import LogBench.Proofs.Session.Collection
import LogBench.Proofs.Session.Conclusion
import LogBench.Proofs.Session.Idles
import LogBench.Proofs.Session.Meaning
import LogBench.Proofs.Target.Registers
import LogBench.Proofs.Target.ExactRead
import LogBench.Proofs.Session.Framing
import LogBench.Proofs.Session.Lifecycle
import LogBench.Proofs.Session.Cost
import LogBench.Proofs.Session.Budget
import LogBench.Proofs.Script.Decoding
import LogBench.Proofs.Program.Reading
import LogBench.Proofs.Bench.Draining
import LogBench.Proofs.Record.Reprint
import LogBench.Proofs.Command.ScriptLine
import LogBench.Proofs.Program.Complete
import LogBench.Proofs.Program.Filling
import LogBench.Proofs.Record.WordList
import LogBench.Proofs.Queue.ByteAccess
import LogBench.Proofs.Queue.ItemAccess
import LogBench.Proofs.Record.FileLines
import LogBench.Proofs.Record.LineGrammar
import LogBench.Proofs.ShiftRegister.Maximal
import LogBench.Proofs.Clock.Search
import LogBench.Proofs.Clock.Divider
import LogBench.Proofs.Text.HexReading
import LogBench.Proofs.Command.OptionOrder
import LogBench.Proofs.Command.Addresses
import LogBench.Proofs.Target.Counters
import LogBench.Proofs.Queue.Accounts
