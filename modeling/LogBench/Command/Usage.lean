/-! The help text of the command line. -/
namespace LogBench.Command

def usage : String := "Usage: dprintf-tool <command> [options]

Commands:
  render <program> [-a <addr>] [-v]        Render a raw dprintf program file
  script <op>...                           Print the encoded debug-master script
  simulate <records> <op>... [options]     Drain queued records with a script
  ratio <f> <max>                          Closest clock ratio and DDA settings
  lfsr <nbits> [--steps <n>]               Step a maximal-length LFSR

Ops:
  status, read:<bits>:<count>, read_err:<bits>:<count>

Options:
  -a, --address <hex>  Address of the first output byte (render, default 0)
  -v, --verbose        Print the addressed byte stream to stderr (render)
  --capacity <n>       Sink FIFO depth (simulate, default 515)
  --budget <n>         Session data-tick budget (simulate, default 1000)
  --json               Print the simulation report as JSON (simulate)
  --steps <n>          Shifts to print (lfsr, default 8)
  -h, --help           Show this help message

simulate exits with status 1 when the script does not complete ok.
Set RUST_LOG=debug to trace sessions.

Examples:
  dprintf-tool render greeting.bin -a 40 -v
  dprintf-tool script read:64:2 status
  dprintf-tool simulate bench.rec read:64:1 status --json
"

end LogBench.Command
