import LogBench.Command.Run

/-! The program: reads the file that the arguments name, and prints what they ask for. -/
namespace LogBench.Command

def readContents (path : String) : IO Contents := do
  try
    let bytes ← IO.FS.readBinFile path
    return .ok bytes.toList
  catch
    | .noFileOrDirectory .. => return .error .notFound
    | .permissionDenied .. => return .error .denied
    | .inappropriateType _ _ details =>
      return .error (if details = "not a directory" then .notDirectory else .isDirectory)
    | e => return .error (.other (toString e))

def main (args : List String) : IO UInt32 := do
  let contents ←
    match argumentPath? args with
    | some path => readContents path
    | none => pure (.error .notFound)
  let printed := respond args contents
  IO.print printed.stdout
  IO.eprint printed.stderr
  return UInt32.ofNat printed.code

end LogBench.Command

def main (args : List String) : IO UInt32 :=
  LogBench.Command.main args
