import MiniLisp.CommandLine.Outcome

/-!
The command.
-/

def MiniLisp.CommandLine.readBytes (path : String) : IO (Option ByteArray) := do
  try
    return some (← IO.FS.readBinFile path)
  catch _ =>
    return none

def main (arguments : List String) : IO UInt32 := do
  let outcome ← MiniLisp.CommandLine.execute MiniLisp.CommandLine.readBytes arguments
  IO.print outcome.stdout
  IO.eprint outcome.stderr
  return outcome.exitCode.toUInt32
