import MessageSchema.CommandLine

/-! # The executable

Reads the whole input, runs the program and writes what it leaves behind. -/

open MessageSchema

/-- Run the program with the arguments of the command line on the standard input. -/
def main (args : List String) : IO UInt32 := do
  let stdin ← IO.getStdin
  let stdout ← IO.getStdout
  let stderr ← IO.getStderr
  match Command.ofArguments? args with
  | some (.process _) =>
      let input ← stdin.readBinToEnd
      let outcome := Command.run args input.data.toList
      for line in outcome.log do
        stderr.putStrLn line
      stdout.write ⟨outcome.output.toArray⟩
      stdout.flush
      return outcome.status.toUInt32
  | _ =>
      let outcome := Command.run args []
      stdout.write ⟨outcome.output.toArray⟩
      stdout.flush
      return outcome.status.toUInt32
