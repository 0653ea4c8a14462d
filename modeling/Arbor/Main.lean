import Arbor.Command.Run

/-!
# The command line program
-/

open Arbor Arbor.Command

/-- Whether colours are welcome on standard output when the line does not say. -/
def colourTerminal : IO Bool := do
  let tty ← (← IO.getStdout).isTty
  let term ← IO.getEnv "TERM"
  let plain ← IO.getEnv "NO_COLOR"
  return tty && plain.isNone && term.any (· ≠ "dumb")

def main (args : List String) : IO UInt32 := do
  let outcome := execute (← colourTerminal) args
  IO.print outcome.output
  if outcome.exit = 2 then
    IO.eprintln "error: cannot read the command line; try 'trellis --help'"
  if let some e := outcome.error then
    IO.eprintln (e.code ++ "\n\n  × " ++ e.message)
    if let some help := e.help? then
      IO.eprintln ("  help: " ++ help)
  return outcome.exit.toUInt32
