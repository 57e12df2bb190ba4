-- The command line program. It reads and prints, and leaves every decision to
-- `Program.plan` and, for each turn of the prompt, to `Prompt.turn`.
import Reckoner.Program

namespace Reckoner.Main

def writeLog (level : Level) (records : List Record) : IO Unit := do
  let stream ← IO.getStderr
  for r in level.keep records do
    stream.putStrLn r.line

/-- Reads bytes up to the next newline, or to the end of the input. -/
partial def readLine (input : IO.FS.Stream) (read : List UInt8) : IO (List UInt8) := do
  match (← input.read 1).toList with
  | [] => return read.reverse
  | b :: _ => if b == Lines.newline then return (b :: read).reverse else readLine input (b :: read)

/-- The loop of `Prompt.converse`, over an input that is read turn by turn. -/
partial def converse (e : Evaluator) (level : Level) (input output : IO.FS.Stream) :
    IO Unit := do
  output.putStr Prompt.sign
  output.flush
  let turn := Prompt.turn e (← readLine input [])
  writeLog level turn.records
  output.putStr turn.printed
  if turn.goesOn then converse e level input output

def finish (printed : Printed) : IO UInt32 := do
  let output ← IO.getStdout
  output.putStr printed.output
  output.flush
  return UInt32.ofNat printed.exitCode

end Reckoner.Main

open Reckoner in
def main (words : List String) : IO UInt32 := do
  match Program.plan Evaluator.standard words with
  | .settled level records printed =>
    Main.writeLog level records
    Main.finish printed
  | .prompt level records =>
    Main.writeLog level records
    (← IO.getStdout).putStr (Prompt.banner ++ "\n")
    Main.converse Evaluator.standard level (← IO.getStdin) (← IO.getStdout)
    Main.finish ⟨"", 0⟩
