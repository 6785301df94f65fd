import FrontEnd.Shell

/-! The shell as a program: it reads lines from the standard input and writes its answers. -/

namespace FrontEnd.Main

/-- Reads bytes through the next line feed, or to the end of the input. -/
partial def readLine (input : IO.FS.Stream) (line : Array UInt8) : IO (List UInt8) := do
  let bytes ← input.read 1
  match bytes.toList with
  | [] => return line.toList
  | b :: _ => if b = 10 then return (line.push b).toList else readLine input (line.push b)

/-- Answers lines until the shell ends, and gives its status. -/
partial def repl (input output : IO.FS.Stream) : IO UInt32 := do
  output.putStr Shell.prompt
  output.flush
  let reply := Shell.step (← readLine input #[])
  output.putStr reply.text
  output.flush
  match reply.status with
  | none => repl input output
  | some status => return status.toUInt32

end FrontEnd.Main

def main : IO UInt32 := do
  FrontEnd.Main.repl (← IO.getStdin) (← IO.getStdout)
