import InfixCalculator.Conversation

/-!
# The command line

The calculator on standard input and output: it prompts, reads a line, answers it, and exits with
the status of the ending, which is not zero when a line is not valid UTF-8 or the terminal fails.
Each round is that of `Conversation.round`: only reading and writing are done here, and what is read
goes to `Session.exchange`.
-/

namespace InfixCalculator.CommandLine

/-- Reads up to and including the next newline byte, or what there is before the input ends. -/
partial def readLine (input : IO.FS.Stream) (read : List UInt8) : IO (List UInt8) := do
  let bytes ← input.read 1
  match bytes.data.toList with
  | [] => return read.reverse
  | byte :: _ =>
    if byte = Text.newline then return (byte :: read).reverse
    else readLine input (byte :: read)

/-- Reads a line, if the input has not ended. -/
def readLine? (input : IO.FS.Stream) : IO (Option (List UInt8)) := do
  let bytes ← readLine input []
  return if bytes.isEmpty then none else some bytes

/-- Writes a text and tells whether it was taken. A stream that refuses it takes no more output,
whatever its reason. -/
def write (output : IO.FS.Stream) (text : String) : IO Bool :=
  try
    output.putStr text
    output.flush
    return true
  catch _ => return false

/-- Prompts for lines and answers them until the conversation ends. -/
partial def interact (input output : IO.FS.Stream) (s : Session) : IO Ending := do
  unless ← write output Conversation.prompt do return .error .closed
  let exchange := s.exchange (← readLine? input)
  unless ← write output exchange.reply do return .error .closed
  match exchange.ending? with
  | some ending => return ending
  | none => interact input output exchange.session

end InfixCalculator.CommandLine

/-- Starts a session on the terminal. -/
def main : IO UInt32 := do
  let ending ← InfixCalculator.CommandLine.interact (← IO.getStdin) (← IO.getStdout) .fresh
  match ending with
  | .ok () => pure ()
  | .error fault => IO.eprintln fault.report
  return ending.status
