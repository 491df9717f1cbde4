import InfixCalculator.Text.Quoted

/-!
# Terminals

A terminal takes bytes, perhaps only so many of them: what does not fit is cut, and the terminal
has failed. Its faults end a conversation, and a program then exits with a status other than zero.
-/

namespace InfixCalculator

/-- Why a conversation with a terminal broke off. -/
inductive TerminalFault where
  /-- The terminal takes no more output. -/
  | closed
  /-- A line of input is not valid UTF-8. -/
  | invalidUtf8
deriving DecidableEq, Repr

namespace TerminalFault

/-- What went wrong at the terminal. -/
def cause : TerminalFault → String
  | closed => "closed"
  | invalidUtf8 => "stream did not contain valid UTF-8"

/-- The text that tells a user of the fault. -/
def message (fault : TerminalFault) : String := "could not talk to the terminal: " ++ fault.cause

/-- What a program that breaks off with the fault says last: its kind and, quoted, its cause. -/
def report : TerminalFault → String
  | closed => "Error: io(Custom \x7b kind: BrokenPipe, error: " ++ Text.quote closed.cause ++ " \x7d)"
  | invalidUtf8 =>
    "Error: io(Error \x7b kind: InvalidData, message: " ++ Text.quote invalidUtf8.cause ++ " \x7d)"

end TerminalFault

/-- How a conversation with a terminal came to its end. -/
abbrev Ending := Except TerminalFault Unit

/-- The exit status of a program whose conversation ended so. -/
def Ending.status : Ending → UInt32
  | .ok () => 0
  | .error _ => 1

/-- How many more bytes a terminal takes; none stands for any number. -/
abbrev Room := Option Nat

namespace Room

/-- What a terminal shows of some bytes. -/
def shown (room : Room) (bytes : List UInt8) : List UInt8 :=
  match room with
  | none => bytes
  | some limit => bytes.take limit

/-- The room left after some bytes, or nothing if they did not fit. -/
def after? (room : Room) (bytes : List UInt8) : Option Room :=
  match room with
  | none => some none
  | some limit => if bytes.length ≤ limit then some (some (limit - bytes.length)) else none

end Room

end InfixCalculator
