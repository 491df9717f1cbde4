import InfixCalculator.Text.Blank

/-!
# Commands

What a line asks for. Blanks at the ends of the line, of a name and of an expression do not matter.
The word `exit`, in any letter case, ends the session. A line with an equals sign is an assignment
if it has exactly one and something that is not blank on both sides of it; otherwise it is
malformed. Any other line that is not blank is an expression.
-/

namespace InfixCalculator

/-- What a line asks for. -/
inductive Command where
  /-- The end of the session. -/
  | leave
  /-- Nothing: the line is blank. -/
  | nothing
  /-- The value of an expression under a name. -/
  | assign (name expression : String)
  /-- An assignment, but not in the form of one. -/
  | malformed
  /-- The value of an expression. -/
  | evaluate (expression : String)
deriving DecidableEq, Repr

namespace Command

/-- The word that ends a session. -/
def leaveWord : List Char := "exit".toList

/-- The command of a trimmed line that is neither blank nor the word to leave. The line is split at
its first equals sign. -/
def ofTrimmed (cs : List Char) : Command :=
  match cs.dropWhile (· ≠ '=') with
  | [] => .evaluate (String.ofList cs)
  | _ :: after =>
    let name := Text.trimChars (cs.takeWhile (· ≠ '='))
    let expression := Text.trimChars after
    if '=' ∈ after ∨ name = [] ∨ expression = [] then .malformed
    else .assign (String.ofList name) (String.ofList expression)

def ofLine (line : String) : Command :=
  let cs := Text.trimChars line.toList
  if cs.map Char.toLower = leaveWord then .leave
  else if cs = [] then .nothing
  else ofTrimmed cs

end Command

end InfixCalculator
