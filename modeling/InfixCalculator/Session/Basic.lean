import InfixCalculator.Command
import InfixCalculator.Postfix.OfTokens
import InfixCalculator.Postfix.Run
import InfixCalculator.Text.Quoted

/-!
# Sessions

A session is a table of variables. A line is answered from the table as it stands, and the answer
alone says how the table changes: only a successful assignment changes it, and only by the binding
that the answer names.

* `evaluate`: the value of an expression.
* `answer`: the answer to a line.
* `after`: the session that an answer leads to.
* `step`: an answer together with the session it leads to.
-/

namespace InfixCalculator

/-- The answer to a line that had no fault. -/
inductive Answer where
  /-- The session is over. -/
  | farewell
  /-- A blank line has no answer. -/
  | silence
  /-- The name is now bound to the value. -/
  | bound (name : String) (value : Float)
  /-- The value of the expression. -/
  | value (x : Float)
  /-- The line is no assignment, though it has an equals sign. -/
  | malformed
deriving DecidableEq

def Answer.text : Answer → String
  | farewell => "Session finished."
  | silence => ""
  | bound name x => name ++ " = " ++ Numeral.write x
  | value x => "Result: " ++ Numeral.write x
  | malformed => "Malformed assignment."

/-- One user's calculator: the variables assigned so far. -/
structure Session where
  table : Variables

namespace Session

def fresh : Session := ⟨∅⟩

/-- The value of an expression. Its tokens, its postfix program and its value are noted, each as
soon as it is known. -/
def evaluate (s : Session) (expression : String) : Traced Float := do
  let tokens := Token.tokenize expression
  .note .debug ("tokens: " ++ Text.quoteList (tokens.map Token.text))
  let program ← Postfix.ofTokens s.table tokens
  .note .debug ("postfix: " ++ Postfix.text program)
  let value ← .ofExcept (Postfix.result program)
  .note .debug ("value: " ++ Numeral.write value)
  pure value

/-- The answer to a line. -/
def answer (s : Session) (line : String) : Traced Answer :=
  match Command.ofLine line with
  | .leave => pure .farewell
  | .nothing => pure .silence
  | .assign name expression => do
    let value ← s.evaluate expression
    .note .info (name ++ " <- " ++ Numeral.write value)
    pure (.bound name value)
  | .malformed => do
    .note .warn ("malformed assignment: " ++ Text.quote (Text.trim line))
    pure .malformed
  | .evaluate expression => do
    let value ← s.evaluate expression
    pure (.value value)

/-- The session after an answer: an assignment binds its name, nothing else changes anything. -/
def after (s : Session) : Except Fault Answer → Session
  | .ok (.bound name value) => ⟨s.table.insert name value⟩
  | _ => s

/-- Answers a line and goes on to the session that the answer leads to. -/
def step (s : Session) (line : String) : Traced Answer × Session :=
  (s.answer line, s.after (s.answer line).result)

end Session

end InfixCalculator
