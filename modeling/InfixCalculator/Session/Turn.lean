import InfixCalculator.Session.Basic

/-!
# Turns

What one line brings about in a conversation: a reply, records, the session afterwards, and perhaps
the end. A turn says nothing of whether the reply can be shown.
-/

namespace InfixCalculator

/-- What a line brings about: the reply, the records, the session afterwards, and whether the
conversation ends with it. -/
structure Turn where
  reply : String
  log : List Journal.Record
  session : Session
  ends : Bool

namespace Turn

/-- The reply to a line. A blank line has none; every other reply is one line. -/
def replyTo : Except Fault Answer → String
  | .ok .silence => ""
  | .ok answer => answer.text ++ "\n"
  | .error fault => "Error, " ++ fault.message ++ "\n"

/-- The record of a line that had a fault. -/
def faultLog (line : String) : Except Fault Answer → List Journal.Record
  | .ok _ => []
  | .error fault =>
    [⟨.warn, "could not evaluate " ++ Text.quote (Text.trim line) ++ ": " ++ fault.message⟩]

/-- Whether an answer is the last one. -/
def isLast : Except Fault Answer → Bool
  | .ok .farewell => true
  | _ => false

end Turn

/-- What a line brings about in a session. -/
def Session.turn (s : Session) (line : String) : Turn :=
  let answer := s.answer line
  { reply := Turn.replyTo answer.result
    log := answer.log ++ Turn.faultLog line answer.result
    session := s.after answer.result
    ends := Turn.isLast answer.result }

end InfixCalculator
