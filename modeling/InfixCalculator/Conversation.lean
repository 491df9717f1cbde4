import InfixCalculator.Session.Turn
import InfixCalculator.Terminal
import InfixCalculator.Text.Line

/-!
# Conversations

A conversation prompts for a line, answers it, and goes on until a line asks for the end, the input
ends, or the terminal fails. What it leaves behind is the output up to there, the ending, the
session and the records.

* `Session.exchange`: what comes after one prompt. It is all that a conversation on a real terminal
  has to ask a session.
* `ofLines`: the conversation over lines of bytes, one exchange after the other. `ofLines_nil` and
  `ofLines_cons` are its equations, without the exchanges.
* `ofInput`: the conversation over an input, from its first record to its last.
-/

namespace InfixCalculator

/-- What comes after a prompt: a reply, the records, the session afterwards, and the ending if the
conversation is over. -/
structure Exchange where
  reply : String
  log : List Journal.Record
  session : Session
  ending? : Option Ending

/-- What comes after a prompt when a line is read there, or nothing because the input has ended. -/
def Session.exchange (s : Session) : Option (List UInt8) → Exchange
  | none => ⟨"", [], s, some (.ok ())⟩
  | some bytes =>
    match Text.decode? bytes with
    | none => ⟨"", [], s, some (.error .invalidUtf8)⟩
    | some line =>
      let turn := s.turn line
      ⟨turn.reply, turn.log, turn.session, if turn.ends then some (.ok ()) else none⟩

/-- A conversation as it went: what the terminal showed, how it ended, the session afterwards, and
the records. -/
structure Conversation where
  output : List UInt8
  ending : Ending
  session : Session
  log : List Journal.Record

namespace Conversation

/-- The conversation that ends at once. -/
def stop (ending : Ending) (s : Session) : Conversation := ⟨[], ending, s, []⟩

/-- A conversation before which some output was shown and some records written. -/
def after (output : List UInt8) (log : List Journal.Record) (c : Conversation) : Conversation :=
  { c with output := output ++ c.output, log := log ++ c.log }

/-- Writes a text and goes on with the room left; if it does not fit, the conversation breaks off. -/
def writing (room : Room) (text : String) (s : Session) (next : Room → Conversation) :
    Conversation :=
  let bytes := Text.encode text
  match room.after? bytes with
  | some room' => (next room').after (room.shown bytes) []
  | none => (stop (.error .closed) s).after (room.shown bytes) []

/-- What a terminal shows before each line. -/
def prompt : String := "> "

/-- One round: the prompt, then the exchange over what is read. Unless that ends the conversation,
it goes on with the room and the session left. -/
def round (room : Room) (s : Session) (read : Option (List UInt8))
    (next : Room → Session → Conversation) : Conversation :=
  writing room prompt s fun room =>
    let exchange := s.exchange read
    (writing room exchange.reply exchange.session fun room =>
      match exchange.ending? with
      | some ending => stop ending exchange.session
      | none => next room exchange.session).after [] exchange.log

/-- The conversation over the given lines of bytes. -/
def ofLines (room : Room) (s : Session) : List (List UInt8) → Conversation
  | [] => round room s none fun _ s => stop (.ok ()) s
  | bytes :: lines => round room s (some bytes) fun room s => ofLines room s lines

/-- Writing nothing is no matter of room. -/
theorem writing_empty (room : Room) (s : Session) (next : Room → Conversation) :
    writing room "" s next = next room := by
  cases room with
  | none => rfl
  | some limit => simp [writing, Room.after?, Room.shown, after, Text.encode]

theorem ofLines_nil (room : Room) (s : Session) :
    ofLines room s [] = writing room prompt s fun _ => stop (.ok ()) s := by
  simp only [ofLines, round, Session.exchange, writing_empty]
  rfl

/-- What one line adds to a conversation. -/
theorem ofLines_cons (room : Room) (s : Session) (bytes : List UInt8)
    (lines : List (List UInt8)) :
    ofLines room s (bytes :: lines) = writing room prompt s fun room =>
      match Text.decode? bytes with
      | none => stop (.error .invalidUtf8) s
      | some line =>
        (writing room (s.turn line).reply (s.turn line).session fun room =>
          if (s.turn line).ends then stop (.ok ()) (s.turn line).session
          else ofLines room (s.turn line).session lines).after [] (s.turn line).log := by
  rw [ofLines, round]
  refine congrArg (writing room prompt s) (funext fun room => ?_)
  cases h : Text.decode? bytes with
  | none =>
    simp only [Session.exchange, h, writing_empty]
    rfl
  | some line =>
    simp only [Session.exchange, h]
    cases (s.turn line).ends <;> rfl

/-- The record that closes a conversation that did not break off. -/
def closing (c : Conversation) : List Journal.Record :=
  match c.ending with
  | .ok () =>
    [⟨.info, "session finished with " ++ toString c.session.table.size ++ " variable(s)"⟩]
  | .error _ => []

/-- The conversation over an input. -/
def ofInput (room : Room) (s : Session) (input : List UInt8) : Conversation :=
  let c := ofLines room s (Text.cutLines input)
  { c with log := ⟨.info, "session started"⟩ :: c.log ++ c.closing }

end Conversation

end InfixCalculator
