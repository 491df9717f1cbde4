import InfixCalculator.Binary64.Bits
import InfixCalculator.Main
import InfixCalculator.Proofs.Infix.Printed
import InfixCalculator.Proofs.Infix.Substitution
import InfixCalculator.Proofs.Postfix.Order
import InfixCalculator.Proofs.Session.History
import InfixCalculator.Proofs.Postfix.Shortage
import InfixCalculator.Proofs.Token.Observation
import InfixCalculator.Proofs.Infix.Faults
import InfixCalculator.Proofs.Text.Lines
import InfixCalculator.Proofs.Session.Dialogue
import InfixCalculator.Proofs.Session.Truncation
import InfixCalculator.Proofs.Infix.Enclosure
import InfixCalculator.Proofs.Infix.Names
import InfixCalculator.Proofs.Session.Recall
import InfixCalculator.Proofs.Session.Independence
import InfixCalculator.Proofs.Numeral.Written
import InfixCalculator.Proofs.Session.Replay
import InfixCalculator.Proofs.Postfix.Rejection
import InfixCalculator.Proofs.Postfix.Forest
import InfixCalculator.Proofs.Text.Bytes
import InfixCalculator.Proofs.Token.Layout
import InfixCalculator.Proofs.Binary64.Rounding
import InfixCalculator.Proofs.Decimal.Value
import InfixCalculator.Proofs.Decimal.Faithful
import InfixCalculator.Proofs.Numeral.Recovery
import InfixCalculator.Proofs.Postfix.Rendering
import InfixCalculator.Proofs.Session.Grammar
import InfixCalculator.Proofs.Infix.Spacing
import InfixCalculator.Proofs.Binary64.Interval
import InfixCalculator.Proofs.Decimal.Length
import InfixCalculator.Proofs.Decimal.Optimal
import InfixCalculator.Proofs.Numeral.Notation
import InfixCalculator.Proofs.Session.Retyping
import InfixCalculator.Proofs.Postfix.Popping
import InfixCalculator.Proofs.Postfix.Representation
import InfixCalculator.Proofs.Text.Newlines
import InfixCalculator.Proofs.Session.Replies
import InfixCalculator.Proofs.Text.LetterCase
import InfixCalculator.Proofs.Numeral.Grammar
import InfixCalculator.Proofs.Binary64.Nearest
import InfixCalculator.Proofs.Postfix.Numbers
