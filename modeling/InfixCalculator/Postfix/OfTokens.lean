import InfixCalculator.Journal
import InfixCalculator.Postfix.Yard
import InfixCalculator.Token.Source

/-!
# Postfix programs of tokens

A source is read token by token. Each token is noted before its meaning is looked at, and reading
ends with the fault of the first token that means nothing.

* `ofTokensFrom`: the program of what is left of a source, in a yard that holds what came before.
* `ofTokens`: the program of a source.
-/

namespace InfixCalculator.Postfix

/-- The record that a token is about to be handled. -/
def noteToken (token : Token) : Traced Unit :=
  .note .trace ("shunting " ++ token.kind.name ++ " '" ++ token.text ++ "'")

/-- The program of what is left of a source, in a yard that holds what came before. -/
def ofTokensFrom {σ : Type} [TokenSource σ] (table : Variables) (source : σ) (yard : Yard) :
    Traced (List Item) :=
  match _h : TokenSource.current source with
  | none => pure yard.program
  | some token => do
    noteToken token
    let symbol ← .ofExcept (Symbol.ofToken table token)
    ofTokensFrom table (TokenSource.advance source) (yard.take symbol)
termination_by TokenSource.remaining source
decreasing_by exact TokenSource.remaining_advance_lt _h

/-- The postfix program of a source of tokens. -/
def ofTokens {σ : Type} [TokenSource σ] (table : Variables) (source : σ) : Traced (List Item) :=
  ofTokensFrom table source Yard.empty

end InfixCalculator.Postfix
